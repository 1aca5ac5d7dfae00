import Stencil.Entries
import Stencil.Template.Node

/-! Pieces of templates that are kept for the next use. -/
namespace Stencil

/-- The pieces of templates, under the text of the template. -/
abbrev Cache := Entries (List Node)

namespace Cache

def empty : Cache := Entries.empty

/-- The pieces under a text, cut and stored if there are none yet. -/
def getOrParse (c : Cache) (template : String) : List Node × Cache :=
  match Entries.get? template c with
  | some nodes => (nodes, c)
  | none =>
    let nodes := Node.ofTemplate template
    (nodes, c.insert template nodes)

end Cache

end Stencil
