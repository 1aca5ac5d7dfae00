import Stencil.Entries
import Stencil.Value.Basic

/-! JSON documents. -/
namespace Stencil

/-- A JSON value. -/
inductive Json where
  | null
  | bool (b : Bool)
  | int (n : Int)
  | float (x : Float)
  | string (s : String)
  | array (items : List Json)
  | object (entries : Entries Json)

instance : Inhabited Json := ⟨.null⟩

namespace Json

mutual

/-- The value that a document denotes. Whole numbers beyond the range of ints become floats. -/
def value : Json → Value
  | null => .null
  | bool b => .bool b
  | int n => .ofInt n
  | float x => .float x
  | string s => .string s
  | array items => .list (values items)
  | object entries => .map (valueEntries entries)

def values : List Json → List Value
  | [] => []
  | j :: js => value j :: values js

def valueEntries : Entries Json → Entries Value
  | ⟨names, distinct, member⟩ => ⟨names, distinct, fun k h => value (member k h)⟩

end

mutual

/-- Lays `upper` over `base`: objects are merged key by key, anything else replaces what it covers. -/
def merge (base upper : Json) : Json :=
  match upper with
  | object entries =>
    match base with
    | object known => object (known.update (mergeEntries entries))
    | _ => object entries
  | other => other

/-- What each member of an object makes of the member that it covers, if there is one. -/
def mergeEntries : Entries Json → Entries (Option Json → Json)
  | ⟨names, distinct, member⟩ =>
    ⟨names, distinct, fun k h covered =>
      match covered with
      | some base => merge base (member k h)
      | none => member k h⟩

end

end Json

end Stencil
