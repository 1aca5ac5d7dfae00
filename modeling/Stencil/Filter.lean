import Stencil.Entries
import Stencil.Error
import Stencil.Text.Blank
import Stencil.Text.Case
import Stencil.Text.Markup
import Stencil.Text.Search
import Stencil.Value.Text

/-! Filters: what pipelines do to their values. -/
namespace Stencil

/-- A filter turns a value and arguments into a value. One that accepts undefined takes null in place of
a value that is not defined. -/
structure Filter where
  name : String
  acceptsUndefined : Bool
  apply : Value → List Value → Result Value

namespace Filter

def failure {α : Type} (name : String) (fault : CallFault) : Result α := .error (.call name fault)

def stringArg (name : String) (args : List Value) (i : Nat) (what : String) : Result String :=
  match args[i]? with
  | some (.string s) => .ok s
  | some v => failure name (.notString what v.typeName)
  | none => failure name (.missing what)

/-- A filter on the text of the value. -/
private def onText (name : String) (f : List Char → List Char) : Filter :=
  ⟨name, false, fun v _ => .ok (.string (Text.mapChars f v.display))⟩

private def plain (name : String) (apply : Value → List Value → Result Value) : Filter :=
  ⟨name, false, apply⟩

/-- Replaces the first occurrences up to the third argument, or all if it is no int or negative. -/
def replaceText (v : Value) (args : List Value) : Result Value := do
  let old ← stringArg "replace" args 0 "old substring"
  let new ← stringArg "replace" args 1 "new substring"
  let text := v.display.toList
  match (args[2]? : Option Value) with
  | some (.int n) =>
    if 0 ≤ n.toInt then .ok (.ofChars (Text.replaceUpTo n.toInt.toNat old.toList new.toList text))
    else .ok (.ofChars (Text.replace old.toList new.toList text))
  | _ => .ok (.ofChars (Text.replace old.toList new.toList text))

/-- Cuts blanks, or the characters of the first argument, off both ends. -/
def trimText (v : Value) (args : List Value) : Result Value :=
  if args.isEmpty then .ok (.string (Text.mapChars Text.trim v.display))
  else (stringArg "trim" args 0 "cutset").map fun cut =>
    .string (Text.mapChars (Text.trimWhere fun c => cut.toList.contains c) v.display)

/-- The texts of the items of a list with the first argument between them. -/
def joinItems (v : Value) (args : List Value) : Result Value := do
  let delimiter ← if args.isEmpty then .ok "" else stringArg "join" args 0 "delimiter"
  match v with
  | .null => .ok (.string "")
  | .string s => .ok (.string s)
  | .list items => .ok (.string (delimiter.intercalate (items.map Value.display)))
  | v => failure "join" (.notList v.typeName)

/-- The items of a list, the characters of a string, nothing for null, else the value alone. -/
def toItems : Value → List Value
  | .null => []
  | .string s => s.toList.map Value.ofChar
  | .list items => items
  | v => [v]

def lengthOf (v : Value) : Result Value :=
  if v.isNull then .ok (.ofNat 0)
  else
    match v.length? with
    | some n => .ok (.ofNat n)
    | none => failure "length" (.noLength v.typeName)

def firstOf : Value → Value
  | .list items => items.head?.getD .null
  | .string s => (s.toList.head?.map Value.ofChar).getD .null
  | _ => .null

def lastOf : Value → Value
  | .list items => items.getLast?.getD .null
  | .string s => (s.toList.getLast?.map Value.ofChar).getD .null
  | _ => .null

/-- Whether a default takes the place of the value. Numbers always stay. -/
def lacking : Value → Bool
  | .null | .bool false => true
  | .string s => s == ""
  | .list items => items.isEmpty
  | .map entries => entries.isEmpty
  | _ => false

def orDefault (v : Value) (args : List Value) : Result Value :=
  match args.head? with
  | none => failure "default" .noFallback
  | some fallback => .ok (if lacking v then fallback else v)

def all : List Filter :=
  [onText "upper" Text.upper, onText "lower" Text.lower, onText "capitalize" Text.capitalize,
    plain "replace" replaceText, plain "trim" trimText,
    plain "escape" fun v _ => .ok (.string (Text.escape v.display)),
    plain "string" fun v _ => .ok (.string v.display),
    plain "join" joinItems, plain "list" fun v _ => .ok (.list (toItems v)),
    plain "length" fun v _ => lengthOf v, plain "first" fun v _ => .ok (firstOf v),
    plain "last" fun v _ => .ok (lastOf v), ⟨"default", true, orDefault⟩]

end Filter

/-- The filters that names stand for. -/
abbrev Filters := Entries Filter

namespace Filters

def register (fs : Filters) (f : Filter) : Filters := fs.insert f.name f

def empty : Filters := Entries.empty

def builtin : Filters := Filter.all.foldl register empty

/-- Applies the filter of this name. -/
def apply (fs : Filters) (name : String) (v : Value) (args : List Value) : Result Value :=
  match Entries.get? name fs with
  | some f => f.apply v args
  | none => .error (.unknownFilter name)

end Filters

end Stencil
