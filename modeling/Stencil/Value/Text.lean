import Stencil.Value.Basic
import Stencil.Decimal.Notation

/-! The texts of a value: for output, for nesting inside other values, and as a map key. -/
namespace Stencil.Value

/-- Strings in single quotes, as they are. -/
def quoted (s : String) : String := "'" ++ s ++ "'"

private def functionText (f : Function) : String := "<function " ++ f.name ++ ">"

/-- The text of an entry, given that of its value. -/
def entryText (e : String × String) : String := quoted e.1 ++ ": " ++ e.2

mutual

/-- The text of a value inside a list or map. Maps list their entries in ascending order of the keys. -/
def repr : Value → String
  | null => "None"
  | bool b => if b then "True" else "False"
  | int n => toString n.toInt
  | float x => Decimal.floatText x
  | string s => quoted s
  | list items => "[" ++ ", ".intercalate (reprItems items) ++ "]"
  | map entries => "\x7b" ++ ", ".intercalate ((reprEntries entries).sorted.map entryText) ++ "\x7d"
  | function f => functionText f
  | method f _ _ => functionText f
  | object o => o.rendering

def reprItems : List Value → List String
  | [] => []
  | v :: vs => repr v :: reprItems vs

/-- The text of each value of a map. -/
def reprEntries : Entries Value → Entries String
  | ⟨names, distinct, value⟩ => ⟨names, distinct, fun k h => repr (value k h)⟩

end

theorem reprEntries_eq (entries : Entries Value) : reprEntries entries = entries.map repr := by
  cases entries
  rw [reprEntries]
  rfl

theorem repr_map (entries : Entries Value) : (map entries).repr =
    "\x7b" ++ ", ".intercalate ((entries.map repr).sorted.map entryText) ++ "\x7d" := by
  rw [repr, reprEntries_eq]

/-- The text of a value in the output. -/
def display : Value → String
  | null => ""
  | bool b => if b then "true" else "false"
  | string s => s
  | v => v.repr

/-- The map key that a value stands for. -/
def key (v : Value) : String := v.display

end Stencil.Value
