import Stencil.Value.Basic
import Stencil.Decimal.Notation
import Stencil.Text.Blank

/-! Values read as numbers, where the context asks for one. -/
namespace Stencil.Value

/-- The number in an ordering comparison: ints, floats, and strings that spell a number. -/
def asFloat? : Value → Option Float
  | int n => some (Float.ofInt n.toInt)
  | float x => some x
  | string s => Decimal.readFloat? (Text.trim s.toList)
  | _ => none

/-- The nearest number in the range of ints. -/
def clampInt (i : Int) : Int := max Int64.minValue.toInt (min Int64.maxValue.toInt i)

/-- The number in a subscript: ints, booleans, whole floats, and strings that spell an int. -/
def asIndex? : Value → Option Int64
  | int n => some n
  | bool b => some (if b then 1 else 0)
  | float x => (Decimal.wholeOf? x).map fun i => Int64.ofInt (clampInt i)
  | string s => ((Decimal.readInt? (Text.trim s.toList)).filter fitsInt).map Int64.ofInt
  | _ => none

end Stencil.Value
