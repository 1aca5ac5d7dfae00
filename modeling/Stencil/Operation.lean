import Stencil.Arithmetic
import Stencil.Host
import Stencil.Text.Search
import Stencil.Value.Coercion
import Stencil.Value.Equality

/-! What the operators do to the values of their operands. -/
namespace Stencil

def Sign.apply (sign : Sign) (v : Value) : Result Value :=
  match sign, v with
  | .not, v => .ok (.bool !v.truthy)
  | .minus, .int n => .ok (Arithmetic.exactOr (-n.toInt) (-Float.ofInt n.toInt))
  | .minus, .float x => .ok (.float (-x))
  | .plus, .int n => .ok (.int n)
  | .plus, .float x => .ok (.float x)
  | sign, v => .error (.type (.unary sign.symbol v.typeName))

namespace Operation

/-- The order of two floats; there is none if one of them is not a number. -/
def order? (x y : Float) : Option Ordering :=
  if x < y then some .lt else if x == y then some .eq else if y < x then some .gt else none

/-- Orders two values by the numbers that they are read as. -/
def compare (op : Operator) (left right : Value) : Result Ordering :=
  match left.asFloat?, right.asFloat? with
  | some x, some y =>
    match order? x y with
    | some o => .ok o
    | none => .error (.type (.orderingNaN op.symbol))
  | _, _ => .error (.type (.ordering op.symbol left.typeName right.typeName))

/-- Whether `item` is a part of `container`: a substring, an item or a key. -/
def contains (host : Host) (container item : Value) : Result Bool :=
  match container with
  | .string s =>
    match item with
    | .string part => .ok (Text.occursIn part.toList s.toList)
    | other => .error (.type (.substring other.typeName))
  | .list items => .ok (items.any (· == item))
  | .map entries => .ok (Entries.contains entries item.key)
  | .object o => .ok (host.item? o item).isSome
  | other => .error (.type (.container other.typeName))

end Operation

open Operation in
/-- Applies an operator to its operands. The connectives decide whether to evaluate their right operand
at all and therefore take no values. -/
def Operator.apply (host : Host) (op : Operator) (left right : Value) : Result Value :=
  match op with
  | .eq | .is => .ok (.bool (left == right))
  | .ne | .isNot => .ok (.bool (left != right))
  | .lt => (compare op left right).map fun o => .bool (o == .lt)
  | .le => (compare op left right).map fun o => .bool (o != .gt)
  | .gt => (compare op left right).map fun o => .bool (o == .gt)
  | .ge => (compare op left right).map fun o => .bool (o != .lt)
  | .isIn => (contains host right left).map .bool
  | .notIn => (contains host right left).map fun b => .bool !b
  | .add => Arithmetic.add left right
  | .sub => Arithmetic.sub left right
  | .mul => Arithmetic.mul left right
  | .div => Arithmetic.div left right
  | .floorDiv => Arithmetic.floorDiv left right
  | .mod => Arithmetic.mod left right
  | .pow => Arithmetic.pow left right
  | .and | .or => .error (.syntactic (.notBinary op.symbol))

/-- Applies the operator that a symbol stands for. -/
def applySymbol (host : Host) (symbol : String) (left right : Value) : Result Value :=
  match Operator.ofSymbol? symbol with
  | some op => op.apply host left right
  | none => .error (.syntactic (.notBinary symbol))

end Stencil
