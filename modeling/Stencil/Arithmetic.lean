import Stencil.Error
import Stencil.Expr.Operator
import Stencil.Value.Text

/-! Arithmetic on values. Ints stay exact as long as the result is in their range and become floats
beyond it. -/
namespace Stencil

/-- The values that arithmetic accepts. -/
inductive Number where
  | int (n : Int64)
  | float (x : Float)

namespace Number

def ofValue? : Value → Option Number
  | .int n => some (.int n)
  | .float x => some (.float x)
  | _ => none

def toFloat : Number → Float
  | int n => Float.ofInt n.toInt
  | float x => x

def isZero : Number → Bool
  | int n => n == 0
  | float x => x == 0

end Number

namespace Arithmetic

/-- The exact result if it is in the range of ints, else the float computed in its place. -/
def exactOr (i : Int) (x : Float) : Value := if fitsInt i then .int (Int64.ofInt i) else .float x

theorem exactOr_toInt (n : Int64) (x : Float) : exactOr n.toInt x = .int n := by
  rw [exactOr, if_pos (fitsInt_toInt n), Int64.ofInt_toInt]

def mismatch (op : Operator) (left right : Value) : Error :=
  .type (.operands op.symbol left.typeName right.typeName)

/-- Applies an operation on numbers: exactly on ints, in floats as soon as one operand is a float. -/
def onNumbers (op : Operator) (exact : Int → Int → Int) (approximate : Float → Float → Float)
    (left right : Value) : Result Value :=
  match Number.ofValue? left, Number.ofValue? right with
  | some (.int a), some (.int b) =>
    .ok (exactOr (exact a.toInt b.toInt) (approximate (Float.ofInt a.toInt) (Float.ofInt b.toInt)))
  | some a, some b => .ok (.float (approximate a.toFloat b.toFloat))
  | _, _ => .error (mismatch op left right)

/-- Strings and lists are joined. -/
def add (left right : Value) : Result Value :=
  match left, right with
  | .string a, .string b => .ok (.string (a ++ b))
  | .list a, .list b => .ok (.list (a ++ b))
  | a, b => onNumbers .add (· + ·) (· + ·) a b

def sub (left right : Value) : Result Value := onNumbers .sub (· - ·) (· - ·) left right

/-- The length of copies of a sequence, unless it is too large for a machine word. -/
def totalLength? (length times : Nat) : Option Nat :=
  if length * times < UInt64.size then some (length * times) else none

/-- The number of copies of a sequence of the given length: none for a count below one or an empty
sequence, and a failure if the result would be too long. -/
def copies (kind : String) (length : Nat) (count : Int64) : Result Nat :=
  let times := count.toInt.toNat
  if length = 0 ∨ times = 0 then .ok 0
  else if (totalLength? length times).any (· ≤ maxRepeatLength) then .ok times
  else .error (.type (.repetition kind length count.toInt))

def repeatString (s : String) (count : Int64) : Result Value :=
  (copies "string" s.utf8ByteSize count).map fun n => .string (Nat.repeat (fun t => t ++ s) n "")

/-- The room to reserve for copies of a list. The product of machine words wraps around. -/
def room (length times : Nat) : UInt64 := length.toUInt64 * times.toUInt64

def repeatList (items : List Value) (count : Int64) : Result Value :=
  (copies "list" items.length count).map fun n =>
    let reserved : Array Value := Array.emptyWithCapacity (room items.length n).toNat
    .list (Nat.repeat (fun out : Array Value => out ++ items) n reserved).toList

/-- A sequence times an int repeats the sequence. -/
def mul (left right : Value) : Result Value :=
  match left, right with
  | .string s, .int n | .int n, .string s => repeatString s n
  | .list items, .int n | .int n, .list items => repeatList items n
  | a, b => onNumbers .mul (· * ·) (· * ·) a b

/-- Both operands of a division, with a divisor that is not zero. -/
def dividends (op : Operator) (left right : Value) : Result (Number × Number) :=
  match Number.ofValue? left, Number.ofValue? right with
  | some a, some b =>
    if b.isZero then
      .error (.divisionByZero
        (if op = .mod then .modulo left.display else .division left.display))
    else .ok (a, b)
  | _, _ => .error (mismatch op left right)

def div (left right : Value) : Result Value :=
  (dividends .div left right).map fun (a, b) => .float (a.toFloat / b.toFloat)

/-- The quotient of ints rounded toward zero. There is none for a divisor of zero, nor for the least int and
`-1`, where it is out of range. -/
def quotient? (a b : Int64) : Option Int64 :=
  if b = 0 ∨ (a = Int64.minValue ∧ b = -1) then none else some (a / b)

/-- The remainder of the same division; none where that has no quotient. -/
def remainder? (a b : Int64) : Option Int64 :=
  if b = 0 ∨ (a = Int64.minValue ∧ b = -1) then none else some (a % b)

/-- How far the quotient rounded toward zero lies above the one rounded down. -/
def excess (a b : Int64) : Int64 := if a % b ≠ 0 ∧ ¬ (a < 0 ↔ b < 0) then 1 else 0

/-- The quotient of ints rounded down. -/
def floorQuotient? (a b : Int64) : Option Int64 := (quotient? a b).map fun q => q - excess a b

/-- The remainder of the division of ints rounded down. -/
def floorRemainder (a b : Int64) : Int64 :=
  let r := (remainder? a b).getD 0
  if r ≠ 0 ∧ ¬ (r < 0 ↔ b < 0) then r + b else r

/-- Division rounded down. -/
def floorDiv (left right : Value) : Result Value :=
  (dividends .floorDiv left right).map fun
    | (.int a, .int b) =>
      match floorQuotient? a b with
      | some q => .int q
      | none => .float (Float.ofInt a.toInt / Float.ofInt b.toInt).floor
    | (a, b) => .float (a.toFloat / b.toFloat).floor

/-- On ints the remainder of the division rounded down, on floats of the one rounded toward zero. -/
def mod (left right : Value) : Result Value :=
  (dividends .mod left right).map fun
    | (.int a, .int b) => .int (floorRemainder a b)
    | (a, b) => .float (Decimal.remainder a.toFloat b.toFloat)

/-- A whole number as an int, if it is in their range. -/
def int? (i : Int) : Option Int64 := if fitsInt i then some (Int64.ofInt i) else none

/-- `acc` times a power, by repeated squaring; none as soon as a product is out of range. -/
def powerFrom? (acc base : Int64) (exponent : Nat) : Option Int64 :=
  if exponent = 0 then some acc
  else do
    let product ← if exponent % 2 = 1 then int? (acc.toInt * base.toInt) else some acc
    if exponent = 1 then some product
    else
      let square ← int? (base.toInt * base.toInt)
      powerFrom? product square (exponent / 2)
termination_by exponent
decreasing_by omega

/-- The exact power, if its exponent is below `2 ^ 32` and its value is in the range of ints. -/
def power? (base : Int64) (exponent : Nat) : Option Int64 :=
  if UInt32.size ≤ exponent then none else powerFrom? 1 base exponent

def pow (left right : Value) : Result Value :=
  match Number.ofValue? left, Number.ofValue? right with
  | some a, some b =>
    let approximate : Value := .float (a.toFloat ^ b.toFloat)
    match a, b with
    | .int base, .int exponent =>
      if 0 ≤ exponent.toInt then
        match power? base exponent.toInt.toNat with
        | some power => .ok (.int power)
        | none => .ok approximate
      else .ok approximate
    | _, _ => .ok approximate
  | _, _ => .error (mismatch .pow left right)

end Arithmetic

end Stencil
