import Stencil.Decimal.Binary

/-! The shortest decimal digits that single out a binary number among its neighbours. -/
namespace Stencil.Decimal

/-- The number `digits * 10 ^ exponent`. -/
structure Digits where
  digits : Nat
  exponent : Int
  deriving DecidableEq, Repr

/-- The number of decimal digits of `n`; zero has none. -/
def digitCount (n : Nat) : Nat := if n = 0 then 0 else (Nat.toDigits 10 n).length

/-- The exponent `e` with `10 ^ e ≤ num / den < 10 ^ (e + 1)`. -/
def leadingExponent (num den : Nat) : Int :=
  if den ≤ num then digitCount (num / den) - 1
  else -(digitCount ((den + num - 1) / num - 1) : Int)

/-- The reals that round to `m * 2 ^ q`, as twice their ends in units of `2 ^ (q - 1)`. The gap below a
power of two is half the gap above it. The ends belong to the interval when `m` is even. -/
structure Interval where
  low : Nat
  value : Nat
  high : Nat
  closed : Bool

def Interval.around (m : Nat) (q : Int) : Interval where
  low := 4 * m - (if m = Nat.pow 2 52 ∧ -1074 < q then 1 else 2)
  value := 4 * m
  high := 4 * m + 2
  closed := m % 2 == 0

/-- Whether `x / y` lies in the interval when its unit is `num / den`. -/
def Interval.contains (i : Interval) (num den x y : Nat) : Bool :=
  let scaled (n : Nat) := n * num * y
  if i.closed then scaled i.low ≤ x * den && x * den ≤ scaled i.high
  else scaled i.low < x * den && x * den < scaled i.high

/-- Of the two multiples of `10 ^ k` next to `m * 2 ^ q`, the nearer one that rounds to it, the
upper one if both are equally near. -/
def gridPoint? (i : Interval) (num den : Nat) (k : Int) : Option Nat :=
  let up := Nat.pow 10 k.toNat
  let down := Nat.pow 10 (-k).toNat
  let top := i.value * num * down
  let bottom := den * up
  let below := top / bottom
  let hit (n : Nat) := i.contains num den (n * up) down
  match hit below, hit (below + 1) with
  | true, true => if 2 * (top % bottom) < bottom then some below else some (below + 1)
  | true, false => some below
  | false, true => some (below + 1)
  | false, false => none

private def search (i : Interval) (num den : Nat) (lead : Int) : Nat → Nat → Digits
  | 0, n => ⟨i.value * num / den, n⟩
  | fuel + 1, n =>
    let k := lead + 1 - n
    match gridPoint? i num den k with
    | some d => ⟨d, k⟩
    | none => search i num den lead fuel (n + 1)

/-- The fewest digits that read back as `m * 2 ^ q`, and of those the nearest to it. Seventeen always
suffice. -/
def shortest (m : Nat) (q : Int) : Digits :=
  if m = 0 then ⟨0, 0⟩
  else
    let i := Interval.around m q
    let num := Nat.pow 2 (q - 2).toNat
    let den := Nat.pow 2 (2 - q).toNat
    search i num den (leadingExponent (i.value * num) den) 20 0

end Stencil.Decimal
