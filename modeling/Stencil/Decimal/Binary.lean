/-! Binary floating point numbers taken apart into sign, whole mantissa and exponent. -/
namespace Stencil.Decimal

/-- A 64-bit float. The finite case stands for `m * 2 ^ q`, negated if the first field says so. -/
inductive Parts where
  | nan
  | infinite (negative : Bool)
  | finite (negative : Bool) (m : Nat) (q : Int)
  deriving DecidableEq, Repr

/-- Reads the fields of the 64-bit format. -/
def Parts.ofBits (bits : Nat) : Parts :=
  let negative := bits / Nat.pow 2 63 % 2 == 1
  let biased : Nat := bits / Nat.pow 2 52 % Nat.pow 2 11
  let fraction := bits % Nat.pow 2 52
  if biased = 2047 then if fraction = 0 then .infinite negative else .nan
  else if biased = 0 then .finite negative fraction (-1074)
  else .finite negative (Nat.pow 2 52 + fraction) ((biased : Int) - 1075)

def Parts.ofFloat (x : Float) : Parts := .ofBits x.toBits.toNat

/-- The whole number that a float stands for, if it stands for one. -/
def Parts.whole? : Parts → Option Int
  | .finite negative m q =>
    let signed (n : Nat) : Int := if negative then -n else n
    if 0 ≤ q then some (signed (m * Nat.pow 2 q.toNat))
    else if m % Nat.pow 2 (-q).toNat = 0 then some (signed (m / Nat.pow 2 (-q).toNat))
    else none
  | _ => none

def wholeOf? (x : Float) : Option Int := (Parts.ofFloat x).whole?

/-- The remainder of the division that rounds toward zero. It is exact and has the sign of the
dividend. -/
def remainder (x y : Float) : Float :=
  match Parts.ofFloat x, Parts.ofFloat y with
  | .finite negative m q, .finite _ n r =>
    if n = 0 then 0 / 0
    else
      let low := min q r
      let rest := (m * Nat.pow 2 (q - low).toNat) % (n * Nat.pow 2 (r - low).toNat)
      let size := (Float.ofNat rest).scaleB low
      if negative then -size else size
  | .finite .., .infinite _ => x
  | _, _ => 0 / 0

end Stencil.Decimal
