import Stencil.Decimal.Shortest

/-! How numbers are written in decimal notation, and how they are read. -/
namespace Stencil.Decimal

/-- A number written out in full: no exponent, and no point after a whole number. -/
def positional (d : Digits) : String :=
  if 0 ≤ d.exponent then toString (d.digits * Nat.pow 10 d.exponent.toNat)
  else
    let places := (-d.exponent).toNat
    let unit := Nat.pow 10 places
    let fraction := (toString (d.digits % unit)).toList
    let zeros := List.replicate (places - fraction.length) '0'
    toString (d.digits / unit) ++ "." ++ String.ofList (zeros ++ fraction)

/-- The text of a float: its shortest digits written out in full. -/
def floatText (x : Float) : String :=
  match Parts.ofFloat x with
  | .nan => "NaN"
  | .infinite negative => if negative then "-inf" else "inf"
  | .finite negative m q => (if negative then "-" else "") ++ positional (shortest m q)

/-- The value of a run of decimal digits. -/
def digitsValue (cs : List Char) : Nat := cs.foldl (fun n c => 10 * n + (c.toNat - '0'.toNat)) 0

theorem digitsValue_toString (n : Nat) : digitsValue (toString n).toList = n := by
  have hdigits : (toString n).toList = Nat.toDigits 10 n := Nat.toList_repr
  rw [digitsValue, hdigits, ← Nat.ofDigitChars_eq_foldl, Nat.ofDigitChars_ten_toDigits]

/-- The magnitude of the least int. -/
def leastMagnitude : Nat := 9223372036854775808

/-- The float nearest to `mantissa * 10 ^ exponent`. Exponents beyond the range of floats are
settled without computing the power. -/
def nearestFloat (mantissa : Nat) (exponent : Int) : Float :=
  if mantissa = 0 then 0
  else
    let size := digitCount mantissa + exponent
    if 400 < size then 1 / 0
    else if size < -400 then 0
    else if 0 ≤ exponent then Float.ofScientific mantissa false exponent.toNat
    else Float.ofScientific mantissa true (-exponent).toNat

/-- Reads an optional sign: whether it is a minus, and what follows. -/
def readSign : List Char → Bool × List Char
  | '-' :: cs => (true, cs)
  | '+' :: cs => (false, cs)
  | cs => (false, cs)

/-- The exponent part at the end of a number: nothing, or `e` and a whole number. -/
def readExponent : List Char → Option Int
  | [] => some 0
  | c :: cs =>
    if c = 'e' ∨ c = 'E' then
      let (negative, ds) := readSign cs
      if ds ≠ [] ∧ ds.all Char.isDigit then
        some (if negative then -(digitsValue ds : Int) else digitsValue ds)
      else none
    else none

/-- Reads a number without sign: digits with at most one point among or beside them, and an
exponent. -/
def readUnsigned (cs : List Char) : Option Float :=
  let whole := cs.takeWhile Char.isDigit
  let (fraction, tail) :=
    match cs.dropWhile Char.isDigit with
    | '.' :: ds => (ds.takeWhile Char.isDigit, ds.dropWhile Char.isDigit)
    | ds => ([], ds)
  if whole = [] ∧ fraction = [] then none
  else (readExponent tail).map fun e =>
    nearestFloat (digitsValue (whole ++ fraction)) (e - fraction.length)

/-- Reads a float with an optional sign. `inf`, `infinity` and `nan` count in any letter case. -/
def readFloat? (cs : List Char) : Option Float :=
  let (negative, rest) := readSign cs
  let name := String.ofList (rest.map Char.toLower)
  let size : Option Float :=
    if name = "inf" ∨ name = "infinity" then some (1 / 0)
    else if name = "nan" then some (0 / 0)
    else readUnsigned rest
  size.map fun x => if negative then -x else x

/-- Reads a whole number with an optional sign. -/
def readInt? (cs : List Char) : Option Int :=
  let (negative, ds) := readSign cs
  if ds ≠ [] ∧ ds.all Char.isDigit then
    some (if negative then -(digitsValue ds : Int) else digitsValue ds)
  else none

end Stencil.Decimal
