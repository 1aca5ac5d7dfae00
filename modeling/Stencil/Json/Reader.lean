import Stencil.Decimal.Notation
import Stencil.Json.Basic

/-! Reading JSON text. -/
namespace Stencil.Json

/-- The blanks of JSON. -/
def isBlank (c : Char) : Bool := c == ' ' || c == '\n' || c == '\t' || c == '\r'

def skipBlanks (cs : List Char) : List Char := cs.dropWhile isBlank

/-- How deep arrays and objects may nest. -/
def maxNesting : Nat := 127

namespace Reader

/-- The largest mantissa that is kept; further digits only count. -/
def maxMantissa : Nat := UInt64.size - 1

/-- Takes digits into a mantissa while there is room. Returns the mantissa, the number of digits taken
and the number of those left over. -/
def absorb (mantissa taken : Nat) : List Char → Nat × Nat × Nat
  | [] => (mantissa, taken, 0)
  | c :: cs =>
    let next := 10 * mantissa + (c.toNat - '0'.toNat)
    if next ≤ maxMantissa then absorb next (taken + 1) cs else (mantissa, taken, cs.length + 1)

def powerOfTen (n : Nat) : Float := Float.ofScientific 1 false n

/-- Scales a float by a power of ten in steps of at most 308 places. Each step rounds; a result beyond
the range of floats is refused. -/
def scale (x : Float) (exponent : Int) : Nat → Option Float
  | 0 =>
    if 0 ≤ exponent then
      let y := x * powerOfTen exponent.toNat
      if y.isInf then none else some y
    else some (x / powerOfTen (-exponent).toNat)
  | steps + 1 =>
    if x == 0 then some x
    else if 0 ≤ exponent then none
    else scale (x / powerOfTen 308) (exponent + 308) steps

def scaled (mantissa : Nat) (exponent : Int) : Option Float :=
  let steps := if exponent.natAbs ≤ 308 then 0 else (exponent.natAbs + 307) / 308 - 1
  scale (Float.ofNat mantissa) exponent steps

/-- The largest exponent that is told apart from those beyond it. -/
def maxExponent : Nat := 2147483647

/-- Reads an exponent, if there is one, and scales the mantissa. -/
def readScaled (mantissa : Nat) (exponent : Int) (cs : List Char) : Option (Float × List Char) :=
  match cs with
  | c :: rest =>
    if c = 'e' ∨ c = 'E' then
      let (negative, ds) := Decimal.readSign rest
      let digits := ds.takeWhile Char.isDigit
      let rest := ds.dropWhile Char.isDigit
      let size := Decimal.digitsValue digits
      if digits = [] then none
      else if maxExponent < size then
        if mantissa = 0 ∨ negative then some (0, rest) else none
      else
        (scaled mantissa (if negative then exponent - size else exponent + size)).map fun x =>
          (x, rest)
    else (scaled mantissa exponent).map fun x => (x, c :: rest)
  | [] => (scaled mantissa exponent).map fun x => (x, [])

/-- A number that is not negative: whole, or with a fraction or an exponent. -/
inductive Magnitude where
  | whole (n : Nat)
  | real (x : Float)

def readMagnitude (cs : List Char) : Option (Magnitude × List Char) :=
  let whole := cs.takeWhile Char.isDigit
  let rest := cs.dropWhile Char.isDigit
  if whole = [] ∨ (whole.head? = some '0' ∧ 1 < whole.length) then none
  else
    let (mantissa, _, dropped) := absorb 0 0 whole
    match rest with
    | '.' :: ds =>
      let digits := ds.takeWhile Char.isDigit
      let (mantissa, taken, _) := absorb mantissa 0 digits
      if digits = [] then none
      else
        (readScaled mantissa (dropped - taken) (ds.dropWhile Char.isDigit)).map fun (x, r) =>
          (.real x, r)
    | c :: _ =>
      if c = 'e' ∨ c = 'E' ∨ 0 < dropped then
        (readScaled mantissa dropped rest).map fun (x, r) => (.real x, r)
      else some (.whole mantissa, rest)
    | [] =>
      if 0 < dropped then (readScaled mantissa dropped []).map fun (x, r) => (.real x, r)
      else some (.whole mantissa, [])

/-- Whole numbers become ints as far as 64 bits hold them; minus zero and the rest become floats. -/
def readNumber (cs : List Char) : Option (Json × List Char) :=
  match cs with
  | '-' :: ds =>
    (readMagnitude ds).map fun
      | (.whole n, r) =>
        (if 0 < n ∧ n ≤ Decimal.leastMagnitude then int (-n) else float (-Float.ofNat n), r)
      | (.real x, r) => (float (-x), r)
  | cs =>
    (readMagnitude cs).map fun
      | (.whole n, r) => (int n, r)
      | (.real x, r) => (float x, r)

def hexDigit? (c : Char) : Option Nat :=
  if c.isDigit then some (c.toNat - '0'.toNat)
  else if 'a' ≤ c ∧ c ≤ 'f' then some (c.toNat - 'a'.toNat + 10)
  else if 'A' ≤ c ∧ c ≤ 'F' then some (c.toNat - 'A'.toNat + 10)
  else none

/-- Reads a number of hexadecimal digits. -/
def readHex : Nat → Nat → List Char → Option (Nat × List Char)
  | 0, n, cs => some (n, cs)
  | _ + 1, _, [] => none
  | k + 1, n, c :: cs => (hexDigit? c).bind fun d => readHex k (16 * n + d) cs

/-- The character of an escape after its `u`. Characters beyond 16 bits are written as a pair of
surrogates; a surrogate alone is refused. -/
def readUnicode (cs : List Char) : Option (Char × List Char) := do
  let (high, rest) ← readHex 4 0 cs
  if 0xD800 ≤ high ∧ high < 0xDC00 then
    match rest with
    | '\\' :: 'u' :: rest => do
      let (low, rest) ← readHex 4 0 rest
      if 0xDC00 ≤ low ∧ low < 0xE000 then
        some (Char.ofNat (0x10000 + (high - 0xD800) * 0x400 + (low - 0xDC00)), rest)
      else none
    | _ => none
  else if 0xDC00 ≤ high ∧ high < 0xE000 then none
  else some (Char.ofNat high, rest)

/-- What a character after a backslash stands for. -/
def simpleEscape? : Char → Option Char
  | '"' => some '"'
  | '\\' => some '\\'
  | '/' => some '/'
  | 'b' => some '\x08'
  | 'f' => some '\x0c'
  | 'n' => some '\n'
  | 'r' => some '\r'
  | 't' => some '\t'
  | _ => none

/-- Reads a string after its opening quote. -/
def readString : Nat → List Char → Option (List Char × List Char)
  | 0, _ => none
  | _ + 1, [] => none
  | fuel + 1, c :: cs =>
    if c = '"' then some ([], cs)
    else if c.toNat < 0x20 then none
    else if c = '\\' then
      match cs with
      | 'u' :: rest => do
        let (u, rest) ← readUnicode rest
        let (s, rest) ← readString fuel rest
        some (u :: s, rest)
      | d :: rest => do
        let u ← simpleEscape? d
        let (s, rest) ← readString fuel rest
        some (u :: s, rest)
      | [] => none
    else (readString fuel cs).map fun r => (c :: r.1, r.2)

/-- What follows a literal word. -/
def afterWord? (word : String) (j : Json) (cs : List Char) : Option (Json × List Char) :=
  if word.toList.isPrefixOf cs then some (j, cs.drop word.length) else none

mutual

/-- Reads a value at a nesting depth. Every step uses up a character, so that the length of the text is
enough fuel. -/
def readValue (depth : Nat) : Nat → List Char → Option (Json × List Char)
  | 0, _ => none
  | fuel + 1, cs =>
    match skipBlanks cs with
    | [] => none
    | c :: rest =>
      match c with
      | 'n' => afterWord? "null" null (c :: rest)
      | 't' => afterWord? "true" (bool true) (c :: rest)
      | 'f' => afterWord? "false" (bool false) (c :: rest)
      | '"' => (readString fuel rest).map fun r => (string (String.ofList r.1), r.2)
      | '[' =>
        if depth < maxNesting then
          match skipBlanks rest with
          | ']' :: rest => some (array [], rest)
          | rest => (readItems (depth + 1) fuel rest).map fun r => (array r.1, r.2)
        else none
      | '{' =>
        if depth < maxNesting then
          match skipBlanks rest with
          | '}' :: rest => some (object .empty, rest)
          | rest =>
            (readMembers (depth + 1) fuel rest).map fun r => (object (Entries.ofList r.1), r.2)
        else none
      | _ => readNumber (c :: rest)

/-- Reads the items of an array and its closing bracket. -/
def readItems (depth : Nat) : Nat → List Char → Option (List Json × List Char)
  | 0, _ => none
  | fuel + 1, cs =>
    match readValue depth fuel cs with
    | none => none
    | some (j, rest) =>
      match skipBlanks rest with
      | ',' :: rest => (readItems depth fuel rest).map fun r => (j :: r.1, r.2)
      | ']' :: rest => some ([j], rest)
      | _ => none

/-- Reads the members of an object and its closing brace. -/
def readMembers (depth : Nat) : Nat → List Char → Option (List (String × Json) × List Char)
  | 0, _ => none
  | fuel + 1, cs =>
    match skipBlanks cs with
    | '"' :: rest =>
      match readString fuel rest with
      | none => none
      | some (key, rest) =>
        match skipBlanks rest with
        | ':' :: rest =>
          match readValue depth fuel rest with
          | none => none
          | some (j, rest) =>
            match skipBlanks rest with
            | ',' :: rest =>
              (readMembers depth fuel rest).map fun r => ((String.ofList key, j) :: r.1, r.2)
            | '}' :: rest => some ([(String.ofList key, j)], rest)
            | _ => none
        | _ => none
    | _ => none

end

end Reader

/-- The document that a text holds, with nothing but blanks around it. Of equal keys the last counts. -/
def parse? (text : String) : Option Json :=
  let cs := text.toList
  match Reader.readValue 0 (2 * cs.length + 2) cs with
  | some (j, rest) => if skipBlanks rest = [] then some j else none
  | none => none

end Stencil.Json
