import Stencil.Decimal.Notation
import Stencil.Json.Reader
import Stencil.Toml.Table

/-! Reading TOML text. Dates and times become strings, and floats that JSON cannot hold become null. -/
namespace Stencil.Toml

namespace Reader

def isBlank (c : Char) : Bool := c == ' ' || c == '\t'

def skipBlanks (cs : List Char) : List Char := cs.dropWhile isBlank

/-- What follows a line break. -/
def afterNewline? : List Char → Option (List Char)
  | '\n' :: rest => some rest
  | '\r' :: '\n' :: rest => some rest
  | _ => none

/-- A tab, or a character that is no control character. -/
def isPlain (c : Char) : Bool := c == '\t' || (0x20 ≤ c.toNat && c.toNat != 0x7F)

/-- Skips a comment, if there is one. -/
def skipComment : List Char → List Char
  | '#' :: rest => rest.dropWhile isPlain
  | cs => cs

/-- What follows the end of a line: blanks, a comment and a line break. -/
def afterLine? (cs : List Char) : Option (List Char) :=
  match skipComment (skipBlanks cs) with
  | [] => some []
  | rest => afterNewline? rest

/-- Skips blanks, comments and line breaks. -/
def skipLines : Nat → List Char → List Char
  | 0, cs => cs
  | fuel + 1, cs =>
    let rest := skipComment (skipBlanks cs)
    match afterNewline? rest with
    | some rest' => skipLines fuel rest'
    | none => rest

/-- The character of an escape with its number written in `k` hexadecimal digits. -/
def readUnicode (k : Nat) (cs : List Char) : Option (Char × List Char) :=
  (Json.Reader.readHex k 0 cs).bind fun (n, rest) =>
    if n.isValidChar then some (Char.ofNat n, rest) else none

/-- The character of an escape after its backslash. -/
def readEscape : List Char → Option (Char × List Char)
  | 'b' :: rest => some ('\x08', rest)
  | 't' :: rest => some ('\t', rest)
  | 'n' :: rest => some ('\n', rest)
  | 'f' :: rest => some ('\x0c', rest)
  | 'r' :: rest => some ('\r', rest)
  | '"' :: rest => some ('"', rest)
  | '\\' :: rest => some ('\\', rest)
  | 'u' :: rest => readUnicode 4 rest
  | 'U' :: rest => readUnicode 8 rest
  | _ => none

/-- A string on one line, after its opening quote. Only basic strings have escapes. -/
def readLineString (quote : Char) : Nat → List Char → Option (List Char × List Char)
  | 0, _ => none
  | _ + 1, [] => none
  | fuel + 1, c :: cs =>
    if c = quote then some ([], cs)
    else if c = '\\' ∧ quote = '"' then do
      let (u, rest) ← readEscape cs
      let (s, rest) ← readLineString quote fuel rest
      some (u :: s, rest)
    else if isPlain c then (readLineString quote fuel cs).map fun r => (c :: r.1, r.2)
    else none

/-- What follows a backslash that ends a line: blanks, a line break, and all blanks and line breaks after
it. -/
def afterContinuation? (cs : List Char) : Option (List Char) :=
  (afterNewline? (skipBlanks cs)).map fun rest => skipAll rest rest.length
where
  skipAll (cs : List Char) : Nat → List Char
    | 0 => cs
    | n + 1 =>
      match afterNewline? (skipBlanks cs) with
      | some rest => skipAll rest n
      | none => skipBlanks cs

/-- A string on several lines, after its opening quotes. It ends at three quotes, and up to two more that
stand right before these belong to it. -/
def readBlockString (quote : Char) : Nat → List Char → Option (List Char × List Char)
  | 0, _ => none
  | _ + 1, [] => none
  | fuel + 1, c :: cs =>
    let quotes := (c :: cs).takeWhile (· == quote)
    if 3 ≤ quotes.length then
      if 5 < quotes.length then none
      else some (quotes.drop 3, (c :: cs).drop quotes.length)
    else if c = '\\' ∧ quote = '"' then
      match afterContinuation? cs with
      | some rest => readBlockString quote fuel rest
      | none => do
        let (u, rest) ← readEscape cs
        let (s, rest) ← readBlockString quote fuel rest
        some (u :: s, rest)
    else
      match afterNewline? (c :: cs) with
      | some rest => (readBlockString quote fuel rest).map fun r => ('\n' :: r.1, r.2)
      | none =>
        if isPlain c then (readBlockString quote fuel cs).map fun r => (c :: r.1, r.2) else none

/-- A string of any of the four kinds. -/
def readString (fuel : Nat) (cs : List Char) : Option (String × List Char) :=
  let text (r : List Char × List Char) := (String.ofList r.1, r.2)
  let block (quote : Char) (rest : List Char) :=
    (readBlockString quote fuel ((afterNewline? rest).getD rest)).map text
  match cs with
  | '"' :: '"' :: '"' :: rest => block '"' rest
  | '\'' :: '\'' :: '\'' :: rest => block '\'' rest
  | '"' :: rest => (readLineString '"' fuel rest).map text
  | '\'' :: rest => (readLineString '\'' fuel rest).map text
  | _ => none

def isKeyChar (c : Char) : Bool := c.isAlphanum || c == '-' || c == '_'

/-- A bare key, or a key in quotes. -/
def readKey (fuel : Nat) (cs : List Char) : Option (String × List Char) :=
  match cs with
  | '"' :: rest => (readLineString '"' fuel rest).map fun r => (String.ofList r.1, r.2)
  | '\'' :: rest => (readLineString '\'' fuel rest).map fun r => (String.ofList r.1, r.2)
  | cs =>
    match cs.takeWhile isKeyChar with
    | [] => none
    | key => some (String.ofList key, cs.dropWhile isKeyChar)

/-- Keys with dots between them, and blanks around them. -/
def readPath : Nat → List Char → Option (List String × List Char)
  | 0, _ => none
  | fuel + 1, cs =>
    (readKey fuel (skipBlanks cs)).bind fun (key, rest) =>
      match skipBlanks rest with
      | '.' :: rest => (readPath fuel rest).map fun r => (key :: r.1, r.2)
      | rest => some ([key], rest)

/-- Digits with single underscores between them, without the underscores. -/
def readDigits (isDigit : Char → Bool) : List Char → List Char × List Char
  | [] => ([], [])
  | c :: cs =>
    if isDigit c then
      match cs with
      | '_' :: d :: rest =>
        if isDigit d then
          let (ds, r) := readDigits isDigit (d :: rest)
          (c :: ds, r)
        else ([c], '_' :: d :: rest)
      | cs =>
        let (ds, r) := readDigits isDigit cs
        (c :: ds, r)
    else ([], c :: cs)

/-- A number of exactly `k` decimal digits. -/
def readFixed (k : Nat) (cs : List Char) : Option (Nat × List Char) :=
  let ds := cs.take k
  if ds.length = k ∧ ds.all Char.isDigit then some (Decimal.digitsValue ds, cs.drop k) else none

def expectChar (p : Char → Bool) : List Char → Option (List Char)
  | c :: cs => if p c then some cs else none
  | [] => none

def daysIn (year month : Nat) : Nat :=
  if month = 2 then
    if year % 4 = 0 ∧ (year % 100 ≠ 0 ∨ year % 400 = 0) then 29 else 28
  else if month ∈ [4, 6, 9, 11] then 30
  else 31

/-- A number with leading zeros up to `k` digits. -/
def padded (k n : Nat) : String :=
  let ds := (toString n).toList
  String.ofList (List.replicate (k - ds.length) '0' ++ ds)

/-- A date, written as year, month and day. -/
def readDate (cs : List Char) : Option (String × List Char) := do
  let (year, rest) ← readFixed 4 cs
  let rest ← expectChar (· == '-') rest
  let (month, rest) ← readFixed 2 rest
  let rest ← expectChar (· == '-') rest
  let (day, rest) ← readFixed 2 rest
  if 1 ≤ month ∧ month ≤ 12 ∧ 1 ≤ day ∧ day ≤ daysIn year month then
    some (padded 4 year ++ "-" ++ padded 2 month ++ "-" ++ padded 2 day, rest)
  else none

/-- The digits after the second, of which nine count, without zeros at the end. -/
def fractionText (ds : List Char) : String :=
  let kept := ((ds.take 9).reverse.dropWhile (· == '0')).reverse
  if kept = [] then "" else "." ++ String.ofList kept

/-- A time of day, written as hour, minute and second with an optional fraction. -/
def readTime (cs : List Char) : Option (String × List Char) := do
  let (hour, rest) ← readFixed 2 cs
  let rest ← expectChar (· == ':') rest
  let (minute, rest) ← readFixed 2 rest
  let rest ← expectChar (· == ':') rest
  let (second, rest) ← readFixed 2 rest
  if 23 < hour ∨ 59 < minute ∨ 60 < second then none
  else
    let whole := padded 2 hour ++ ":" ++ padded 2 minute ++ ":" ++ padded 2 second
    match rest with
    | '.' :: d :: more =>
      if d.isDigit then
        let ds := (d :: more).takeWhile Char.isDigit
        some (whole ++ fractionText ds, (d :: more).dropWhile Char.isDigit)
      else some (whole, rest)
    | rest => some (whole, rest)

/-- The offset from universal time, if there is one. -/
def readOffset (cs : List Char) : String × List Char :=
  let signed (sign : Char) (rest : List Char) : Option (String × List Char) := do
    let (hour, rest) ← readFixed 2 rest
    let rest ← expectChar (· == ':') rest
    let (minute, rest) ← readFixed 2 rest
    if 23 < hour ∨ 59 < minute then none
    else
      let sign := if hour = 0 ∧ minute = 0 then "+" else sign.toString
      some (sign ++ padded 2 hour ++ ":" ++ padded 2 minute, rest)
  match cs with
  | 'Z' :: rest => ("Z", rest)
  | 'z' :: rest => ("Z", rest)
  | '+' :: rest => (signed '+' rest).getD ("", cs)
  | '-' :: rest => (signed '-' rest).getD ("", cs)
  | cs => ("", cs)

/-- A date, a time, or both with an optional offset. -/
def readDateTime (cs : List Char) : Option (String × List Char) :=
  match readDate cs with
  | none => readTime cs
  | some (date, rest) =>
    let time := (expectChar (fun c => c == 'T' || c == 't' || c == ' ') rest).bind readTime
    match time with
    | none => some (date, rest)
    | some (time, rest) =>
      let (offset, rest) := readOffset rest
      some (date ++ "T" ++ time ++ offset, rest)

/-- Decimal digits as the whole part of a number: no zero in front of other digits. -/
def readWhole (cs : List Char) : Option (List Char × List Char) :=
  match cs with
  | '0' :: rest => some (['0'], rest)
  | cs =>
    match readDigits Char.isDigit cs with
    | ([], _) => none
    | r => some r

def floatJson (x : Float) : Json := if x.isNaN || x.isInf then .null else .float x

/-- A float with a fraction or an exponent. It may not be too large. -/
def readFloat (cs : List Char) : Option (Json × List Char) := do
  let (negative, rest) := Decimal.readSign cs
  let (whole, rest) ← readWhole rest
  let (fraction, rest, point) ← match rest with
    | '.' :: more =>
      match readDigits Char.isDigit more with
      | ([], _) => none
      | (ds, r) => some (ds, r, true)
    | rest => some ([], rest, false)
  let (exponent, rest, scaled) ← match rest with
    | 'e' :: more | 'E' :: more =>
      let (down, more) := Decimal.readSign more
      match readDigits Char.isDigit more with
      | ([], _) => none
      | (ds, r) =>
        let n := Decimal.digitsValue ds
        some (if down then -(n : Int) else n, r, true)
    | rest => some (0, rest, false)
  if point || scaled then
    let x := Decimal.nearestFloat (Decimal.digitsValue (whole ++ fraction)) (exponent - fraction.length)
    if x.isInf && !negative then none else some (floatJson (if negative then -x else x), rest)
  else none

/-- Infinity or not a number, with an optional sign. -/
def readSpecial (cs : List Char) : Option (Json × List Char) :=
  match (Decimal.readSign cs).2 with
  | 'i' :: 'n' :: 'f' :: rest => some (.null, rest)
  | 'n' :: 'a' :: 'n' :: rest => some (.null, rest)
  | _ => none

def isHexDigit (c : Char) : Bool := (Json.Reader.hexDigit? c).isSome

def valueInBase (base : Nat) (ds : List Char) : Nat :=
  ds.foldl (fun n c => base * n + (Json.Reader.hexDigit? c).getD 0) 0

/-- A whole number in the range of ints: decimal with an optional sign, or with a base in front. -/
def readInteger (cs : List Char) : Option (Json × List Char) := do
  let based (base : Nat) (isDigit : Char → Bool) (rest : List Char) : Option (Int × List Char) :=
    match readDigits isDigit rest with
    | ([], _) => none
    | (ds, r) => some ((valueInBase base ds : Int), r)
  let (n, rest) ← match cs with
    | '0' :: 'x' :: rest => based 16 isHexDigit rest
    | '0' :: 'o' :: rest => based 8 (fun c => '0' ≤ c && c ≤ '7') rest
    | '0' :: 'b' :: rest => based 2 (fun c => c == '0' || c == '1') rest
    | cs =>
      let (negative, rest) := Decimal.readSign cs
      (readWhole rest).map fun (ds, r) =>
        let n : Int := Decimal.digitsValue ds
        (if negative then -n else n, r)
  if fitsInt n then some (.int n, rest) else none

def readNumber (cs : List Char) : Option (Json × List Char) :=
  match readDateTime cs with
  | some (s, rest) => some (.string s, rest)
  | none => (readFloat cs).or ((readSpecial cs).or (readInteger cs))

/-- How deep arrays and inline tables may nest. -/
def maxNesting : Nat := 79

mutual

/-- Reads a value at a nesting depth. -/
def readValue (depth : Nat) : Nat → List Char → Option (Json × List Char)
  | 0, _ => none
  | fuel + 1, cs =>
    match cs with
    | [] => none
    | c :: rest =>
      match c with
      | '"' => (readString fuel cs).map fun r => (.string r.1, r.2)
      | '\'' => (readString fuel cs).map fun r => (.string r.1, r.2)
      | '[' =>
        if depth < maxNesting then (readItems (depth + 1) fuel rest).map fun r => (.array r.1, r.2)
        else none
      | '{' =>
        if depth < maxNesting then
          match skipBlanks rest with
          | '}' :: rest => some (.object .empty, rest)
          | rest =>
            (readPairs (depth + 1) fuel .empty rest).map fun r => (.object (jsonItems r.1), r.2)
        else none
      | 't' => Json.Reader.afterWord? "true" (.bool true) cs
      | 'f' => Json.Reader.afterWord? "false" (.bool false) cs
      | _ => readNumber cs

/-- Reads the items of an array, with an optional comma after the last one, and its closing bracket. -/
def readItems (depth : Nat) : Nat → List Char → Option (List Json × List Char)
  | 0, _ => none
  | fuel + 1, cs =>
    match skipLines fuel cs with
    | ']' :: rest => some ([], rest)
    | cs =>
      match readValue depth fuel cs with
      | none => none
      | some (j, rest) =>
        match skipLines fuel rest with
        | ',' :: rest => (readItems depth fuel rest).map fun r => (j :: r.1, r.2)
        | ']' :: rest => some ([j], rest)
        | _ => none

/-- Reads the pairs of an inline table into the items read so far, and its closing brace. -/
def readPairs (depth : Nat) : Nat → Items → List Char → Option (Items × List Char)
  | 0, _, _ => none
  | fuel + 1, items, cs =>
    match readPath fuel cs with
    | some (path, '=' :: rest) =>
      match readValue depth fuel (skipBlanks rest) with
      | none => none
      | some (j, rest) =>
        match bind j path items with
        | none => none
        | some items =>
          match skipBlanks rest with
          | ',' :: rest => readPairs depth fuel items rest
          | '}' :: rest => some (items, rest)
          | _ => none
    | _ => none

end

/-- Splits off the last key of a path. -/
def splitLast (path : List String) : Option (List String × String) :=
  path.getLast?.map fun key => (path.dropLast, key)

/-- Reads the header of a table, after its opening bracket. -/
def readHeader (fuel : Nat) (items : Items) (cs : List Char) :
    Option (List String × Items × List Char) := do
  match cs with
  | '[' :: rest =>
    let (path, rest) ← readPath fuel rest
    let rest ← expectChar (· == ']') rest
    let rest ← expectChar (· == ']') rest
    let (parents, key) ← splitLast path
    let items ← openMember parents key items
    some (path, items, rest)
  | cs =>
    let (path, rest) ← readPath fuel cs
    let rest ← expectChar (· == ']') rest
    let (parents, key) ← splitLast path
    let items ← openTable parents key items
    some (path, items, rest)

/-- Reads the lines of a document. Keys go into the table under the path `current`. -/
def readLines : Nat → List String → Items → List Char → Option Items
  | 0, _, _, _ => none
  | fuel + 1, current, items, cs =>
    match skipLines fuel cs with
    | [] => some items
    | '[' :: rest => do
      let (path, items, rest) ← readHeader fuel items rest
      let rest ← afterLine? rest
      readLines fuel path items rest
    | cs =>
      match readPath fuel cs with
      | some (path, '=' :: rest) => do
        let (j, rest) ← readValue 0 fuel (skipBlanks rest)
        let items ← onTable (bind j path) current items
        let rest ← afterLine? rest
        readLines fuel current items rest
      | _ => none

end Reader

/-- The document that a text holds, as JSON. -/
def parse? (text : String) : Option Json :=
  let cs := match text.toList with
    | '\ufeff' :: cs => cs
    | cs => cs
  (Reader.readLines (2 * cs.length + 2) [] .empty cs).map fun items => .object (jsonItems items)

end Stencil.Toml
