import Stencil.Error
import Stencil.Expr.Token
import Stencil.Text.Blank
import Stencil.Text.Letter

/-! Cutting the text of an expression into tokens. -/
namespace Stencil

namespace Lexeme

/-- What a backslash and the character after it stand for inside a string. -/
def unescape : Char → List Char
  | 'n' => ['\n']
  | 't' => ['\t']
  | 'r' => ['\r']
  | '\\' => ['\\']
  | '\'' => ['\'']
  | '"' => ['"']
  | c => ['\\', c]

/-- Reads a string after its opening quote: the content, and what follows the closing quote. -/
def readString (quote : Char) : List Char → Option (List Char × List Char)
  | [] => none
  | c :: cs =>
    if c = quote then some ([], cs)
    else if c = '\\' then
      match cs with
      | [] => none
      | d :: ds => (readString quote ds).map fun r => (unescape d ++ r.1, r.2)
    else (readString quote cs).map fun r => (c :: r.1, r.2)

/-- Reads a number: digits, with one point among or after them unless the number follows a dot. -/
def readNumber (afterDot : Bool) (cs : List Char) : Lexeme × List Char :=
  let whole := cs.takeWhile Char.isDigit
  match afterDot, cs.dropWhile Char.isDigit with
  | false, '.' :: rest =>
    let fraction := rest.takeWhile Char.isDigit
    let x := Decimal.nearestFloat (Decimal.digitsValue (whole ++ fraction)) (-fraction.length)
    (.decimal x, rest.dropWhile Char.isDigit)
  | _, rest => (.integer (String.ofList whole), rest)

/-- A whole number is an int, or the magnitude of the least int after a minus sign. -/
def inRange (afterMinus : Bool) : Lexeme → Bool
  | .integer digits =>
    let n := Decimal.digitsValue digits.toList
    n < Decimal.leastMagnitude || (afterMinus && n == Decimal.leastMagnitude)
  | _ => true

/-- What follows the word `word`, if it comes next after some white space. -/
def wordAfter? (word : String) (cs : List Char) : Option (List Char) :=
  let rest := cs.dropWhile Text.isBlank
  if rest.length < cs.length ∧ rest.takeWhile Text.isNameChar = word.toList then
    some (rest.dropWhile Text.isNameChar)
  else none

/-- The lexeme of a word, given what follows it. -/
def ofWord (word rest : List Char) : Lexeme × List Char :=
  match String.ofList word with
  | "True" => (.constant .true true, rest)
  | "true" => (.constant .true false, rest)
  | "False" => (.constant .false true, rest)
  | "false" => (.constant .false false, rest)
  | "None" => (.constant .none true, rest)
  | "none" => (.constant .none false, rest)
  | "or" => (.operator .or, rest)
  | "and" => (.operator .and, rest)
  | "not" =>
    match wordAfter? "in" rest with
    | some rest' => (.operator .notIn, rest')
    | none => (.not, rest)
  | "is" =>
    match wordAfter? "not" rest with
    | some rest' => (.operator .isNot, rest')
    | none => (.operator .is, rest)
  | "in" => (.operator .isIn, rest)
  | text => (.name text, rest)

/-- The operator or mark at the head of a text; of two readings the longer one counts. -/
def readSymbol : List Char → Option (Lexeme × List Char)
  | '=' :: '=' :: cs => some (.operator .eq, cs)
  | '!' :: '=' :: cs => some (.operator .ne, cs)
  | '>' :: '=' :: cs => some (.operator .ge, cs)
  | '<' :: '=' :: cs => some (.operator .le, cs)
  | '*' :: '*' :: cs => some (.operator .pow, cs)
  | '/' :: '/' :: cs => some (.operator .floorDiv, cs)
  | '+' :: cs => some (.operator .add, cs)
  | '-' :: cs => some (.operator .sub, cs)
  | '*' :: cs => some (.operator .mul, cs)
  | '/' :: cs => some (.operator .div, cs)
  | '%' :: cs => some (.operator .mod, cs)
  | '<' :: cs => some (.operator .lt, cs)
  | '>' :: cs => some (.operator .gt, cs)
  | '(' :: cs => some (.mark .openParen, cs)
  | ')' :: cs => some (.mark .closeParen, cs)
  | '[' :: cs => some (.mark .openBracket, cs)
  | ']' :: cs => some (.mark .closeBracket, cs)
  | '{' :: cs => some (.mark .openBrace, cs)
  | '}' :: cs => some (.mark .closeBrace, cs)
  | ',' :: cs => some (.mark .comma, cs)
  | '.' :: cs => some (.mark .dot, cs)
  | ':' :: cs => some (.mark .colon, cs)
  | '|' :: cs => some (.mark .pipe, cs)
  | _ => none

/-- Reads the lexeme that begins with the character `c`, given the lexeme before it. -/
def read (before : Option Lexeme) (c : Char) (cs : List Char) : Except LexFault (Lexeme × List Char) :=
  if c = '\'' ∨ c = '"' then
    match readString c cs with
    | some (content, rest) => .ok (.string (String.ofList content), rest)
    | none => .error .unterminatedString
  else if c.isDigit then
    let (x, rest) := readNumber (before == some (.mark .dot)) (c :: cs)
    if x.inRange (before == some (.operator .sub)) then .ok (x, rest)
    else .error (.integerOutOfRange x.text)
  else if Text.isNameStart c then
    .ok (ofWord (c :: cs.takeWhile Text.isNameChar) (cs.dropWhile Text.isNameChar))
  else
    match readSymbol (c :: cs) with
    | some r => .ok r
    | none => .error (.unexpectedCharacter c)

theorem length_dropWhile_le (p : Char → Bool) (cs : List Char) :
    (cs.dropWhile p).length ≤ cs.length := (List.dropWhile_sublist p).length_le

theorem length_readString {quote : Char} {cs content rest : List Char}
    (h : readString quote cs = some (content, rest)) : rest.length < cs.length := by
  fun_induction readString quote cs generalizing content rest with
  | case1 => simp at h
  | case2 => simp_all
  | case3 => simp at h
  | case4 d ds _ ih =>
    obtain ⟨r, hr, hrest⟩ := Option.map_eq_some_iff.1 h
    obtain rfl : r.2 = rest := congrArg Prod.snd hrest
    have := ih hr
    simp only [List.length_cons]
    omega
  | case5 c cs _ _ ih =>
    obtain ⟨r, hr, hrest⟩ := Option.map_eq_some_iff.1 h
    obtain rfl : r.2 = rest := congrArg Prod.snd hrest
    have := ih hr
    simp only [List.length_cons]
    omega

theorem length_readNumber (afterDot : Bool) {c : Char} (hc : c.isDigit = true) (cs : List Char) :
    (readNumber afterDot (c :: cs)).2.length ≤ cs.length := by
  have hd := length_dropWhile_le Char.isDigit cs
  simp only [readNumber, List.dropWhile_cons, hc, if_true]
  split
  · next rest heq =>
    have := length_dropWhile_le Char.isDigit rest
    rw [heq] at hd
    simp only [List.length_cons] at hd ⊢
    omega
  · exact hd

theorem length_wordAfter? {word : String} {cs rest : List Char}
    (h : wordAfter? word cs = some rest) : rest.length ≤ cs.length := by
  simp only [wordAfter?] at h
  split at h
  · obtain rfl := Option.some.inj h
    have h1 := length_dropWhile_le Text.isNameChar (cs.dropWhile Text.isBlank)
    have h2 := length_dropWhile_le Text.isBlank cs
    omega
  · simp at h

theorem length_ofWord (word rest : List Char) : (ofWord word rest).2.length ≤ rest.length := by
  unfold ofWord
  split <;> try exact Nat.le_refl _
  · split
    · next h => exact length_wordAfter? h
    · exact Nat.le_refl _
  · split
    · next h => exact length_wordAfter? h
    · exact Nat.le_refl _

theorem length_readSymbol {cs : List Char} {x : Lexeme} {rest : List Char}
    (h : readSymbol cs = some (x, rest)) : rest.length < cs.length := by
  unfold readSymbol at h
  split at h <;> simp only [Option.some.injEq, Prod.mk.injEq, reduceCtorEq] at h <;>
    obtain ⟨-, rfl⟩ := h <;> simp only [List.length_cons] <;> omega

/-- Reading a lexeme uses up at least its first character. -/
theorem length_read {before : Option Lexeme} {c : Char} {cs : List Char} {x : Lexeme}
    {rest : List Char} (h : read before c cs = .ok (x, rest)) : rest.length ≤ cs.length := by
  unfold read at h
  split at h
  · split at h
    · next hs =>
      have := length_readString hs
      simp only [Except.ok.injEq, Prod.mk.injEq] at h
      obtain ⟨-, rfl⟩ := h
      omega
    · simp at h
  · split at h
    · next hd =>
      have hn := length_readNumber (before == some (.mark .dot)) hd cs
      simp only at h
      split at h
      · simp only [Except.ok.injEq, Prod.mk.injEq] at h
        obtain ⟨-, rfl⟩ := h
        exact hn
      · simp at h
    · split at h
      · simp only [Except.ok.injEq] at h
        have hw := length_ofWord (c :: cs.takeWhile Text.isNameChar) (cs.dropWhile Text.isNameChar)
        have hl := length_dropWhile_le Text.isNameChar cs
        rw [h] at hw
        simp only at hw
        omega
      · split at h
        · next r hr =>
          simp only [Except.ok.injEq] at h
          subst h
          have := length_readSymbol hr
          simp only [List.length_cons] at this
          omega
        · simp at h

end Lexeme

/-- The number of bytes of a text in UTF-8. -/
def byteLength (cs : List Char) : Nat := cs.foldr (fun c n => c.utf8Size + n) 0

/-- The tokens of `cs`, which begins at byte `position` and follows the lexeme `before`. -/
def lexFrom (position : Nat) (before : Option Lexeme) : List Char → Result (List Token)
  | [] => .ok []
  | c :: cs =>
    if Text.isBlank c then lexFrom (position + c.utf8Size) before cs
    else
      match _h : Lexeme.read before c cs with
      | .error fault => .error (.lexical fault position)
      | .ok (x, rest) =>
        match lexFrom (position + (byteLength (c :: cs) - byteLength rest)) (some x) rest with
        | .error e => .error e
        | .ok ts => .ok (⟨x, position⟩ :: ts)
termination_by cs => cs.length
decreasing_by
  · simp
  · have := Lexeme.length_read _h
    simp only [List.length_cons]
    omega

/-- The tokens of an expression. -/
def lex (source : String) : Result (List Token) := lexFrom 0 none source.toList

end Stencil
