import Mathlib.Data.List.Chain
import Stencil.Proofs.Expr.Lexing
import Stencil.Proofs.Text.Trimming

/-! Lexemes written down with blanks between them, and cut again. -/
namespace Stencil

namespace Lexeme

/-- A character of a string between single quotes. -/
def escape (c : Char) : List Char := if c = '\'' ∨ c = '\\' then ['\\', c] else [c]

/-- How a lexeme is written: a string in single quotes, and everything else by its text. -/
def written : Lexeme → String
  | string s => "'" ++ String.ofList (s.toList.flatMap escape) ++ "'"
  | x => x.text

/-- The words that stand for fixed values and operators. -/
def reserved : List String :=
  ["True", "true", "False", "false", "None", "none", "or", "and", "not", "is", "in"]

/-- Whether the text of a lexeme says all of it: whole numbers are ints, and names are ASCII names that are
not reserved. -/
def Writable : Lexeme → Prop
  | integer digits => digits ≠ "" ∧ (∀ d ∈ digits.toList, d.isDigit = true) ∧
      Decimal.digitsValue digits.toList < Decimal.leastMagnitude
  | decimal _ => False
  | name n => AsciiName n.toList ∧ n ∉ reserved
  | _ => True

/-- Words that make one operator together. -/
def Joins : Lexeme → Lexeme → Prop
  | .not, .operator .isIn => True
  | .operator .is, .not => True
  | .operator .is, .operator .notIn => True
  | _, _ => False

end Lexeme

open Lexeme

variable {before : Option Lexeme} {c : Char} {cs rest : List Char} {x y : Lexeme} {xs : List Lexeme}

/-- A text that ends here or goes on with a space. -/
def Spaced (cs : List Char) : Prop := ∀ c ∈ cs.head?, c = ' '

theorem Spaced.delimited (h : Spaced cs) : Delimited cs := by
  intro c hc
  obtain rfl := h c hc
  decide

theorem spaced_nil : Spaced [] := by simp [Spaced]

theorem spaced_cons : Spaced (' ' :: cs) := by simp [Spaced]

/-- `x` is the lexeme that is read from `cs` in front of `rest`. -/
def Reads (before : Option Lexeme) (cs rest : List Char) (x : Lexeme) : Prop :=
  ∃ c cs', cs = c :: cs' ∧ Text.isBlank c = false ∧ read before c (cs' ++ rest) = .ok (x, rest)

theorem Reads.lexes (h : Reads before cs rest x) (hlexes : Lexes (some x) rest xs) :
    Lexes before (cs ++ rest) (x :: xs) := by
  obtain ⟨c, cs, rfl, hc, hr⟩ := h
  exact hlexes.read hc hr

theorem reads_mark (m : Mark) : Reads before m.text.toList rest (.mark m) :=
  ⟨m.char, [], by cases m <;> rfl, by cases m <;> rfl, read_mark m before rest⟩

theorem readString_escaped (s rest : List Char) :
    readString '\'' (s.flatMap escape ++ '\'' :: rest) = some (s, rest) := by
  induction s with
  | nil =>
    rw [readString.eq_def]
    exact if_pos rfl
  | cons c s ih =>
    rw [List.flatMap_cons, List.append_assoc, escape]
    split
    · next hc =>
      have hunescape : unescape c = [c] := by rcases hc with rfl | rfl <;> rfl
      rw [List.cons_append, List.cons_append, List.nil_append, readString.eq_def]
      simp [ih, hunescape]
    · next hc =>
      obtain ⟨hquote, hslash⟩ := not_or.1 hc
      rw [List.cons_append, List.nil_append, readString.eq_def]
      simp [hquote, hslash, ih]

theorem reads_string (s : String) : Reads before (written (.string s)).toList rest (.string s) := by
  refine ⟨'\'', s.toList.flatMap escape ++ ['\''], by simp [written], rfl, ?_⟩
  rw [List.append_assoc, List.cons_append, List.nil_append, Lexeme.read, if_pos (.inl rfl),
    readString_escaped]
  simp only [String.ofList_toList]

theorem reads_integer_delimited {digits : String} (hrest : Delimited rest) (hx : Writable (.integer digits)) :
    Reads before digits.toList rest (.integer digits) := by
  obtain ⟨hne, hdigits, hvalue⟩ := hx
  obtain ⟨c, cs, hcs⟩ := List.exists_cons_of_ne_nil (mt String.toList_eq_nil_iff.1 hne)
  obtain rfl : String.ofList (c :: cs) = digits := by rw [← hcs, String.ofList_toList]
  rw [String.toList_ofList] at hdigits hvalue ⊢
  refine ⟨c, cs, rfl, isBlank_eq_false_of_isDigit (hdigits c (.head _)), ?_⟩
  exact read_digits hrest hdigits (by simp [inRange, hvalue])

/-- A word is read up to what cannot go on with it; what it says may depend on the next one. -/
theorem reads_word_stopped {word : String} (hword : AsciiName word.toList)
    (hrest : ∀ d ∈ rest.head?, Text.isNameChar d = false) (h : ofWord word.toList rest = (x, rest)) :
    Reads before word.toList rest x := by
  obtain ⟨⟨c, hc, hstart⟩, hname⟩ := hword
  obtain ⟨cs, hcs⟩ := List.head?_eq_some_iff.1 hc
  rw [hcs] at h hname ⊢
  refine ⟨c, cs, rfl, isBlank_eq_false_of_isNameChar (hname c (.head _)), ?_⟩
  rw [read_word_stopped hstart (List.all_eq_true.2 fun d hd => hname d (.tail _ hd)) hrest, h]

theorem reads_integer (hrest : Spaced rest) {digits : String} (hx : Writable (.integer digits)) :
    Reads before digits.toList rest (.integer digits) := reads_integer_delimited hrest.delimited hx

theorem reads_word (hrest : Spaced rest) {word : String} (hword : AsciiName word.toList)
    (h : ofWord word.toList rest = (x, rest)) : Reads before word.toList rest x :=
  reads_word_stopped hword (fun d hd => (hrest.delimited d hd).1) h

theorem ofWord_name {n : String} (hn : n ∉ reserved) (rest : List Char) :
    ofWord n.toList rest = (.name n, rest) := by
  unfold ofWord
  rw [String.ofList_toList]
  split <;> first | rfl | exact absurd (by decide) hn

/-- The word `word` behind a space. -/
theorem wordAfter?_word {word : String} (hword : AsciiName word.toList) (hrest : Spaced rest) :
    wordAfter? word (' ' :: (word.toList ++ rest)) = some rest := by
  obtain ⟨htake, hdrop⟩ := span_delimited hrest.delimited (fun _ => id) hword.2
  have hhead : ∃ c ∈ (word.toList ++ rest).head?, Text.isBlank c = false := by
    obtain ⟨⟨c, hc, hstart⟩, hname⟩ := hword
    obtain ⟨cs, hcs⟩ := List.head?_eq_some_iff.1 hc
    rw [hcs] at hname ⊢
    exact ⟨c, rfl, isBlank_eq_false_of_isNameChar (hname c (.head _))⟩
  have hblank : (' ' :: (word.toList ++ rest)).dropWhile Text.isBlank = word.toList ++ rest :=
    Text.dropWhile_isBlank Text.blank_space hhead
  simp [wordAfter?, hblank, htake, hdrop]

theorem ofWord_not (s : List Char) : ofWord "not".toList s =
    (wordAfter? "in" s).elim (.not, s) fun s' => (.operator .notIn, s') := by
  cases h : wordAfter? "in" s <;> simp [ofWord, h]

theorem ofWord_is (s : List Char) : ofWord "is".toList s =
    (wordAfter? "not" s).elim (.operator .is, s) fun s' => (.operator .isNot, s') := by
  cases h : wordAfter? "not" s <;> simp [ofWord, h]

theorem asciiName_cons (hc : Text.isNameStart c = true) (hcs : (c :: cs).all Text.isNameChar = true) :
    AsciiName (c :: cs) := ⟨⟨c, rfl, hc⟩, List.all_eq_true.1 hcs⟩

theorem asciiName_reserved {w : String} (hw : w ∈ reserved) : AsciiName w.toList := by
  simp only [reserved, List.mem_cons, List.not_mem_nil, or_false] at hw
  rcases hw with rfl | rfl | rfl | rfl | rfl | rfl | rfl | rfl | rfl | rfl | rfl <;>
    exact asciiName_cons rfl rfl

theorem reads_operator {op : Operator} (hrest : Spaced rest)
    (his : op = .is → wordAfter? "not" rest = none) :
    Reads before op.symbol.toList rest (.operator op) := by
  have hin : AsciiName "in".toList := asciiName_reserved (by decide)
  have hnot : AsciiName "not".toList := asciiName_reserved (by decide)
  cases op with
  | or => exact reads_word hrest (asciiName_reserved (w := "or") (by decide)) rfl
  | and => exact reads_word hrest (asciiName_reserved (w := "and") (by decide)) rfl
  | isIn => exact reads_word hrest hin rfl
  | is =>
    have hword : ofWord "is".toList rest = (.operator .is, rest) := by
      rw [ofWord_is, his rfl]
      rfl
    exact reads_word hrest (asciiName_reserved (by decide)) hword
  | notIn =>
    have hafter : wordAfter? "in" (' ' :: 'i' :: 'n' :: rest) = some rest := wordAfter?_word hin hrest
    have hword : ofWord ['n', 'o', 't'] (' ' :: 'i' :: 'n' :: rest) = (.operator .notIn, rest) := by
      refine (ofWord_not _).trans ?_
      rw [hafter]
      rfl
    refine ⟨'n', ['o', 't', ' ', 'i', 'n'], rfl, rfl, ?_⟩
    exact (@read_word before 'n' _ spaced_cons.delimited ['o', 't'] rfl rfl).trans (congrArg _ hword)
  | isNot =>
    have hafter : wordAfter? "not" (' ' :: 'n' :: 'o' :: 't' :: rest) = some rest :=
      wordAfter?_word hnot hrest
    have hword : ofWord ['i', 's'] (' ' :: 'n' :: 'o' :: 't' :: rest) = (.operator .isNot, rest) := by
      refine (ofWord_is _).trans ?_
      rw [hafter]
      rfl
    refine ⟨'i', ['s', ' ', 'n', 'o', 't'], rfl, rfl, ?_⟩
    exact (@read_word before 'i' _ spaced_cons.delimited ['s'] rfl rfl).trans (congrArg _ hword)
  | eq | ne | le | ge | floorDiv | pow => exact ⟨_, _, rfl, rfl, rfl⟩
  | lt | gt | add | sub | mul | div | mod =>
    -- The character behind decides whether the longer operator is meant.
    cases rest with
    | nil => exact ⟨_, _, rfl, rfl, rfl⟩
    | cons d rest =>
      obtain rfl := hrest d rfl
      exact ⟨_, _, rfl, rfl, rfl⟩

/-- Before a space every lexeme is read as it was written, unless its word and the next one make one
operator. -/
theorem reads_written (hx : x.Writable) (hrest : Spaced rest)
    (hnot : x = .not → wordAfter? "in" rest = none)
    (his : x = .operator .is → wordAfter? "not" rest = none) :
    Reads before x.written.toList rest x := by
  cases x with
  | integer digits => exact reads_integer hrest hx
  | decimal d => exact hx.elim
  | string s => exact reads_string s
  | constant k capital =>
    cases k <;> cases capital <;> exact reads_word hrest (asciiName_cons rfl rfl) rfl
  | name n => exact reads_word hrest hx.1 (ofWord_name hx.2 rest)
  | operator op => exact reads_operator hrest fun h => his (congrArg _ h)
  | not =>
    have hword : ofWord "not".toList rest = (.not, rest) := by
      rw [ofWord_not, hnot rfl]
      rfl
    exact reads_word hrest (asciiName_reserved (by decide)) hword
  | mark m => exact reads_mark m

theorem reads_alone (hx : x.Writable) : Reads before x.written.toList [] x :=
  reads_written hx spaced_nil (fun _ => rfl) fun _ => rfl

theorem head_written (hx : x.Writable) (rest : List Char) :
    ∃ c ∈ (x.written.toList ++ rest).head?, Text.isBlank c = false := by
  obtain ⟨c, cs, hcs, hc, -⟩ : Reads none x.written.toList [] x := reads_alone hx
  exact ⟨c, by rw [hcs]; rfl, hc⟩

/-- The word that the text of a lexeme begins with. -/
def Lexeme.firstWord (x : Lexeme) : List Char := x.written.toList.takeWhile Text.isNameChar

theorem takeWhile_written (y : Lexeme) (hrest : Spaced rest) :
    (y.written.toList ++ rest).takeWhile Text.isNameChar = y.firstWord := by
  have hstop : rest.takeWhile Text.isNameChar = [] := by
    cases rest with
    | nil => rfl
    | cons d rest =>
      obtain rfl := hrest d rfl
      rfl
  rw [List.takeWhile_append, hstop, List.append_nil, firstWord]
  split
  · next hall => exact ((List.takeWhile_prefix _).eq_of_length hall).symm
  · rfl

theorem wordAfter?_written {word : String} (hy : y.Writable) (hrest : Spaced rest)
    (hne : y.firstWord ≠ word.toList) : wordAfter? word (' ' :: (y.written.toList ++ rest)) = none := by
  have hblank : (' ' :: (y.written.toList ++ rest)).dropWhile Text.isBlank = y.written.toList ++ rest :=
    Text.dropWhile_isBlank Text.blank_space (head_written hy rest)
  simp [wordAfter?, hblank, takeWhile_written y hrest, hne]

/-- Only the lexemes that it joins begin with the second word of an operator of two words. -/
theorem joins_of_firstWord (hy : y.Writable) :
    (y.firstWord = "in".toList → Joins .not y) ∧ (y.firstWord = "not".toList → Joins (.operator .is) y) := by
  cases y with
  | integer digits =>
    obtain ⟨hne, hdigits, -⟩ := hy
    have hdigit : ∃ c ∈ (firstWord (.integer digits)).head?, c.isDigit = true := by
      obtain ⟨c, cs, hcs⟩ := List.exists_cons_of_ne_nil (mt String.toList_eq_nil_iff.1 hne)
      have hc : c.isDigit = true := hdigits c (hcs ▸ List.mem_cons_self)
      have htext : (written (.integer digits)).toList = c :: cs := hcs
      refine ⟨c, ?_, hc⟩
      rw [firstWord, htext, List.takeWhile_cons_of_pos (isNameChar_of_isDigit hc)]
      rfl
    obtain ⟨c, hc, hdigit⟩ := hdigit
    constructor <;> intro h <;> rw [h] at hc <;> obtain rfl := Option.some.inj hc <;>
      exact absurd hdigit (by decide)
  | decimal d => exact hy.elim
  | string s =>
    have hnone : firstWord (.string s) = [] := by
      rw [firstWord, written, String.toList_append, String.toList_append]
      rfl
    rw [hnone]
    exact ⟨fun h => absurd h (by decide), fun h => absurd h (by decide)⟩
  | constant k capital =>
    cases k <;> cases capital <;> exact ⟨fun h => absurd h (by decide), fun h => absurd h (by decide)⟩
  | name n =>
    have hall : firstWord (.name n) = n.toList := List.takeWhile_eq_self_iff.2 hy.1.2
    rw [hall]
    constructor <;> intro h <;> obtain rfl := String.toList_inj.1 h <;> exact absurd (by decide) hy.2
  | operator op =>
    cases op with
    | isIn => exact ⟨fun _ => trivial, fun h => absurd h (by decide)⟩
    | notIn => exact ⟨fun h => absurd h (by decide), fun _ => trivial⟩
    | _ => exact ⟨fun h => absurd h (by decide), fun h => absurd h (by decide)⟩
  | not => exact ⟨fun h => absurd h (by decide), fun _ => trivial⟩
  | mark m => cases m <;> exact ⟨fun h => absurd h (by decide), fun h => absurd h (by decide)⟩

/-- Lexemes written on one line, with spaces between them. -/
def Lexeme.line (xs : List Lexeme) : List Char := [' '].intercalate (xs.map fun x => x.written.toList)

theorem line_singleton (x : Lexeme) : line [x] = x.written.toList := List.intercalate_singleton

theorem line_cons_cons (x y : Lexeme) (ys : List Lexeme) :
    line (x :: y :: ys) = x.written.toList ++ ' ' :: line (y :: ys) := by
  simp [line, List.intercalate_cons_cons]

theorem line_cons (y : Lexeme) (ys : List Lexeme) :
    ∃ rest, Spaced rest ∧ line (y :: ys) = y.written.toList ++ rest := by
  cases ys with
  | nil => exact ⟨[], spaced_nil, by rw [line_singleton, List.append_nil]⟩
  | cons z zs => exact ⟨' ' :: line (z :: zs), spaced_cons, line_cons_cons y z zs⟩

/-- A line is cut into the lexemes that were written on it. -/
theorem lexes_line {xs : List Lexeme} (hxs : ∀ x ∈ xs, x.Writable)
    (hnext : xs.IsChain fun x y => ¬ Joins x y) (before : Option Lexeme) : Lexes before (line xs) xs := by
  induction xs generalizing before with
  | nil => exact lexes_nil
  | cons x xs ih =>
    obtain ⟨hx, hxs⟩ := List.forall_mem_cons.1 hxs
    cases xs with
    | nil =>
      rw [line_singleton, ← List.append_nil x.written.toList]
      exact (reads_alone hx).lexes lexes_nil
    | cons y ys =>
      obtain ⟨hjoins, hnext⟩ := List.isChain_cons_cons.1 hnext
      have hy : y.Writable := hxs y (.head _)
      have hread : Reads before x.written.toList (' ' :: line (y :: ys)) x := by
        obtain ⟨rest, hrest, hline⟩ := line_cons y ys
        rw [hline]
        refine reads_written hx spaced_cons ?_ ?_
        · rintro rfl
          exact wordAfter?_written hy hrest fun h => hjoins ((joins_of_firstWord hy).1 h)
        · rintro rfl
          exact wordAfter?_written hy hrest fun h => hjoins ((joins_of_firstWord hy).2 h)
      rw [line_cons_cons]
      exact hread.lexes ((ih hxs hnext (some x)).blank (by decide))

/-- Lexemes written with spaces between them are read back, each as it was. -/
theorem lex_written {xs : List Lexeme} (hxs : ∀ x ∈ xs, x.Writable)
    (hnext : xs.IsChain fun x y => ¬ Joins x y) :
    ∃ ts, lex (" ".intercalate (xs.map written)) = .ok ts ∧ ts.map Token.lexeme = xs := by
  have hline := lexes_line hxs hnext none 0
  rw [lex, String.toList_intercalate, List.map_map]
  exact hline

/-- Words that do not join although they could be taken for it, a string with quotes, and a number behind
a dot. -/
theorem lex_written_neighbours :
    let xs : List Lexeme := [.not, .name "index", .operator .is, .operator .isIn, .operator .isNot,
      .operator .isIn, .string "it's \\n", .mark .dot, .integer "007", .operator .mul, .operator .pow]
    ∃ ts, lex "not index is in is not in 'it\\'s \\\\n' . 007 * **" = .ok ts ∧
      ts.map Token.lexeme = xs := by
  intro xs
  have hxs : ∀ x ∈ xs, x.Writable := by
    have hname : Writable (.name "index") := ⟨asciiName_cons (c := 'i') rfl rfl, by decide⟩
    have hinteger : Writable (.integer "007") := ⟨by decide, List.all_eq_true.1 rfl, by decide⟩
    simp only [xs, List.forall_mem_cons]
    exact ⟨trivial, hname, trivial, trivial, trivial, trivial, trivial, trivial, hinteger, trivial,
      trivial, List.forall_mem_nil _⟩
  have hnext : xs.IsChain fun x y => ¬ Joins x y := by
    simp [xs, Joins]
  have htext : " ".intercalate (xs.map written) =
      "not index is in is not in 'it\\'s \\\\n' . 007 * **" := by decide
  exact htext ▸ lex_written hxs hnext

end Stencil
