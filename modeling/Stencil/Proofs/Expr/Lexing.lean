import Mathlib.Data.List.Forall2
import Stencil.Expr.Lexer

/-! Texts and the lexemes they are cut into, one lexeme after the other. -/
namespace Stencil

/-- A text that follows the lexeme `before` is cut into the lexemes `xs`. -/
def Lexes (before : Option Lexeme) (cs : List Char) (xs : List Lexeme) : Prop :=
  ∀ position, ∃ ts, lexFrom position before cs = .ok ts ∧ ts.map Token.lexeme = xs

variable {position : Nat} {before : Option Lexeme} {c : Char} {cs rest : List Char} {x : Lexeme}
  {xs ys : List Lexeme} {ts : List Token}

theorem lexFrom_nil : lexFrom position before [] = .ok [] := by
  rw [lexFrom.eq_def]

theorem lexFrom_blank (hc : Text.isBlank c = true) :
    lexFrom position before (c :: cs) = lexFrom (position + c.utf8Size) before cs := by
  rw [lexFrom.eq_def]
  exact if_pos hc

theorem lexFrom_read (hc : Text.isBlank c = false) (hr : Lexeme.read before c cs = .ok (x, rest)) :
    lexFrom position before (c :: cs) =
      (lexFrom (position + (byteLength (c :: cs) - byteLength rest)) (some x) rest).map
        fun ts => ⟨x, position⟩ :: ts := by
  rw [lexFrom.eq_def]
  dsimp only
  rw [if_neg (by simp [hc])]
  split
  · next heq =>
    rw [hr] at heq
    cases heq
  · next heq =>
    rw [hr] at heq
    obtain ⟨rfl, rfl⟩ := Prod.mk.inj (Except.ok.inj heq)
    cases lexFrom (position + (byteLength (c :: cs) - byteLength rest)) (some x) rest <;> rfl

theorem lexFrom_fault {fault : LexFault} (hc : Text.isBlank c = false)
    (hr : Lexeme.read before c cs = .error fault) :
    lexFrom position before (c :: cs) = .error (.lexical fault position) := by
  rw [lexFrom.eq_def]
  dsimp only
  rw [if_neg (by simp [hc])]
  split
  · next heq =>
    rw [hr] at heq
    obtain rfl := Except.error.inj heq
    rfl
  · next heq =>
    rw [hr] at heq
    cases heq

/-- A text that begins with a character that is not blank begins with a lexeme. -/
theorem exists_of_lexFrom (hc : Text.isBlank c = false) (h : lexFrom position before (c :: cs) = .ok ts) :
    ∃ x rest ts', Lexeme.read before c cs = .ok (x, rest) ∧
      lexFrom (position + (byteLength (c :: cs) - byteLength rest)) (some x) rest = .ok ts' ∧
      ts = ⟨x, position⟩ :: ts' := by
  cases hr : Lexeme.read before c cs with
  | error fault =>
    rw [lexFrom_fault hc hr] at h
    cases h
  | ok r =>
    obtain ⟨x, rest⟩ := r
    rw [lexFrom_read hc hr] at h
    obtain ⟨ts', hts', hts⟩ := Result.map_eq_ok h
    exact ⟨x, rest, ts', rfl, hts', hts.symm⟩

theorem lexes_nil : Lexes before [] [] := fun _ => ⟨[], lexFrom_nil, rfl⟩

theorem Lexes.blank (h : Lexes before cs xs) (hc : Text.isBlank c = true) :
    Lexes before (c :: cs) xs := by
  intro position
  obtain ⟨ts, hts, hxs⟩ := h (position + c.utf8Size)
  exact ⟨ts, (lexFrom_blank hc).trans hts, hxs⟩

theorem Lexes.read (h : Lexes (some x) rest xs) (hc : Text.isBlank c = false)
    (hr : Lexeme.read before c cs = .ok (x, rest)) : Lexes before (c :: cs) (x :: xs) := by
  intro position
  obtain ⟨ts, hts, hxs⟩ := h (position + (byteLength (c :: cs) - byteLength rest))
  refine ⟨⟨x, position⟩ :: ts, ?_, congrArg (x :: ·) hxs⟩
  rw [lexFrom_read hc hr, hts]
  rfl

/-- A text that no number and no word before it goes on with. -/
def Delimited (cs : List Char) : Prop := ∀ c ∈ cs.head?, Text.isNameChar c = false ∧ c ≠ '.'

/-- A lexeme after which digits are a number by themselves. -/
def NotDot (before : Option Lexeme) : Prop := before ≠ some (.mark .dot)

/-- A text that is cut into `xs` wherever it stands alone. -/
def LexesAs (cs : List Char) (xs : List Lexeme) : Prop :=
  ∀ before rest ys, NotDot before → Delimited rest →
    (∀ before', NotDot before' → Lexes before' rest ys) → Lexes before (cs ++ rest) (xs ++ ys)

theorem LexesAs.lexes (h : LexesAs cs xs) : Lexes none cs xs := by
  have hall := h none [] [] nofun nofun fun _ _ => lexes_nil
  rwa [List.append_nil, List.append_nil] at hall

theorem LexesAs.append {ds : List Char} (h : LexesAs cs xs) (hd : LexesAs ds ys)
    (hdelimited : ∀ rest, Delimited (ds ++ rest)) : LexesAs (cs ++ ds) (xs ++ ys) := by
  intro before rest zs hbefore hrest hlexes
  rw [List.append_assoc, List.append_assoc]
  exact h before _ _ hbefore (hdelimited rest) fun before' hbefore' =>
    hd before' rest zs hbefore' hrest hlexes

theorem LexesAs.blank (h : LexesAs cs xs) : LexesAs (' ' :: cs) xs := by
  intro before rest ys hbefore hrest hlexes
  exact (h before rest ys hbefore hrest hlexes).blank (by decide)

/-- The only character of a mark. -/
def Mark.char : Mark → Char
  | openParen => '('
  | closeParen => ')'
  | openBracket => '['
  | closeBracket => ']'
  | openBrace => '{'
  | closeBrace => '}'
  | comma => ','
  | dot => '.'
  | colon => ':'
  | pipe => '|'

theorem read_mark (m : Mark) (before : Option Lexeme) (cs : List Char) :
    Lexeme.read before m.char cs = .ok (.mark m, cs) := by
  cases m <;> rfl

theorem LexesAs.mark {m : Mark} (hm : m ≠ .dot) (h : LexesAs cs xs) :
    LexesAs (m.char :: cs) (.mark m :: xs) := by
  intro before rest ys hbefore hrest hlexes
  have hnot : NotDot (some (.mark m)) := by simpa [NotDot] using hm
  exact (h _ rest ys hnot hrest hlexes).read (by cases m <;> decide) (read_mark m before _)

theorem lexesAs_nil : LexesAs [] [] := fun before _ _ hbefore _ hlexes => hlexes before hbefore

/-- An ASCII name: a letter or an underscore, and then letters, digits and underscores. -/
def AsciiName (x : List Char) : Prop :=
  (∃ c ∈ x.head?, Text.isNameStart c = true) ∧ ∀ c ∈ x, Text.isNameChar c = true

theorem isNameChar_of_isDigit (h : c.isDigit = true) : Text.isNameChar c = true := by
  simp [Text.isNameChar, Char.isAlphanum, h]

theorem not_isDigit_of_isNameStart (h : Text.isNameStart c = true) : ¬ c.isDigit = true := by
  intro hd
  have hle : c.toNat ≤ 57 := (Char.isDigit_iff_toNat.1 hd).2
  rcases Bool.or_eq_true_iff.1 h with halpha | hunderscore
  · have hge : 65 ≤ c.toNat := by
      rcases Bool.or_eq_true_iff.1 halpha with hupper | hlower
      · exact (of_decide_eq_true hupper).1
      · have hlow : 97 ≤ c.toNat := of_decide_eq_true (Bool.and_eq_true_iff.1 hlower).1
        omega
    omega
  · obtain rfl := eq_of_beq hunderscore
    exact absurd hd (by decide)

theorem isBlank_eq_false_of_isDigit (h : c.isDigit = true) : Text.isBlank c = false := by
  have hc := Char.isDigit_iff_toNat.1 h
  simp only [Char.reduceToNat] at hc
  simp only [Text.isBlank, Bool.or_eq_false_iff, Bool.and_eq_false_imp, decide_eq_true_eq,
    decide_eq_false_iff_not, beq_eq_false_iff_ne]
  omega

theorem ranges_of_isNameChar (hc : Text.isNameChar c = true) :
    (48 ≤ c.toNat ∧ c.toNat ≤ 57) ∨ (65 ≤ c.toNat ∧ c.toNat ≤ 90) ∨ (95 ≤ c.toNat ∧ c.toNat ≤ 95) ∨
      (97 ≤ c.toNat ∧ c.toNat ≤ 122) := by
  rcases Bool.or_eq_true_iff.1 hc with halnum | hunderscore
  · rcases Bool.or_eq_true_iff.1 halnum with halpha | hdigit
    · rcases Bool.or_eq_true_iff.1 halpha with hupper | hlower
      · exact .inr (.inl (of_decide_eq_true hupper))
      · obtain ⟨hlow, hhigh⟩ := Bool.and_eq_true_iff.1 hlower
        exact .inr (.inr (.inr ⟨of_decide_eq_true hlow, of_decide_eq_true hhigh⟩))
    · exact .inl (Char.isDigit_iff_toNat.1 hdigit)
  · obtain rfl := eq_of_beq hunderscore
    exact .inr (.inr (.inl (by decide)))

theorem isBlank_eq_false_of_isNameChar (hc : Text.isNameChar c = true) :
    Text.isBlank c = false := by
  have hrange := ranges_of_isNameChar hc
  simp only [Text.isBlank, Bool.or_eq_false_iff, Bool.and_eq_false_imp, decide_eq_true_eq, beq_eq_false_iff_ne,
    decide_eq_false_iff_not, ne_eq]
  omega

/-- A run of characters ends where the next character is none of them. -/
theorem span_stopped {p : Char → Bool} (hcs : ∀ c ∈ cs, p c = true) (hrest : ∀ c ∈ rest.head?, p c = false) :
    (cs ++ rest).takeWhile p = cs ∧ (cs ++ rest).dropWhile p = rest := by
  rw [List.takeWhile_append_of_pos hcs, List.dropWhile_append_of_pos hcs]
  cases rest with
  | nil => exact ⟨List.append_nil cs, rfl⟩
  | cons d rest =>
    have hd : ¬ p d = true := by simp [hrest d rfl]
    rw [List.takeWhile_cons_of_neg hd, List.dropWhile_cons_of_neg hd, List.append_nil]
    exact ⟨rfl, rfl⟩

theorem read_number (hc : c.isDigit = true)
    (hnumber : Lexeme.readNumber (before == some (.mark .dot)) (c :: cs) = (x, rest))
    (hrange : x.inRange (before == some (.operator .sub)) = true) :
    Lexeme.read before c cs = .ok (x, rest) := by
  have hquote : ¬ (c = '\'' ∨ c = '"') := by
    rintro (rfl | rfl) <;> exact absurd hc (by decide)
  rw [Lexeme.read, if_neg hquote, if_pos hc, hnumber]
  exact if_pos hrange

/-- A word is read up to the first character that cannot be part of it. -/
theorem read_word_stopped {word : List Char} (hc : Text.isNameStart c = true)
    (hword : word.all Text.isNameChar = true) (hrest : ∀ d ∈ rest.head?, Text.isNameChar d = false) :
    Lexeme.read before c (word ++ rest) = .ok (Lexeme.ofWord (c :: word) rest) := by
  obtain ⟨htake, hdrop⟩ := span_stopped (List.all_eq_true.1 hword) hrest
  have hquote : ¬ (c = '\'' ∨ c = '"') := by
    rintro (rfl | rfl) <;> exact absurd hc (by decide)
  have hdigit : ¬ c.isDigit = true := not_isDigit_of_isNameStart hc
  rw [Lexeme.read, if_neg hquote, if_neg hdigit, if_pos hc, htake, hdrop]

section
variable (hrest : Delimited rest)
include hrest

/-- Characters of a word are cut off where nothing goes on with it. -/
theorem span_delimited {p : Char → Bool} (hp : ∀ c, p c = true → Text.isNameChar c = true)
    (hcs : ∀ c ∈ cs, p c = true) :
    (cs ++ rest).takeWhile p = cs ∧ (cs ++ rest).dropWhile p = rest := by
  refine span_stopped hcs fun d hd => ?_
  cases hpd : p d with
  | false => rfl
  | true => exact absurd (hp d hpd) (by simp [(hrest d hd).1])

theorem read_digits {digits : List Char} (hdigits : ∀ d ∈ c :: digits, d.isDigit = true)
    (hrange : Lexeme.inRange (before == some (.operator .sub))
      (.integer (String.ofList (c :: digits))) = true) :
    Lexeme.read before c (digits ++ rest) = .ok (.integer (String.ofList (c :: digits)), rest) := by
  have hc : c.isDigit = true := hdigits c (.head _)
  obtain ⟨htake, hdrop⟩ := span_delimited hrest (p := Char.isDigit) (fun _ => isNameChar_of_isDigit)
    fun d hd => hdigits d (.tail _ hd)
  have hnumber : Lexeme.readNumber (before == some (.mark .dot)) (c :: (digits ++ rest)) =
      (.integer (String.ofList (c :: digits)), rest) := by
    simp only [Lexeme.readNumber, List.takeWhile_cons, List.dropWhile_cons, hc, if_true, htake, hdrop]
    split
    · exact absurd rfl (hrest _ rfl).2
    · rfl
  exact read_number hc hnumber hrange

theorem read_word {word : List Char} (hc : Text.isNameStart c = true)
    (hword : word.all Text.isNameChar = true) :
    Lexeme.read before c (word ++ rest) = .ok (Lexeme.ofWord (c :: word) rest) :=
  read_word_stopped hc hword fun d hd => (hrest d hd).1

end

theorem lexesAs_constant (k : Constant) : LexesAs (k.text true).toList [.constant k true] := by
  intro before rest ys hbefore hrest hlexes
  have hys := hlexes (some (.constant k true)) (by simp [NotDot])
  cases k with
  | true =>
    have hread : Lexeme.read before 'T' (['r', 'u', 'e'] ++ rest) = .ok (.constant .true true, rest) :=
      read_word hrest rfl rfl
    exact hys.read (by decide) hread
  | false =>
    have hread : Lexeme.read before 'F' (['a', 'l', 's', 'e'] ++ rest) =
        .ok (.constant .false true, rest) :=
      read_word hrest rfl rfl
    exact hys.read (by decide) hread
  | none =>
    have hread : Lexeme.read before 'N' (['o', 'n', 'e'] ++ rest) = .ok (.constant .none true, rest) :=
      read_word hrest rfl rfl
    exact hys.read (by decide) hread

theorem readString_plain {quote : Char} {s : List Char} (hs : ∀ c ∈ s, c ≠ quote ∧ c ≠ '\\')
    (rest : List Char) : Lexeme.readString quote (s ++ quote :: rest) = some (s, rest) := by
  induction s with
  | nil =>
    rw [List.nil_append, Lexeme.readString.eq_def]
    exact if_pos rfl
  | cons c s ih =>
    obtain ⟨hc, hs⟩ := List.forall_mem_cons.1 hs
    rw [List.cons_append, Lexeme.readString.eq_def]
    simp only [if_neg hc.1, if_neg hc.2, ih hs]
    rfl

theorem lexesAs_string {s : List Char} (hs : ∀ c ∈ s, c ≠ '\'' ∧ c ≠ '\\') :
    LexesAs ('\'' :: (s ++ ['\''])) [.string (String.ofList s)] := by
  intro before rest ys hbefore hrest hlexes
  have hread : Lexeme.read before '\'' (s ++ ['\''] ++ rest) = .ok (.string (String.ofList s), rest) := by
    rw [List.append_assoc, List.cons_append, List.nil_append, Lexeme.read, if_pos (.inl rfl),
      readString_plain hs]
  exact (hlexes _ (by simp [NotDot])).read (by decide) hread

theorem delimited_mark {m : Mark} (hm : m ≠ .dot) (rest : List Char) :
    Delimited (m.char :: cs ++ rest) := by
  intro c hc
  obtain rfl := Option.some.inj hc
  cases m <;> first | exact absurd rfl hm | exact ⟨by decide, by decide⟩

/-- The magnitude of the least int is a number only after a minus sign. -/
theorem lexes_number {n : Nat} (hn : n < Decimal.leastMagnitude ∨
      before = some (.operator .sub) ∧ n = Decimal.leastMagnitude) (hrest : Delimited rest)
    (h : Lexes (some (.integer (toString n))) rest ys) :
    Lexes before ((toString n).toList ++ rest) (.integer (toString n) :: ys) := by
  have hlist : (toString n).toList = Nat.toDigits 10 n := Nat.toList_repr
  have hdigits : ∀ d ∈ (toString n).toList, d.isDigit = true := fun d hd =>
    Nat.isDigit_of_mem_toDigits (by decide) (by decide) (hlist ▸ hd)
  have hrange : Lexeme.inRange (before == some (.operator .sub)) (.integer (toString n)) = true := by
    simp only [Lexeme.inRange, Decimal.digitsValue_toString]
    rcases hn with hn | ⟨rfl, rfl⟩
    · rw [decide_eq_true hn, Bool.true_or]
    · rfl
  have hofList : String.ofList (toString n).toList = toString n := String.ofList_toList
  obtain ⟨c, digits, hcons⟩ := List.exists_cons_of_ne_nil (hlist ▸ Nat.toDigits_ne_nil)
  rw [hcons] at hdigits hofList ⊢
  have hread := read_digits hrest hdigits (by rwa [hofList])
  rw [hofList] at hread
  exact h.read (isBlank_eq_false_of_isDigit (hdigits c (.head _))) hread

theorem lexesAs_digits {n : Nat} (hn : n < Decimal.leastMagnitude) :
    LexesAs (toString n).toList [.integer (toString n)] := fun before rest ys _ hrest hlexes =>
  lexes_number (.inl hn) hrest (hlexes _ (by simp [NotDot]))

theorem lexesAs_negative {n : Nat} (hn : n ≤ Decimal.leastMagnitude) :
    LexesAs ('-' :: (toString n).toList) [.operator .sub, .integer (toString n)] := by
  intro before rest ys hbefore hrest hlexes
  have hnumber : Lexes (some (.operator .sub)) ((toString n).toList ++ rest)
      (.integer (toString n) :: ys) :=
    lexes_number ((Nat.lt_or_eq_of_le hn).imp_right fun h => ⟨rfl, h⟩) hrest
      (hlexes _ (by simp [NotDot]))
  exact hnumber.read (by decide) rfl

theorem lexesAs_intercalate {css : List (List Char)} {xss : List (List Lexeme)}
    (h : List.Forall₂ LexesAs css xss) {ds : List Char} (hds : LexesAs ds ys)
    (hdelimited : ∀ rest, Delimited (ds ++ rest)) :
    LexesAs ([',', ' '].intercalate css ++ ds) ([.mark .comma].intercalate xss ++ ys) := by
  induction h with
  | nil => exact hds
  | @cons cs xs css xss hcs hrest ih =>
    cases hrest with
    | nil =>
      rw [List.intercalate_singleton, List.intercalate_singleton]
      exact hcs.append hds hdelimited
    | @cons cs' xs' css xss hcs' hrest =>
      rw [List.intercalate_cons_cons, List.intercalate_cons_cons, List.append_assoc, List.append_assoc,
        List.append_assoc, List.append_assoc]
      exact hcs.append (ih.blank.mark (m := .comma) nofun) (delimited_mark (m := .comma) nofun)

/-- Texts with commas between them, enclosed in two marks. -/
theorem lexesAs_enclosed {m k : Mark} (hm : m ≠ .dot) (hk : k ≠ .dot) {css : List (List Char)}
    {xss : List (List Lexeme)} (h : List.Forall₂ LexesAs css xss) :
    LexesAs (m.char :: ([',', ' '].intercalate css ++ [k.char]))
      (.mark m :: ([.mark .comma].intercalate xss ++ [.mark k])) :=
  (lexesAs_intercalate h (lexesAs_nil.mark hk) (delimited_mark hk)).mark hm

end Stencil
