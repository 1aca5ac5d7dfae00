import Stencil.Proofs.Expr.Padding
import Stencil.Proofs.Expr.Writing

/-! The lexemes of a source cover all of it but blanks, and a source that cannot be cut can be cut up to the
lexeme at fault. -/
namespace Stencil

open Text

namespace Lexeme

/-- The characters that a backslash may escape, and what the two stand for. -/
def escapes : List (Char × Char) :=
  [('n', '\n'), ('t', '\t'), ('r', '\r'), ('\\', '\\'), ('\'', '\''), ('"', '"')]

/-- How the content of a string is written between its quotes: a backslash and a character of the table stand
for one character, and before any other character the backslash is kept. -/
inductive Body (quote : Char) : List Char → List Char → Prop
  | nil : Body quote [] []
  | plain {c : Char} {body content : List Char} (hquote : c ≠ quote) (hslash : c ≠ '\\')
      (h : Body quote body content) : Body quote (c :: body) (c :: content)
  | escaped {c d : Char} {body content : List Char} (hc : (c, d) ∈ escapes)
      (h : Body quote body content) : Body quote ('\\' :: c :: body) (d :: content)
  | kept {c : Char} {body content : List Char} (hc : ∀ d, (c, d) ∉ escapes)
      (h : Body quote body content) : Body quote ('\\' :: c :: body) ('\\' :: c :: content)

/-- The texts of a source that are this lexeme. -/
def Spelled : Lexeme → List Char → Prop
  | integer digits, cs => cs = digits.toList ∧ cs ≠ [] ∧ ∀ d ∈ cs, d.isDigit = true
  | decimal x, cs => ∃ whole fraction, cs = whole ++ '.' :: fraction ∧ whole ≠ [] ∧
      (∀ d ∈ whole ++ fraction, d.isDigit = true) ∧
      x = Decimal.nearestFloat (Decimal.digitsValue (whole ++ fraction)) (-fraction.length)
  | string content, cs => ∃ quote body, (quote = '\'' ∨ quote = '"') ∧
      cs = quote :: (body ++ [quote]) ∧ Body quote body content.toList
  | name n, cs => cs = n.toList ∧ AsciiName cs ∧ n ∉ reserved
  | operator .notIn, cs => ∃ w, w ≠ [] ∧ Blank w ∧ cs = "not".toList ++ (w ++ "in".toList)
  | operator .isNot, cs => ∃ w, w ≠ [] ∧ Blank w ∧ cs = "is".toList ++ (w ++ "not".toList)
  | x, cs => cs = x.text.toList

end Lexeme

/-- A text is made of the spellings of tokens, in order, with nothing but blanks between them. Each token
knows the byte at which its spelling begins. -/
def Tiles : Nat → List Char → List Token → Prop
  | _, cs, [] => Blank cs
  | position, cs, t :: ts => ∃ w l rest, cs = w ++ (l ++ rest) ∧ Blank w ∧
      t.position = position + byteLength w ∧ t.lexeme.Spelled l ∧ Tiles (t.position + byteLength l) rest ts

/-- No character of the class `p` goes on with a word or a number at the end of `cs`. -/
def Ended (p : Char → Bool) (cs rest : List Char) : Prop :=
  ∀ c ∈ cs.getLast?, isNameChar c = true → ∀ d ∈ rest.head?, p d = false

variable {before : Option Lexeme} {c : Char} {cs ds rest tail : List Char} {x : Lexeme}

theorem Ended.append {p : Char → Bool} (cs : List Char) (h : Ended p ds rest) (hds : ds ≠ []) :
    Ended p (cs ++ ds) rest := by
  rwa [Ended, List.getLast?_append_of_ne_nil cs hds]

theorem Ended.of_append {p : Char → Bool} (h : Ended p (cs ++ ds) rest) : Ended p ds rest := by
  cases ds with
  | nil => exact nofun
  | cons d ds => rwa [Ended, List.getLast?_append_of_ne_nil cs (List.cons_ne_nil d ds)] at h

theorem AsciiName.ne_nil (h : AsciiName cs) : cs ≠ [] := by
  rintro rfl
  obtain ⟨⟨c, hc, -⟩, -⟩ := h
  cases hc

theorem head_dropWhile {p : Char → Bool} (cs : List Char) : ∀ c ∈ (cs.dropWhile p).head?, p c = false := by
  intro c hc
  have hnot := List.head?_dropWhile_not p cs
  rw [hc] at hnot
  exact hnot

theorem isNameChar_of_isNameStart (hc : isNameStart c = true) : isNameChar c = true := by
  rcases Bool.or_eq_true_iff.1 hc with halpha | hunderscore
  · simp [isNameChar, Char.isAlphanum, halpha]
  · simp [isNameChar, hunderscore]

/-- The word that a text with the beginning of a name begins with. -/
theorem asciiName_takeWhile (hc : isNameStart c = true) (cs : List Char) :
    AsciiName (c :: cs.takeWhile isNameChar) :=
  ⟨⟨c, rfl, hc⟩, List.forall_mem_cons.2
    ⟨isNameChar_of_isNameStart hc, fun _ hd => List.mem_takeWhile_imp hd⟩⟩

theorem isDigit_eq_false (hc : isNameChar c = false) : c.isDigit = false := by
  cases hd : c.isDigit with
  | false => rfl
  | true => rw [isNameChar_of_isDigit hd] at hc; cases hc

namespace Lexeme

theorem unescape_cases (c : Char) :
    (∃ d, (c, d) ∈ escapes ∧ unescape c = [d]) ∨ (∀ d, (c, d) ∉ escapes) ∧ unescape c = ['\\', c] := by
  unfold unescape
  split
  case h_7 hn ht hr hslash hsingle hdouble =>
    refine .inr ⟨fun d hd => ?_, rfl⟩
    simp only [escapes, List.mem_cons, Prod.mk.injEq, List.not_mem_nil, or_false] at hd
    rcases hd with h | h | h | h | h | h
    · exact hn h.1
    · exact ht h.1
    · exact hr h.1
    · exact hslash h.1
    · exact hsingle h.1
    · exact hdouble h.1
  all_goals exact .inl ⟨_, by simp [escapes], rfl⟩

/-- A string is read up to the first quote that no backslash escapes. -/
theorem readString_body {quote : Char} {content : List Char}
    (h : readString quote cs = some (content, rest)) :
    ∃ body, cs = body ++ quote :: rest ∧ Body quote body content := by
  fun_induction readString quote cs generalizing content with
  | case1 => cases h
  | case2 cs =>
    obtain ⟨rfl, rfl⟩ := Prod.mk.inj (Option.some.inj h)
    exact ⟨[], rfl, .nil⟩
  | case3 => cases h
  | case4 d ds _ ih =>
    obtain ⟨⟨content', rest'⟩, hr, heq⟩ := Option.map_eq_some_iff.1 h
    obtain ⟨rfl, rfl⟩ := Prod.mk.inj heq
    obtain ⟨body, rfl, hbody⟩ := ih hr
    refine ⟨'\\' :: d :: body, rfl, ?_⟩
    rcases unescape_cases d with ⟨e, he, hunescape⟩ | ⟨hkept, hunescape⟩
    · rw [hunescape]
      exact .escaped he hbody
    · rw [hunescape]
      exact .kept hkept hbody
  | case5 c cs hquote hslash ih =>
    obtain ⟨⟨content', rest'⟩, hr, heq⟩ := Option.map_eq_some_iff.1 h
    obtain ⟨rfl, rfl⟩ := Prod.mk.inj heq
    obtain ⟨body, rfl, hbody⟩ := ih hr
    exact ⟨c :: body, rfl, .plain hquote hslash hbody⟩

/-- A number has a fraction where a point comes behind its digits, unless a dot is before it. -/
theorem readNumber_point (h : cs.dropWhile Char.isDigit = '.' :: rest) :
    readNumber false cs =
      (.decimal (Decimal.nearestFloat
        (Decimal.digitsValue (cs.takeWhile Char.isDigit ++ rest.takeWhile Char.isDigit))
        (-(rest.takeWhile Char.isDigit).length)), rest.dropWhile Char.isDigit) := by
  simp only [readNumber, h]

theorem readNumber_whole {afterDot : Bool}
    (h : ¬ (afterDot = false ∧ (cs.dropWhile Char.isDigit).head? = some '.')) :
    readNumber afterDot cs =
      (.integer (String.ofList (cs.takeWhile Char.isDigit)), cs.dropWhile Char.isDigit) := by
  simp only [readNumber]
  split
  · next rest heq => exact absurd ⟨rfl, by rw [heq]; rfl⟩ h
  · rfl

theorem readNumber_spelled (hc : c.isDigit = true) {afterDot : Bool}
    (h : readNumber afterDot (c :: cs) = (x, rest)) :
    ∃ l, c :: cs = l ++ rest ∧ x.Spelled l ∧ Ended Char.isDigit l rest := by
  have hspan : (c :: cs).takeWhile Char.isDigit ++ (c :: cs).dropWhile Char.isDigit = c :: cs :=
    List.takeWhile_append_dropWhile
  have hdigits : ∀ d ∈ (c :: cs).takeWhile Char.isDigit, d.isDigit = true :=
    fun d hd => List.mem_takeWhile_imp hd
  have hne : (c :: cs).takeWhile Char.isDigit ≠ [] := by simp [hc]
  by_cases hpoint : afterDot = false ∧ ((c :: cs).dropWhile Char.isDigit).head? = some '.'
  · obtain ⟨rfl, hhead⟩ := hpoint
    obtain ⟨fraction, hfraction⟩ := List.head?_eq_some_iff.1 hhead
    rw [readNumber_point hfraction] at h
    obtain ⟨rfl, rfl⟩ := Prod.mk.inj h
    refine ⟨(c :: cs).takeWhile Char.isDigit ++ '.' :: fraction.takeWhile Char.isDigit, ?_,
      ⟨_, _, rfl, hne, ?_, rfl⟩, fun _ _ _ => head_dropWhile fraction⟩
    · rw [List.append_assoc, List.cons_append, List.takeWhile_append_dropWhile, ← hfraction, hspan]
    · exact List.forall_mem_append.2 ⟨hdigits, fun d hd => List.mem_takeWhile_imp hd⟩
  · rw [readNumber_whole hpoint] at h
    obtain ⟨rfl, rfl⟩ := Prod.mk.inj h
    exact ⟨_, hspan.symm, ⟨String.toList_ofList.symm, hne, hdigits⟩, fun _ _ _ => head_dropWhile (c :: cs)⟩

/-- What comes behind blanks is the word that is looked for, and not only its beginning. -/
theorem wordAfter?_eq_some_iff {word : String} (hword : AsciiName word.toList) :
    wordAfter? word cs = some rest ↔ ∃ w, w ≠ [] ∧ Blank w ∧ cs = w ++ (word.toList ++ rest) ∧
      ∀ c ∈ rest.head?, isNameChar c = false := by
  constructor
  · intro h
    simp only [wordAfter?] at h
    split at h
    · next hcond =>
      obtain ⟨hlength, htake⟩ := hcond
      obtain rfl := Option.some.inj h
      refine ⟨cs.takeWhile isBlank, ?_, blank_takeWhile cs, ?_, head_dropWhile _⟩
      · intro hnil
        have hspan := congrArg List.length (List.takeWhile_append_dropWhile (p := isBlank) (l := cs))
        rw [hnil, List.nil_append] at hspan
        omega
      · rw [← htake, List.takeWhile_append_dropWhile, List.takeWhile_append_dropWhile]
    · cases h
  · rintro ⟨w, hw, hblank, rfl, hrest⟩
    have hhead : ∃ c ∈ (word.toList ++ rest).head?, isBlank c = false := by
      obtain ⟨⟨c, hc, -⟩, hname⟩ := hword
      obtain ⟨cs, hcs⟩ := List.head?_eq_some_iff.1 hc
      rw [hcs] at hname ⊢
      exact ⟨c, rfl, isBlank_eq_false_of_isNameChar (hname c (.head _))⟩
    obtain ⟨htake, hdrop⟩ := span_stopped hword.2 hrest
    simp [wordAfter?, dropWhile_isBlank hblank hhead, htake, hdrop, hw]

/-- A word says the same wherever it stands, unless it makes one operator together with a word behind it. -/
theorem ofWord_cases {word : List Char} (hword : AsciiName word) :
    ∃ x, Spelled x word ∧ ((∀ cs, ofWord word cs = (x, cs)) ∨
      ∃ second y, AsciiName second.toList ∧
        (∀ w, w ≠ [] → Blank w → Spelled y (word ++ (w ++ second.toList))) ∧
        ∀ cs, ofWord word cs = (wordAfter? second cs).elim (x, cs) fun rest => (y, rest)) := by
  by_cases hnot : word = "not".toList
  · subst hnot
    exact ⟨.not, rfl, .inr ⟨"in", .operator .notIn, asciiName_reserved (by decide),
      fun w hw hblank => ⟨w, hw, hblank, rfl⟩, ofWord_not⟩⟩
  by_cases his : word = "is".toList
  · subst his
    exact ⟨.operator .is, rfl, .inr ⟨"not", .operator .isNot, asciiName_reserved (by decide),
      fun w hw hblank => ⟨w, hw, hblank, rfl⟩, ofWord_is⟩⟩
  have hlist : (String.ofList word).toList = word := String.toList_ofList
  refine ⟨(ofWord word []).1, ?_, .inl fun cs => ?_⟩
  · unfold ofWord
    split
    case h_9 hw => exact absurd (hlist ▸ congrArg String.toList hw) hnot
    case h_10 hw => exact absurd (hlist ▸ congrArg String.toList hw) his
    case h_12 =>
      refine ⟨hlist.symm, hword, ?_⟩
      simp only [reserved, List.mem_cons, List.not_mem_nil, or_false, not_or]
      refine ⟨?_, ?_, ?_, ?_, ?_, ?_, ?_, ?_, ?_, ?_, ?_⟩ <;> assumption
    all_goals
      next hw =>
      rw [← hlist, hw]
      rfl
  · unfold ofWord
    split
    case h_9 hw => exact absurd (hlist ▸ congrArg String.toList hw) hnot
    case h_10 hw => exact absurd (hlist ▸ congrArg String.toList hw) his
    all_goals rfl

theorem ofWord_spelled {word : List Char} (hword : AsciiName word)
    (hhead : ∀ c ∈ cs.head?, isNameChar c = false) (h : ofWord word cs = (x, rest)) :
    ∃ l, cs = l ++ rest ∧ x.Spelled (word ++ l) ∧ ∀ c ∈ rest.head?, isNameChar c = false := by
  obtain ⟨y, hy, hone | ⟨second, z, hsecond, hz, htwo⟩⟩ := ofWord_cases hword
  · rw [hone] at h
    obtain ⟨rfl, rfl⟩ := Prod.mk.inj h
    exact ⟨[], rfl, by rwa [List.append_nil], hhead⟩
  · rw [htwo] at h
    cases hafter : wordAfter? second cs with
    | none =>
      rw [hafter] at h
      obtain ⟨rfl, rfl⟩ := Prod.mk.inj h
      exact ⟨[], rfl, by rwa [List.append_nil], hhead⟩
    | some rest' =>
      rw [hafter] at h
      obtain ⟨rfl, rfl⟩ := Prod.mk.inj h
      obtain ⟨w, hne, hblank, rfl, hrest⟩ := (wordAfter?_eq_some_iff hsecond).1 hafter
      exact ⟨w ++ second.toList, (List.append_assoc _ _ _).symm, hz w hne hblank, hrest⟩

theorem readSymbol_spelled (h : readSymbol cs = some (x, rest)) :
    ∃ l, cs = l ++ rest ∧ x.Spelled l ∧ Ended Char.isDigit l rest := by
  rw [readSymbol.eq_def] at h
  split at h
  case h_24 => cases h
  all_goals
    obtain ⟨rfl, rfl⟩ := Prod.mk.inj (Option.some.inj h)
    first
    | refine ⟨[_, _], rfl, rfl, fun c hc hname => ?_⟩
      obtain rfl := Option.some.inj hc
      exact absurd hname (by decide)
    | refine ⟨[_], rfl, rfl, fun c hc hname => ?_⟩
      obtain rfl := Option.some.inj hc
      exact absurd hname (by decide)

/-- The characters that reading a lexeme uses up spell it. -/
theorem read_spelled (h : read before c cs = .ok (x, rest)) :
    ∃ l, c :: cs = l ++ rest ∧ x.Spelled l ∧ Ended Char.isDigit l rest := by
  unfold read at h
  split at h
  · next hquote =>
    split at h
    · next content rest' hs =>
      obtain ⟨rfl, rfl⟩ := Prod.mk.inj (Except.ok.inj h)
      obtain ⟨body, rfl, hbody⟩ := readString_body hs
      refine ⟨c :: (body ++ [c]), by simp, ⟨c, body, hquote, rfl, ?_⟩, ?_⟩
      · rwa [String.toList_ofList]
      · intro d hd hname
        rw [← List.cons_append, List.getLast?_concat] at hd
        obtain rfl := Option.some.inj hd
        rcases hquote with rfl | rfl <;> exact absurd hname (by decide)
    · cases h
  · split at h
    · next hdigit =>
      simp only at h
      split at h
      · exact readNumber_spelled hdigit (Except.ok.inj h)
      · cases h
    · split at h
      · next hstart =>
        have hword : AsciiName (c :: cs.takeWhile isNameChar) := asciiName_takeWhile hstart cs
        obtain ⟨l, hl, hx, hrest⟩ := ofWord_spelled hword (head_dropWhile cs) (Except.ok.inj h)
        refine ⟨c :: cs.takeWhile isNameChar ++ l, ?_, hx, fun _ _ _ d hd => isDigit_eq_false (hrest d hd)⟩
        rw [List.append_assoc, ← hl, List.cons_append, List.takeWhile_append_dropWhile]
      · split at h
        · next r hr =>
          obtain rfl := Except.ok.inj h
          exact readSymbol_spelled hr
        · cases h

/-- A name is not at fault wherever it begins. -/
theorem isNameStart_of_error {fault : LexFault} (h : read before c cs = .error fault) :
    isNameStart c = false := by
  cases hstart : isNameStart c with
  | false => rfl
  | true =>
    have hquote : ¬ (c = '\'' ∨ c = '"') := by
      rintro (rfl | rfl) <;> exact absurd hstart (by decide)
    rw [read, if_neg hquote, if_neg (not_isDigit_of_isNameStart hstart), if_pos hstart] at h
    cases h

/-- A run of characters that stops before `tail` is a run of the text without it. -/
theorem span_cut {p : Char → Bool} (h : (cs ++ tail).dropWhile p = rest ++ tail) :
    (cs ++ tail).takeWhile p = cs.takeWhile p ∧ cs.dropWhile p = rest := by
  induction cs with
  | nil =>
    have hspan : tail.takeWhile p ++ rest ++ tail = tail := by
      rw [List.append_assoc, ← h]
      exact List.takeWhile_append_dropWhile
    obtain ⟨htake, hrest⟩ := List.append_eq_nil_iff.1 (List.append_left_eq_self.1 hspan)
    exact ⟨htake, hrest.symm⟩
  | cons c cs ih =>
    rw [List.cons_append] at h ⊢
    by_cases hc : p c = true
    · rw [List.dropWhile_cons_of_pos hc] at h
      obtain ⟨htake, hdrop⟩ := ih h
      rw [List.takeWhile_cons_of_pos hc, List.takeWhile_cons_of_pos hc, List.dropWhile_cons_of_pos hc, htake]
      exact ⟨rfl, hdrop⟩
    · rw [List.dropWhile_cons_of_neg hc, ← List.cons_append] at h
      rw [List.takeWhile_cons_of_neg hc, List.takeWhile_cons_of_neg hc, List.dropWhile_cons_of_neg hc]
      exact ⟨rfl, List.append_cancel_right h⟩

theorem readString_cut {quote : Char} {content : List Char}
    (h : readString quote (cs ++ tail) = some (content, rest ++ tail)) :
    readString quote cs = some (content, rest) := by
  fun_induction readString quote cs generalizing content with
  | case1 =>
    have hlength := length_readString h
    simp only [List.nil_append, List.length_append] at hlength
    omega
  | case2 cs =>
    rw [List.cons_append, readString.eq_def] at h
    simp only [if_true] at h
    obtain ⟨rfl, hrest⟩ := Prod.mk.inj (Option.some.inj h)
    rw [List.append_cancel_right hrest]
  | case3 hne =>
    have hlength := length_readString h
    rw [List.cons_append, readString.eq_def] at h
    simp only [if_neg hne, if_true] at h
    cases tail with
    | nil => cases h
    | cons d ds =>
      obtain ⟨r, hr, hrest⟩ := Option.map_eq_some_iff.1 h
      obtain ⟨-, hrest⟩ := Prod.mk.inj hrest
      have hlength := length_readString hr
      rw [hrest] at hlength
      simp only [List.length_append, List.length_cons] at hlength
      omega
  | case4 d ds hne ih =>
    rw [List.cons_append, List.cons_append, readString.eq_def] at h
    simp only [if_neg hne, if_true] at h
    obtain ⟨⟨content', rest'⟩, hr, heq⟩ := Option.map_eq_some_iff.1 h
    obtain ⟨rfl, rfl⟩ := Prod.mk.inj heq
    rw [ih hr]
    rfl
  | case5 c cs hquote hslash ih =>
    rw [List.cons_append, readString.eq_def] at h
    simp only [if_neg hquote, if_neg hslash] at h
    obtain ⟨⟨content', rest'⟩, hr, heq⟩ := Option.map_eq_some_iff.1 h
    obtain ⟨rfl, rfl⟩ := Prod.mk.inj heq
    rw [ih hr]
    rfl

theorem readNumber_cut {afterDot : Bool} (h : readNumber afterDot (cs ++ tail) = (x, rest ++ tail)) :
    readNumber afterDot cs = (x, rest) := by
  by_cases hpoint : afterDot = false ∧ ((cs ++ tail).dropWhile Char.isDigit).head? = some '.'
  · obtain ⟨rfl, hhead⟩ := hpoint
    obtain ⟨behind, hbehind⟩ := List.head?_eq_some_iff.1 hhead
    rw [readNumber_point hbehind] at h
    obtain ⟨rfl, hrest⟩ := Prod.mk.inj h
    -- The digits behind the point end before `tail`, so the point and they lie in `cs`.
    obtain ⟨fraction, rfl⟩ : ∃ fraction, behind = fraction ++ tail :=
      ⟨behind.takeWhile Char.isDigit ++ rest, by
        rw [List.append_assoc, ← hrest, List.takeWhile_append_dropWhile]⟩
    have hpoint : (cs ++ tail).dropWhile Char.isDigit = '.' :: fraction ++ tail := hbehind
    obtain ⟨htake, hdrop⟩ := span_cut hpoint
    obtain ⟨htake', hdrop'⟩ := span_cut hrest
    rw [readNumber_point hdrop, htake, htake', hdrop']
  · rw [readNumber_whole hpoint] at h
    obtain ⟨rfl, hrest⟩ := Prod.mk.inj h
    obtain ⟨htake, hdrop⟩ := span_cut hrest
    have hpoint' : ¬ (afterDot = false ∧ (cs.dropWhile Char.isDigit).head? = some '.') := by
      rintro ⟨hdot, hhead⟩
      rw [hdrop] at hhead
      exact hpoint ⟨hdot, by rw [hrest, List.head?_append, hhead]; rfl⟩
    rw [readNumber_whole hpoint', htake, hdrop]

theorem wordAfter?_cut {word : String} (hword : AsciiName word.toList) (hend : Ended isNameChar cs tail) :
    (∀ rest, wordAfter? word (cs ++ tail) = some (rest ++ tail) → wordAfter? word cs = some rest) ∧
      (wordAfter? word (cs ++ tail) = none → wordAfter? word cs = none) := by
  constructor
  · intro rest h
    obtain ⟨w, hne, hblank, hcs, hrest⟩ := (wordAfter?_eq_some_iff hword).1 h
    rw [← List.append_assoc, ← List.append_assoc] at hcs
    refine (wordAfter?_eq_some_iff hword).2 ⟨w, hne, hblank, ?_, fun c hc => hrest c ?_⟩
    · rw [List.append_cancel_right hcs, List.append_assoc]
    · rw [List.head?_append, hc]
      rfl
  · intro h
    by_contra hsome
    obtain ⟨rest, hrest⟩ := Option.ne_none_iff_exists'.1 hsome
    obtain ⟨w, hne, hblank, rfl, hhead⟩ := (wordAfter?_eq_some_iff hword).1 hrest
    have hbehind : ∀ c ∈ (rest ++ tail).head?, isNameChar c = false := by
      cases rest with
      | cons d rest => exact hhead
      | nil =>
        rw [List.append_nil] at hend
        have hlast := List.getLast_mem hword.ne_nil
        exact hend.of_append _ (List.getLast?_eq_some_getLast hword.ne_nil) (hword.2 _ hlast)
    have hfound := (wordAfter?_eq_some_iff hword).2 ⟨w, hne, hblank, rfl, hbehind⟩
    rw [List.append_assoc, List.append_assoc, hfound] at h
    cases h

theorem ofWord_cut {word : List Char} (hword : AsciiName word) (hend : Ended isNameChar cs tail)
    (h : ofWord word (cs ++ tail) = (x, rest ++ tail)) : ofWord word cs = (x, rest) := by
  obtain ⟨y, -, hone | ⟨second, z, hsecond, -, htwo⟩⟩ := ofWord_cases hword
  · rw [hone] at h ⊢
    obtain ⟨rfl, hrest⟩ := Prod.mk.inj h
    rw [List.append_cancel_right hrest]
  · obtain ⟨hfound, hnotFound⟩ := wordAfter?_cut hsecond hend
    rw [htwo] at h ⊢
    cases hafter : wordAfter? second (cs ++ tail) with
    | none =>
      rw [hafter] at h
      obtain ⟨rfl, hrest⟩ := Prod.mk.inj h
      rw [hnotFound hafter, List.append_cancel_right hrest]
      rfl
    | some rest' =>
      rw [hafter] at h
      obtain ⟨rfl, rfl⟩ := Prod.mk.inj h
      rw [hfound rest hafter]
      rfl

theorem readSymbol_cut (h : readSymbol (c :: (cs ++ tail)) = some (x, rest ++ tail)) :
    readSymbol (c :: cs) = some (x, rest) := by
  rcases readSymbol_cases h with ⟨c', hcs, hread⟩ | ⟨c', d, hcs, -, hread⟩
  · obtain ⟨rfl, htail⟩ := List.cons.inj hcs
    obtain rfl := List.append_cancel_right htail
    refine hread cs ?_
    cases cs with
    | nil => exact .inl rfl
    | cons => exact .inr rfl
  · obtain ⟨rfl, htail⟩ := List.cons.inj hcs
    rw [← List.cons_append] at htail
    rw [List.append_cancel_right htail]
    exact hread rest

/-- A lexeme that ends before `tail` is read without `tail`, too, unless `tail` goes on with the last word. -/
theorem read_cut (hend : Ended isNameChar (c :: cs) tail)
    (h : read before c (cs ++ tail) = .ok (x, rest ++ tail)) : read before c cs = .ok (x, rest) := by
  unfold read at h ⊢
  split at h
  · next hquote =>
    rw [if_pos hquote]
    split at h
    · next content rest' hs =>
      obtain ⟨rfl, rfl⟩ := Prod.mk.inj (Except.ok.inj h)
      rw [readString_cut hs]
    · cases h
  · next hquote =>
    rw [if_neg hquote]
    split at h
    · next hdigit =>
      rw [if_pos hdigit]
      dsimp only at h ⊢
      split at h
      · next hrange =>
        have hnumber : readNumber (before == some (.mark .dot)) (c :: cs) = (x, rest) :=
          readNumber_cut (Except.ok.inj h)
        rw [congrArg Prod.fst (Except.ok.inj h)] at hrange
        rw [hnumber, if_pos hrange]
      · cases h
    · next hdigit =>
      rw [if_neg hdigit]
      split at h
      · next hstart =>
        rw [if_pos hstart]
        have hword := asciiName_takeWhile hstart (cs ++ tail)
        obtain ⟨l, hl, -, -⟩ := ofWord_spelled hword (head_dropWhile _) (Except.ok.inj h)
        rw [← List.append_assoc] at hl
        obtain ⟨htake, hdrop⟩ := span_cut hl
        have hbehind : Ended isNameChar (l ++ rest) tail := by
          have hall : Ended isNameChar (c :: cs.takeWhile isNameChar ++ cs.dropWhile isNameChar) tail := by
            rwa [List.cons_append, List.takeWhile_append_dropWhile]
          exact hdrop ▸ hall.of_append
        rw [htake] at hword
        rw [hl, htake] at h
        rw [hdrop, ofWord_cut hword hbehind (Except.ok.inj h)]
      · next hstart =>
        rw [if_neg hstart]
        split at h
        · next r hr =>
          obtain rfl := Except.ok.inj h
          rw [readSymbol_cut hr]
        · cases h

theorem Spelled.ne_nil (h : x.Spelled cs) : cs ≠ [] := by
  rintro rfl
  cases x with
  | integer digits => exact h.2.1 rfl
  | decimal y =>
    obtain ⟨whole, fraction, hcs, -⟩ := h
    exact List.append_ne_nil_of_right_ne_nil whole (List.cons_ne_nil '.' fraction) hcs.symm
  | string content =>
    obtain ⟨quote, body, -, hcs, -⟩ := h
    cases hcs
  | name n => exact h.2.1.ne_nil rfl
  | operator op =>
    cases op with
    | notIn | isNot =>
      obtain ⟨w, -, -, hcs⟩ := h
      cases hcs
    | _ => cases h
  | constant k capital => cases k <;> cases capital <;> cases h
  | mark m => cases m <;> cases h
  | not => cases h

end Lexeme

theorem byteLength_pos (hcs : cs ≠ []) : 0 < byteLength cs := by
  obtain ⟨c, cs, rfl⟩ := List.exists_cons_of_ne_nil hcs
  exact Nat.lt_of_lt_of_le c.utf8Size_pos (Nat.le_add_right _ _)

variable {position : Nat} {ts : List Token}

/-- The tokens of a tiled text stand one behind the other. -/
theorem Tiles.increasing (h : Tiles position cs ts) :
    (∀ t ∈ ts, position ≤ t.position) ∧ ts.Pairwise (·.position < ·.position) := by
  induction ts generalizing position cs with
  | nil => exact ⟨fun _ ht => absurd ht List.not_mem_nil, .nil⟩
  | cons t ts ih =>
    obtain ⟨w, l, rest, -, -, hposition, hl, hrest⟩ := h
    obtain ⟨hafter, hpairwise⟩ := ih hrest
    have hlength : 0 < byteLength l := byteLength_pos hl.ne_nil
    refine ⟨List.forall_mem_cons.2 ⟨by omega, fun s hs => ?_⟩, .cons (fun s hs => ?_) hpairwise⟩
    · have hle := hafter s hs
      omega
    · have hle := hafter s hs
      omega

theorem Tiles.blank (hc : isBlank c = true) (h : Tiles (position + c.utf8Size) cs ts) :
    Tiles position (c :: cs) ts := by
  cases ts with
  | nil => exact List.forall_mem_cons.2 ⟨hc, h⟩
  | cons t ts =>
    obtain ⟨w, l, rest, rfl, hw, hposition, hl, hrest⟩ := h
    refine ⟨c :: w, l, rest, rfl, List.forall_mem_cons.2 ⟨hc, hw⟩, ?_, hl, hrest⟩
    rw [hposition, Nat.add_assoc]
    rfl

theorem lexFrom_tiles {position : Nat} {before : Option Lexeme} {cs : List Char} {ts : List Token}
    (h : lexFrom position before cs = .ok ts) : Tiles position cs ts := by
  cases cs with
  | nil =>
    rw [lexFrom_nil] at h
    obtain rfl := Except.ok.inj h
    exact blank_nil
  | cons c cs =>
    by_cases hc : isBlank c = true
    · rw [lexFrom_blank hc] at h
      exact (lexFrom_tiles h).blank hc
    · have hc' : isBlank c = false := by simpa using hc
      obtain ⟨x, rest, ts', hread, hts', rfl⟩ := exists_of_lexFrom hc' h
      have hlength := Lexeme.length_read hread
      obtain ⟨l, hl, hx, -⟩ := Lexeme.read_spelled hread
      have hbytes : byteLength (c :: cs) - byteLength rest = byteLength l := by
        rw [hl, byteLength_append, Nat.add_sub_cancel]
      rw [hbytes] at hts'
      exact ⟨[], l, rest, hl, blank_nil, rfl, hx, lexFrom_tiles hts'⟩
termination_by cs.length
decreasing_by
  all_goals
    subst_vars
    simp only [List.length_cons]
    omega

theorem Ended.cons_blank {p : Char → Bool} (hc : isBlank c = true) (h : Ended p cs rest) :
    Ended p (c :: cs) rest := by
  cases cs with
  | nil =>
    intro d hd hname
    obtain rfl : c = d := Option.some.inj hd
    rw [isBlank_eq_false_of_isNameChar hname] at hc
    cases hc
  | cons d ds => exact h.append [c] (List.cons_ne_nil d ds)

theorem Ended.of_isDigit (h : Ended Char.isDigit cs (c :: rest)) (hc : isNameStart c = false) :
    Ended isNameChar cs (c :: rest) := by
  intro d hd hname e he
  obtain rfl := Option.some.inj he
  have hdigit := h d hd hname c rfl
  obtain ⟨halpha, hunderscore⟩ := Bool.or_eq_false_iff.1 hc
  simp [isNameChar, Char.isAlphanum, halpha, hdigit, hunderscore]

/-- The lexeme that comes before what follows the tokens `ts`. -/
def lastLexeme (before : Option Lexeme) (ts : List Token) : Option Lexeme :=
  ts.foldl (fun _ t => some t.lexeme) before

/-- A text that is not cut is cut up to the lexeme at fault. -/
theorem exists_fault_of_lexFrom {position : Nat} {before : Option Lexeme} {cs : List Char} {e : Error}
    (h : lexFrom position before cs = .error e) :
    ∃ fault front c rest ts, e = .lexical fault (position + byteLength front) ∧ cs = front ++ c :: rest ∧
      lexFrom position before front = .ok ts ∧ Ended isNameChar front (c :: rest) ∧ isBlank c = false ∧
      Lexeme.read (lastLexeme before ts) c rest = .error fault := by
  cases cs with
  | nil =>
    rw [lexFrom_nil] at h
    cases h
  | cons c cs =>
    by_cases hc : isBlank c = true
    · rw [lexFrom_blank hc] at h
      obtain ⟨fault, front, d, rest, ts, rfl, rfl, hts, hend, hfault⟩ := exists_fault_of_lexFrom h
      refine ⟨fault, c :: front, d, rest, ts, ?_, rfl, ?_, hend.cons_blank hc, hfault⟩
      · rw [Nat.add_assoc]
        rfl
      · rw [lexFrom_blank hc, hts]
    · have hc' : isBlank c = false := by simpa using hc
      cases hread : Lexeme.read before c cs with
      | error fault =>
        rw [lexFrom_fault hc' hread] at h
        obtain rfl := Except.error.inj h
        exact ⟨fault, [], c, cs, [], rfl, rfl, lexFrom_nil, nofun, hc', hread⟩
      | ok r =>
        obtain ⟨x, behind⟩ := r
        have hlength := Lexeme.length_read hread
        rw [lexFrom_read hc' hread] at h
        obtain ⟨fault, front, d, rest, ts, rfl, rfl, hts, hend, hd, hfault⟩ :=
          exists_fault_of_lexFrom (Result.map_eq_error h)
        obtain ⟨l, hl, hx, hstop⟩ := Lexeme.read_spelled hread
        obtain ⟨c', l, rfl⟩ := List.exists_cons_of_ne_nil hx.ne_nil
        rw [List.cons_append] at hl
        obtain ⟨rfl, rfl⟩ := List.cons.inj hl
        have hbytes (ds : List Char) : byteLength (c :: (l ++ ds)) - byteLength ds = byteLength (c :: l) := by
          rw [← List.cons_append, byteLength_append, Nat.add_sub_cancel]
        have hend' : Ended isNameChar (c :: (l ++ front)) (d :: rest) := by
          cases front with
          | nil =>
            rw [List.append_nil]
            exact hstop.of_isDigit (Lexeme.isNameStart_of_error hfault)
          | cons e front => exact hend.append (c :: l) (List.cons_ne_nil e front)
        -- Without what follows, the lexeme that was read is the same.
        have hread' : Lexeme.read before c (l ++ front) = .ok (x, front) := by
          rw [← List.append_assoc] at hread
          exact Lexeme.read_cut hend' hread
        rw [hbytes] at hts
        refine ⟨fault, c :: (l ++ front), d, rest, ⟨x, position⟩ :: ts, ?_, ?_, ?_, hend', hd, hfault⟩
        · rw [hbytes, ← List.cons_append, byteLength_append, Nat.add_assoc]
        · rw [List.cons_append, List.append_assoc]
        · rw [lexFrom_read hc' hread', hbytes, hts]
          rfl
termination_by cs.length
decreasing_by
  all_goals
    subst_vars
    simp only [List.length_cons]
    omega

/-- The spellings of the tokens of a source cover it but for blanks, at the bytes that the tokens record, one
behind the other. A source that is not cut has a lexeme at fault at the byte that the failure names, and all
in front of that byte is cut. -/
theorem lex_tiles (source : String) :
    match lex source with
    | .ok ts => Tiles 0 source.toList ts ∧ ts.Pairwise (·.position < ·.position)
    | .error e => ∃ fault front c rest ts, e = .lexical fault (byteLength front) ∧
        source.toList = front ++ c :: rest ∧ lex (String.ofList front) = .ok ts ∧ isBlank c = false ∧
        Lexeme.read (lastLexeme none ts) c rest = .error fault := by
  cases h : lex source with
  | ok ts =>
    have htiles := lexFrom_tiles h
    exact ⟨htiles, htiles.increasing.2⟩
  | error e =>
    obtain ⟨fault, front, c, rest, ts, rfl, hsource, hts, -, hread⟩ := exists_fault_of_lexFrom h
    refine ⟨fault, front, c, rest, ts, by rw [Nat.zero_add], hsource, ?_, hread⟩
    rw [lex, String.toList_ofList]
    exact hts

end Stencil
