import Stencil.Proofs.Expr.Lexing
import Stencil.Proofs.Expr.Positions
import Stencil.Proofs.Text.Trimming

/-! Blanks before and behind the source of an expression make no difference. -/
namespace Stencil

open Text

variable {b : List Char}

/-- What follows a text is not taken into a run of characters of another class. -/
theorem span_before {p : Char → Bool} (hb : ∀ c ∈ b.head?, p c = false) (cs : List Char) :
    (cs ++ b).takeWhile p = cs.takeWhile p ∧ (cs ++ b).dropWhile p = cs.dropWhile p ++ b := by
  have hstop : b.takeWhile p = [] ∧ b.dropWhile p = b := by
    cases b with
    | nil => exact ⟨rfl, rfl⟩
    | cons d b =>
      have hd : ¬ p d = true := by simp [hb d rfl]
      exact ⟨List.takeWhile_cons_of_neg hd, List.dropWhile_cons_of_neg hd⟩
  rw [List.takeWhile_append, List.dropWhile_append, hstop.1, hstop.2]
  constructor
  · split
    · next hall => rw [List.append_nil, (List.takeWhile_prefix p).eq_of_length hall]
    · rfl
  · split
    · next hempty => rw [List.isEmpty_iff.1 hempty, List.nil_append]
    · rfl

/-- What no lexeme in front goes on with: nothing, a closing brace, or blanks with no word right behind them. -/
structure Parted (b : List Char) : Prop where
  head : ∀ c ∈ b.head?, isBlank c = true ∨ c = '}'
  behind : ∀ c ∈ (b.dropWhile isBlank).head?, isNameChar c = false

theorem ne_of_blank {c d : Char} (hc : isBlank c = true) (hd : isBlank d = false) : c ≠ d := by
  rintro rfl
  rw [hc] at hd
  cases hd

theorem Text.Blank.parted (hb : Blank b) : Parted b where
  head c hc := .inl (hb c (List.mem_of_mem_head? hc))
  behind := by
    rw [List.dropWhile_eq_nil_iff.2 hb]
    exact fun c hc => absurd hc (by simp)

theorem Parted.isNameChar_eq_false (hb : Parted b) : ∀ c ∈ b.head?, isNameChar c = false := by
  intro c hc
  rcases hb.head c hc with hblank | rfl
  · cases hn : isNameChar c with
    | false => rfl
    | true => simp [isBlank_eq_false_of_isNameChar hn] at hblank
  · rfl

theorem Parted.isDigit_eq_false (hb : Parted b) : ∀ c ∈ b.head?, c.isDigit = false := by
  intro c hc
  cases hd : c.isDigit with
  | false => rfl
  | true =>
    have hname := isNameChar_of_isDigit hd
    rw [hb.isNameChar_eq_false c hc] at hname
    cases hname

theorem Parted.ne (hb : Parted b) {c d : Char} (hc : c ∈ b.head?) (hd : isBlank d = false) (hbrace : d ≠ '}') :
    c ≠ d := by
  rcases hb.head c hc with hblank | rfl
  · exact ne_of_blank hblank hd
  · exact hbrace.symm

namespace Lexeme

section
variable {quote : Char} (hquote : isBlank quote = false)
include hquote

theorem readString_blank (hb : Blank b) : readString quote b = none := by
  induction b with
  | nil => rw [readString.eq_def]
  | cons c b ih =>
    obtain ⟨hc, hb⟩ := List.forall_mem_cons.1 hb
    rw [readString.eq_def]
    simp only [if_neg (ne_of_blank hc hquote), if_neg (ne_of_blank hc (d := '\\') rfl), ih hb]
    rfl

/-- A string that is not closed is not closed by blanks. -/
theorem readString_padded (hb : Blank b) (cs : List Char) :
    readString quote (cs ++ b) = (readString quote cs).map fun r => (r.1, r.2 ++ b) := by
  fun_induction readString quote cs with
  | case1 => exact readString_blank hquote hb
  | case2 cs =>
    rw [List.cons_append, readString.eq_def]
    exact if_pos rfl
  | case3 hne =>
    rw [List.cons_append, readString.eq_def]
    simp only [if_neg hne]
    cases b with
    | nil => rfl
    | cons d b =>
      have hblank : readString quote b = none := readString_blank hquote (List.forall_mem_cons.1 hb).2
      simp [hblank]
  | case4 d ds hne ih =>
    rw [List.cons_append, List.cons_append, readString.eq_def]
    simp only [if_neg hne, if_true, ih, Option.map_map]
    rfl
  | case5 c cs hc hslash ih =>
    rw [List.cons_append, readString.eq_def]
    simp only [if_neg hc, if_neg hslash, ih, Option.map_map]
    rfl

end

section
variable (hb : Parted b)
include hb

theorem readNumber_padded (afterDot : Bool) (cs : List Char) :
    readNumber afterDot (cs ++ b) = ((readNumber afterDot cs).1, (readNumber afterDot cs).2 ++ b) := by
  obtain ⟨htake, hdrop⟩ := span_before hb.isDigit_eq_false cs
  simp only [readNumber, htake, hdrop]
  cases hrest : cs.dropWhile Char.isDigit with
  | nil =>
    -- What follows does not begin with a point.
    cases b with
    | nil => cases afterDot <;> rfl
    | cons d b =>
      have hd : d ≠ '.' := hb.ne rfl rfl (by decide)
      simp [hd]
  | cons d rest =>
    cases afterDot with
    | true => rfl
    | false =>
      by_cases hd : d = '.'
      · subst hd
        obtain ⟨htake', hdrop'⟩ := span_before hb.isDigit_eq_false rest
        simp [htake', hdrop']
      · simp [hd]

theorem wordAfter?_padded {word : String} (hword : word ≠ "") (cs : List Char) :
    wordAfter? word (cs ++ b) = (wordAfter? word cs).map (· ++ b) := by
  have hne : word.toList ≠ [] := fun h => hword (String.toList_eq_nil_iff.1 h)
  simp only [wordAfter?]
  rw [List.dropWhile_append]
  split
  · next hempty =>
    have hnone : (b.dropWhile isBlank).takeWhile isNameChar = [] := by
      have hspan := (span_before hb.behind []).1
      rwa [List.nil_append] at hspan
    rw [List.isEmpty_iff.1 hempty, hnone]
    simp [hne.symm]
  · obtain ⟨htake, hdrop⟩ := span_before hb.isNameChar_eq_false (cs.dropWhile isBlank)
    simp only [htake, hdrop, List.length_append, Nat.add_lt_add_iff_right]
    split <;> rfl

theorem ofWord_padded (word cs : List Char) :
    ofWord word (cs ++ b) = ((ofWord word cs).1, (ofWord word cs).2 ++ b) := by
  unfold ofWord
  split <;> try rfl
  · rw [wordAfter?_padded hb (by decide)]
    cases wordAfter? "in" cs <;> rfl
  · rw [wordAfter?_padded hb (by decide)]
    cases wordAfter? "not" cs <;> rfl

end

/-- Operators that are the beginning of another one, where that one is not read. -/
theorem readSymbol_short {c d : Char} {op : Operator} (hop : (c, d, op) ∈ [('>', '=', Operator.gt),
    ('<', '=', .lt), ('*', '*', .mul), ('/', '/', .div)]) {cs : List Char} (h : cs.head? ≠ some d) :
    readSymbol (c :: cs) = some (.operator op, cs) := by
  simp only [List.mem_cons, Prod.mk.injEq, List.not_mem_nil, or_false] at hop
  cases cs with
  | nil => rcases hop with ⟨rfl, rfl, rfl⟩ | ⟨rfl, rfl, rfl⟩ | ⟨rfl, rfl, rfl⟩ | ⟨rfl, rfl, rfl⟩ <;> rfl
  | cons e cs =>
    have he : e ≠ d := fun he => h (congrArg some he)
    rcases hop with ⟨rfl, rfl, rfl⟩ | ⟨rfl, rfl, rfl⟩ | ⟨rfl, rfl, rfl⟩ | ⟨rfl, rfl, rfl⟩ <;>
      simp [readSymbol, he]

/-- A symbol is one character, and reading it looks at the next one at most, or two characters. -/
theorem readSymbol_cases {cs rest : List Char} {x : Lexeme} (h : readSymbol cs = some (x, rest)) :
    (∃ c, cs = c :: rest ∧ ∀ rest', rest' = [] ∨ rest'.head? = rest.head? →
      readSymbol (c :: rest') = some (x, rest')) ∨
    ∃ c d, cs = c :: d :: rest ∧ isBlank d = false ∧
      ∀ rest', readSymbol (c :: d :: rest') = some (x, rest') := by
  rw [readSymbol.eq_def] at h
  split at h
  case h_24 => cases h
  all_goals
    obtain ⟨rfl, rfl⟩ := Prod.mk.inj (Option.some.inj h)
    first
    | exact .inr ⟨_, _, rfl, rfl, fun _ => rfl⟩
    | exact .inl ⟨_, rfl, fun _ _ => rfl⟩
    | next hnot =>
      refine .inl ⟨_, rfl, fun rest' hrest => readSymbol_short (by simp; rfl) ?_⟩
      rcases hrest with rfl | hrest
      · simp
      · rw [hrest]
        intro hhead
        obtain ⟨tail, rfl⟩ := List.head?_eq_some_iff.1 hhead
        exact hnot _ rfl

theorem readSymbol_padded (hb : Blank b) {c : Char} {cs rest : List Char} {x : Lexeme}
    (h : readSymbol (c :: (cs ++ b)) = some (x, rest)) :
    ∃ rest', rest = rest' ++ b ∧ readSymbol (c :: cs) = some (x, rest') := by
  rcases readSymbol_cases h with ⟨c', hcs, hread⟩ | ⟨c', d, hcs, hd, hread⟩
  · obtain ⟨rfl, rfl⟩ := List.cons.inj hcs
    refine ⟨cs, rfl, hread cs ?_⟩
    cases cs with
    | nil => exact .inl rfl
    | cons => exact .inr rfl
  · obtain ⟨rfl, htail⟩ := List.cons.inj hcs
    cases cs with
    | nil =>
      obtain rfl : b = d :: rest := htail
      exact absurd rfl (ne_of_blank (hb d (.head rest)) hd)
    | cons e cs =>
      obtain ⟨rfl, rfl⟩ := List.cons.inj htail
      exact ⟨cs, rfl, hread cs⟩

/-- A lexeme ends before the blanks that follow a text. -/
theorem read_padded (hb : Blank b) {before : Option Lexeme} {c : Char} {cs rest : List Char} {x : Lexeme}
    (h : read before c (cs ++ b) = .ok (x, rest)) :
    ∃ rest', rest = rest' ++ b ∧ read before c cs = .ok (x, rest') := by
  obtain ⟨htake, hdrop⟩ := span_before hb.parted.isNameChar_eq_false cs
  have hnumber (afterDot : Bool) : readNumber afterDot (c :: (cs ++ b)) =
      ((readNumber afterDot (c :: cs)).1, (readNumber afterDot (c :: cs)).2 ++ b) :=
    readNumber_padded hb.parted afterDot (c :: cs)
  unfold read at h ⊢
  split at h
  · next hquote =>
    have hc : isBlank c = false := by rcases hquote with rfl | rfl <;> rfl
    rw [readString_padded hc hb] at h
    rw [if_pos hquote]
    cases hs : readString c cs with
    | none =>
      rw [hs] at h
      cases h
    | some r =>
      rw [hs] at h
      obtain ⟨rfl, rfl⟩ := Prod.mk.inj (Except.ok.inj h)
      exact ⟨r.2, rfl, rfl⟩
  · next hquote =>
    rw [if_neg hquote]
    split at h
    · next hdigit =>
      rw [if_pos hdigit]
      simp only [hnumber] at h
      split at h
      · next hrange =>
        obtain ⟨rfl, rfl⟩ := Prod.mk.inj (Except.ok.inj h)
        exact ⟨_, rfl, if_pos hrange⟩
      · cases h
    · next hdigit =>
      rw [if_neg hdigit]
      split at h
      · next hname =>
        rw [if_pos hname]
        rw [htake, hdrop, ofWord_padded hb.parted] at h
        obtain ⟨rfl, rfl⟩ := Prod.mk.inj (Except.ok.inj h)
        exact ⟨_, rfl, rfl⟩
      · next hname =>
        rw [if_neg hname]
        split at h
        · next r hr =>
          obtain rfl := Except.ok.inj h
          obtain ⟨rest', hrest, hread⟩ := readSymbol_padded hb hr
          rw [hread]
          exact ⟨rest', hrest, rfl⟩
        · cases h

end Lexeme

theorem byteLength_append (cs ds : List Char) : byteLength (cs ++ ds) = byteLength cs + byteLength ds := by
  induction cs with
  | nil => exact (Nat.zero_add _).symm
  | cons c cs ih =>
    show c.utf8Size + byteLength (cs ++ ds) = c.utf8Size + byteLength cs + byteLength ds
    rw [ih, Nat.add_assoc]

theorem lexFrom_blanks {position : Nat} {before : Option Lexeme} {a cs : List Char} (ha : Blank a) :
    lexFrom position before (a ++ cs) = lexFrom (position + byteLength a) before cs := by
  induction a generalizing position with
  | nil => rfl
  | cons c a ih =>
    obtain ⟨hc, ha⟩ := List.forall_mem_cons.1 ha
    rw [List.cons_append, lexFrom_blank hc, ih ha, Nat.add_assoc]
    rfl

/-- Blanks behind a text are no part of any lexeme. -/
theorem lexFrom_padded (hb : Blank b) {position : Nat} {before : Option Lexeme} {cs : List Char}
    {ts : List Token} (h : lexFrom position before (cs ++ b) = .ok ts) :
    lexFrom position before cs = .ok ts := by
  cases cs with
  | nil =>
    have hblanks : lexFrom position before (b ++ []) = lexFrom (position + byteLength b) before [] :=
      lexFrom_blanks hb
    rw [List.append_nil, lexFrom_nil] at hblanks
    rw [lexFrom_nil]
    exact hblanks.symm.trans h
  | cons c cs =>
    by_cases hc : isBlank c = true
    · rw [List.cons_append, lexFrom_blank hc] at h
      rw [lexFrom_blank hc]
      exact lexFrom_padded hb h
    · have hc' : isBlank c = false := by simpa using hc
      rw [List.cons_append] at h
      obtain ⟨x, rest, ts', hread, hts', rfl⟩ := exists_of_lexFrom hc' h
      obtain ⟨rest', rfl, hread'⟩ := Lexeme.read_padded hb hread
      have hlength := Lexeme.length_read hread'
      have hbytes : byteLength (c :: (cs ++ b)) - byteLength (rest' ++ b) =
          byteLength (c :: cs) - byteLength rest' := by
        rw [← List.cons_append, byteLength_append, byteLength_append, Nat.add_sub_add_right]
      rw [hbytes] at hts'
      rw [lexFrom_read hc' hread', lexFrom_padded hb hts']
      rfl
termination_by cs.length
decreasing_by
  all_goals
    subst_vars
    simp only [List.length_cons]
    omega

/-- The tokens of a text that stands further back. -/
theorem lexFrom_moved {n position : Nat} {before : Option Lexeme} {cs : List Char} {ts : List Token}
    (h : lexFrom (n + position) before cs = .ok ts) :
    lexFrom position before cs = .ok (Parser.moved (· - n) ts) := by
  cases cs with
  | nil =>
    rw [lexFrom_nil] at h ⊢
    obtain rfl := Except.ok.inj h
    rfl
  | cons c cs =>
    by_cases hc : isBlank c = true
    · rw [lexFrom_blank hc, Nat.add_assoc] at h
      rw [lexFrom_blank hc]
      exact lexFrom_moved h
    · have hc' : isBlank c = false := by simpa using hc
      obtain ⟨x, rest, ts', hread, hts', rfl⟩ := exists_of_lexFrom hc' h
      have hlength := Lexeme.length_read hread
      rw [Nat.add_assoc] at hts'
      rw [lexFrom_read hc' hread, lexFrom_moved hts', Parser.moved_cons, Token.moved,
        Nat.add_sub_cancel_left]
      rfl
termination_by cs.length
decreasing_by
  all_goals
    subst_vars
    simp only [List.length_cons]
    omega

/-- Blanks in front of a source may be left out. -/
theorem Pipeline.parse_behind_blanks {a cs : List Char} {p : Pipeline} (ha : Blank a)
    (h : parse (String.ofList (a ++ cs)) = .ok p) : parse (String.ofList cs) = .ok p := by
  obtain ⟨ts, hlex, hts⟩ := Result.bind_eq_ok h
  rw [lex, String.toList_ofList, lexFrom_blanks ha, Nat.add_comm] at hlex
  rw [parse, lex, String.toList_ofList, lexFrom_moved hlex]
  exact ofTokens_moved _ hts

/-- The source of an expression may be trimmed. -/
theorem Pipeline.parse_trim {e : String} {p : Pipeline} (hp : parse e = .ok p)
    (he : ∃ c ∈ e.toList, isBlank c = false) : parse (String.ofList (trim e.toList)) = .ok p := by
  obtain ⟨a, b, hsource, ha, hb, -⟩ := exists_padding he
  have hbehind : parse (String.ofList (trim e.toList ++ b)) = .ok p := by
    apply parse_behind_blanks ha
    rwa [← hsource, String.ofList_toList]
  obtain ⟨ts, hlex, hts⟩ := Result.bind_eq_ok hbehind
  rw [lex, String.toList_ofList] at hlex
  rw [parse, lex, String.toList_ofList, lexFrom_padded hb hlex]
  exact hts

end Stencil
