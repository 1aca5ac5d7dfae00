import Mathlib.Data.List.TakeWhile
import Stencil.Proofs.Expr.Neighbours
import Stencil.Proofs.Expr.Lexing
import Stencil.Proofs.Template.Interior

/-! The source of an expression as the interior of a tag: the lexer and the search for the closing marker
read the same strings. -/
namespace Stencil

/-- A string that can be read ends at the first quote that no backslash takes along. -/
theorem quoted_of_readString {quote : Char} {cs content rest : List Char}
    (h : Lexeme.readString quote cs = some (content, rest)) :
    ∃ s, cs = s ++ rest ∧ Node.Quoted quote s := by
  fun_induction Lexeme.readString quote cs generalizing content rest with
  | case1 => cases h
  | case2 cs =>
    obtain ⟨-, rfl⟩ := Prod.mk.inj (Option.some.inj h)
    exact ⟨[quote], rfl, .close⟩
  | case3 => cases h
  | case4 d ds hslash ih =>
    obtain ⟨r, hr, hrest⟩ := Option.map_eq_some_iff.1 h
    obtain ⟨-, rfl⟩ := Prod.mk.inj hrest
    obtain ⟨s, rfl, hs⟩ := ih hr
    exact ⟨'\\' :: d :: s, rfl, .escape hs⟩
  | case5 c cs hc hslash ih =>
    obtain ⟨r, hr, hrest⟩ := Option.map_eq_some_iff.1 h
    obtain ⟨-, rfl⟩ := Prod.mk.inj hrest
    obtain ⟨s, rfl, hs⟩ := ih hr
    exact ⟨c :: s, rfl, .plain hc hslash hs⟩

/-- Characters that no string and no marker begins with. -/
def Inert (c : Char) : Prop := ¬ Node.IsQuote c ∧ c ≠ '{' ∧ c ≠ '}' ∧ c ≠ '%'

/-- A class of characters without quotes, braces and percent signs. -/
theorem inert_of_class {p : Char → Bool} (hp : ['\'', '"', '{', '}', '%'].any p = false) {c : Char}
    (hc : p c = true) : Inert c := by
  have hne (d : Char) (hd : d ∈ ['\'', '"', '{', '}', '%']) : c ≠ d := by
    rintro rfl
    exact List.any_eq_false.1 hp c hd hc
  refine ⟨?_, hne '{' (by simp), hne '}' (by simp), hne '%' (by simp)⟩
  rintro (rfl | rfl)
  · exact hne '\'' (by simp) rfl
  · exact hne '"' (by simp) rfl

theorem inert_of_isBlank {c : Char} (hc : Text.isBlank c = true) : Inert c :=
  inert_of_class rfl hc

theorem inert_of_isNameChar {c : Char} (hc : Text.isNameChar c = true) : Inert c :=
  inert_of_class rfl hc

theorem inert_of_isDigit {c : Char} (hc : c.isDigit = true) : Inert c :=
  inert_of_isNameChar (isNameChar_of_isDigit hc)

theorem forall_mem_takeWhile {p : Char → Bool} {q : Char → Prop} (h : ∀ c, p c = true → q c)
    (cs : List Char) : ∀ c ∈ cs.takeWhile p, q c := fun c hc => h c (List.mem_takeWhile_imp hc)

namespace Lexeme

/-- The characters before `rest` are inert. -/
def InertUpTo (cs rest : List Char) : Prop := ∃ s, cs = s ++ rest ∧ ∀ c ∈ s, Inert c

theorem InertUpTo.trans {cs rest out : List Char} (h : InertUpTo cs rest) (h' : InertUpTo rest out) :
    InertUpTo cs out := by
  obtain ⟨s, rfl, hs⟩ := h
  obtain ⟨t, rfl, ht⟩ := h'
  refine ⟨s ++ t, by simp, fun c hc => ?_⟩
  rcases List.mem_append.1 hc with hc | hc
  · exact hs c hc
  · exact ht c hc

theorem inertUpTo_dropWhile {p : Char → Bool} (h : ∀ c, p c = true → Inert c) (cs : List Char) :
    InertUpTo cs (cs.dropWhile p) :=
  ⟨cs.takeWhile p, List.takeWhile_append_dropWhile.symm, forall_mem_takeWhile h cs⟩

theorem inertUpTo_readNumber (afterDot : Bool) (cs : List Char) :
    InertUpTo cs (readNumber afterDot cs).2 := by
  have hwhole := inertUpTo_dropWhile (fun _ => inert_of_isDigit) cs
  simp only [readNumber]
  split
  · next rest hrest =>
    have hpoint : InertUpTo ('.' :: rest) rest := ⟨['.'], rfl, by simp [Inert, Node.IsQuote]⟩
    rw [hrest] at hwhole
    exact hwhole.trans (hpoint.trans (inertUpTo_dropWhile (fun _ => inert_of_isDigit) rest))
  · exact hwhole

theorem inertUpTo_wordAfter? {word : String} {cs rest : List Char} (h : wordAfter? word cs = some rest) :
    InertUpTo cs rest := by
  simp only [wordAfter?] at h
  split at h
  · obtain rfl := Option.some.inj h
    exact (inertUpTo_dropWhile (fun _ => inert_of_isBlank) cs).trans
      (inertUpTo_dropWhile (fun _ => inert_of_isNameChar) _)
  · cases h

theorem inertUpTo_refl (cs : List Char) : InertUpTo cs cs := ⟨[], rfl, by simp⟩

/-- Not a brace. -/
def NoBrace (x : Lexeme) : Prop := x ≠ .mark .openBrace ∧ x ≠ .mark .closeBrace

theorem ofWord_inert (word rest : List Char) :
    InertUpTo rest (ofWord word rest).2 ∧ NoBrace (ofWord word rest).1 := by
  unfold ofWord
  split <;> try exact ⟨inertUpTo_refl rest, by simp [NoBrace]⟩
  · split
    · next h => exact ⟨inertUpTo_wordAfter? h, by simp [NoBrace]⟩
    · exact ⟨inertUpTo_refl rest, by simp [NoBrace]⟩
  · split
    · next h => exact ⟨inertUpTo_wordAfter? h, by simp [NoBrace]⟩
    · exact ⟨inertUpTo_refl rest, by simp [NoBrace]⟩

theorem readNumber_noBrace (afterDot : Bool) (cs : List Char) : NoBrace (readNumber afterDot cs).1 := by
  simp only [readNumber]
  split <;> simp [NoBrace]

/-- How a lexeme lies in a text, as far as strings and markers go. -/
inductive Piece : List Char → Lexeme → List Char → Prop
  | string {quote : Char} {s : List Char} (content : String) (rest : List Char) : Node.IsQuote quote →
      Node.Quoted quote s → Piece (quote :: (s ++ rest)) (.string content) rest
  | openBrace (rest : List Char) : Piece ('{' :: rest) (.mark .openBrace) rest
  | closeBrace (rest : List Char) : Piece ('}' :: rest) (.mark .closeBrace) rest
  | percent (rest : List Char) : Piece ('%' :: rest) (.operator .mod) rest
  | inert {cs rest : List Char} {x : Lexeme} : InertUpTo cs rest → NoBrace x → Piece cs x rest

theorem piece_of_readSymbol {cs rest : List Char} {x : Lexeme} (h : readSymbol cs = some (x, rest)) :
    Piece cs x rest := by
  unfold readSymbol at h
  split at h <;> simp only [Option.some.injEq, Prod.mk.injEq, reduceCtorEq] at h <;>
    obtain ⟨rfl, rfl⟩ := h
  all_goals
    first
    | exact .openBrace _
    | exact .closeBrace _
    | exact .percent _
    | exact .inert ⟨[_, _], rfl, by simp [Inert, Node.IsQuote]⟩ (by simp [NoBrace])
    | exact .inert ⟨[_], rfl, by simp [Inert, Node.IsQuote]⟩ (by simp [NoBrace])

theorem piece_of_read {before : Option Lexeme} {c : Char} {cs rest : List Char} {x : Lexeme}
    (h : read before c cs = .ok (x, rest)) : Piece (c :: cs) x rest := by
  unfold read at h
  split at h
  · next hc =>
    split at h
    · next content rest' hs =>
      obtain ⟨rfl, rfl⟩ := Prod.mk.inj (Except.ok.inj h)
      obtain ⟨s, rfl, hquoted⟩ := quoted_of_readString hs
      exact .string _ _ hc hquoted
    · cases h
  · split at h
    · simp only at h
      split at h
      · obtain ⟨rfl, rfl⟩ := Prod.mk.inj (Except.ok.inj h)
        exact .inert (inertUpTo_readNumber _ _) (readNumber_noBrace _ _)
      · cases h
    · split at h
      · next hc =>
        have hfirst : InertUpTo (c :: cs) cs :=
          ⟨[c], rfl, by simpa using inert_of_class (p := Text.isNameStart) rfl hc⟩
        have hword := hfirst.trans (inertUpTo_dropWhile (fun _ => inert_of_isNameChar) cs)
        have hrest := ofWord_inert (c :: cs.takeWhile Text.isNameChar) (cs.dropWhile Text.isNameChar)
        rw [Except.ok.inj h] at hrest
        exact .inert (hword.trans hrest.1) hrest.2
      · split at h
        · next hs =>
          rw [Except.ok.inj h] at hs
          exact piece_of_readSymbol hs
        · cases h

end Lexeme

section
variable {position : Nat} {before : Option Lexeme} {c : Char} {cs : List Char} {ts : List Token}

/-- A character that is a lexeme by itself. -/
theorem symbol_of_lexFrom {x : Lexeme} (hc : Text.isBlank c = false)
    (hread : ∀ before cs, Lexeme.read before c cs = .ok (x, cs))
    (h : lexFrom position before (c :: cs) = .ok ts) :
    ∃ ts', lexFrom (position + c.utf8Size) (some x) cs = .ok ts' ∧ ts = ⟨x, position⟩ :: ts' := by
  obtain ⟨y, rest, ts', hr, hts', rfl⟩ := exists_of_lexFrom hc h
  rw [hread] at hr
  obtain ⟨rfl, rfl⟩ := Prod.mk.inj (Except.ok.inj hr)
  have hsize : byteLength (c :: cs) - byteLength cs = c.utf8Size := Nat.add_sub_cancel ..
  rw [hsize] at hts'
  exact ⟨ts', hts', rfl⟩

theorem percent_of_lexFrom (h : lexFrom position before ('%' :: cs) = .ok ts) :
    ∃ ts', ts = ⟨.operator .mod, position⟩ :: ts' := by
  obtain ⟨ts', -, rfl⟩ := symbol_of_lexFrom (by decide) (fun _ _ => rfl) h
  exact ⟨ts', rfl⟩

end

namespace Node

section
variable {inner outer : Char} {cs : List Char} (ho : IsOuter outer)
include ho

theorem Interior.inert_cons {c : Char} (hc : Inert c) (h : Interior inner outer cs) :
    Interior inner outer (c :: cs) := by
  have hne : c ≠ outer := by
    rcases ho with rfl | rfl
    · exact hc.2.2.1
    · exact hc.2.2.2
  exact .plain hc.1 (fun heq => absurd heq hc.2.1) (fun heq => absurd heq hne) h

theorem Interior.inert_append {s : List Char} (hs : ∀ c ∈ s, Inert c) (h : Interior inner outer cs) :
    Interior inner outer (s ++ cs) := by
  induction s with
  | nil => exact h
  | cons c s ih =>
    obtain ⟨hc, hs⟩ := List.forall_mem_cons.1 hs
    exact .inert_cons ho hc (ih hs)

end

/-- Where neighbours are apart, no marker of a control tag stands outside of strings. -/
theorem interior_of_lexFrom {position : Nat} {before : Option Lexeme} {cs : List Char} {ts : List Token}
    (h : lexFrom position before cs = .ok ts) (hchain : (ts.map Token.lexeme).IsChain Apart) :
    Interior '%' '%' (cs ++ [' ']) := by
  cases cs with
  | nil => exact .inert_cons (.inr rfl) (inert_of_isBlank (by decide)) .nil
  | cons c cs =>
    by_cases hc : Text.isBlank c = true
    · rw [lexFrom_blank hc] at h
      exact .inert_cons (.inr rfl) (inert_of_isBlank hc) (interior_of_lexFrom h hchain)
    · obtain ⟨x, rest, ts', hread, hts', rfl⟩ := exists_of_lexFrom (by simpa using hc) h
      have hlen := Lexeme.length_read hread
      have hrest := interior_of_lexFrom hts' hchain.tail
      cases Lexeme.piece_of_read hread with
      | string content rest hquote hquoted =>
        rw [List.cons_append, List.append_assoc]
        exact .string hquote hquoted hrest
      | openBrace rest =>
        refine .plain (by simp [IsQuote]) (fun _ hnext => ?_) (by simp) hrest
        cases cs with
        | nil => simp at hnext
        | cons d cs =>
          obtain rfl : d = '%' := by simpa using hnext
          obtain ⟨ts'', rfl⟩ := percent_of_lexFrom hts'
          exact (List.isChain_cons_cons.1 hchain).1.1 ⟨rfl, rfl⟩
      | closeBrace rest => exact .plain (by simp [IsQuote]) (by simp) (by simp) hrest
      | percent rest =>
        refine .plain (by simp [IsQuote]) (by simp) (fun _ hnext => ?_) hrest
        cases cs with
        | nil => simp at hnext
        | cons d cs =>
          obtain rfl : d = '}' := by simpa using hnext
          obtain ⟨ts'', -, rfl⟩ := symbol_of_lexFrom (by decide) (read_mark .closeBrace) hts'
          exact (List.isChain_cons_cons.1 hchain).1.2 ⟨rfl, rfl⟩
      | inert hinert hx =>
        obtain ⟨s, hs, hall⟩ := hinert
        rw [hs, List.append_assoc]
        exact .inert_append (.inr rfl) hall hrest
termination_by cs.length
decreasing_by
  all_goals
    subst_vars
    simp only [List.length_cons]
    omega

end Node

end Stencil
