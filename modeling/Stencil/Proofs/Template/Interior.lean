import Stencil.Template.Node

/-! What stands between an opening marker and the closing marker that matches it. -/
namespace Stencil.Node

/-- The content of a quoted string with its closing quote. A backslash takes the character after it along. -/
inductive Quoted (quote : Char) : List Char → Prop
  | close : Quoted quote [quote]
  | plain {c : Char} {s : List Char} : c ≠ quote → c ≠ '\\' → Quoted quote s → Quoted quote (c :: s)
  | escape {c : Char} {s : List Char} : Quoted quote s → Quoted quote ('\\' :: c :: s)

/-- The characters that begin and end strings. -/
abbrev IsQuote (c : Char) : Prop := c = '\'' ∨ c = '"'

/-- The interior of a tag: strings, tags of the same kind, and characters that begin no marker, where
the closing marker comes next. -/
inductive Interior (inner outer : Char) : List Char → Prop
  | nil : Interior inner outer []
  | plain {c : Char} {cs : List Char} : ¬ IsQuote c → (c = '{' → (cs ++ [outer]).head? ≠ some inner) →
      (c = outer → (cs ++ [outer]).head? ≠ some '}') → Interior inner outer cs →
      Interior inner outer (c :: cs)
  | string {quote : Char} {s cs : List Char} : IsQuote quote → Quoted quote s → Interior inner outer cs →
      Interior inner outer (quote :: (s ++ cs))
  | nested {a cs : List Char} : Interior inner outer a → Interior inner outer cs →
      Interior inner outer ('{' :: inner :: (a ++ outer :: '}' :: cs))

theorem cutString_append {quote : Char} (hq : IsQuote quote) {s : List Char} (h : Quoted quote s)
    (rest : List Char) : cutString quote false (s ++ rest) = some (s, rest) := by
  have hslash : '\\' ≠ quote := by rcases hq with rfl | rfl <;> decide
  induction h with
  | close => simp [cutString]
  | plain hc hs _ ih => simp [cutString, hc, beq_false_of_ne hs, ih]
  | escape _ ih => simp [cutString, hslash, ih]

/-- After a backslash the string goes on as if the backslash were a part of it. -/
theorem quoted_of_cutString {quote : Char} {odd : Bool} {cs s rest : List Char}
    (h : cutString quote odd cs = some (s, rest)) : Quoted quote (if odd then '\\' :: s else s) := by
  induction cs generalizing odd s rest with
  | nil => cases h
  | cons c cs ih =>
    simp only [cutString] at h
    split at h
    · next hc =>
      obtain ⟨rfl, rfl⟩ := hc
      simp only [Option.some.injEq, Prod.mk.injEq] at h
      obtain ⟨rfl, rfl⟩ := h
      exact .close
    · next hc =>
      obtain ⟨⟨s', rest'⟩, hr, hs⟩ := Option.map_eq_some_iff.1 h
      obtain ⟨rfl, rfl⟩ := Prod.mk.inj hs
      have hs' := ih hr
      cases odd with
      | true => exact .escape (by simpa using hs')
      | false =>
        by_cases hslash : c = '\\'
        · subst hslash
          simpa using hs'
        · exact .plain (by simpa using hc) hslash (by simpa [hslash] using hs')

/-- Cutting a string finds its content, and nothing else. -/
theorem cutString_eq_some {quote : Char} (hq : IsQuote quote) {cs s rest : List Char} :
    cutString quote false cs = some (s, rest) ↔ cs = s ++ rest ∧ Quoted quote s := by
  constructor
  · intro h
    exact ⟨(append_of_cutString h).symm, by simpa using quoted_of_cutString h⟩
  · rintro ⟨rfl, h⟩
    exact cutString_append hq h rest

section
variable {inner outer : Char} {level : Nat} {c : Char} {cs i rest : List Char}

theorem cutInterior_string {s : List Char} (hc : IsQuote c) (hs : Quoted c s) :
    cutInterior inner outer level (c :: (s ++ rest)) =
      (cutInterior inner outer level rest).map fun r => (c :: s ++ r.1, r.2) := by
  rw [cutInterior.eq_def]
  dsimp only
  rw [if_pos hc]
  split
  · next h =>
    rw [cutString_append hc hs] at h
    cases h
  · next h =>
    rw [cutString_append hc hs] at h
    obtain ⟨rfl, rfl⟩ := Prod.mk.inj (Option.some.inj h)
    rfl

theorem cutInterior_open : cutInterior inner outer level ('{' :: inner :: rest) =
    (cutInterior inner outer (level + 1) rest).map fun r => ('{' :: inner :: r.1, r.2) := by
  rw [cutInterior.eq_def]
  simp

theorem cutInterior_plain (hc : ¬ IsQuote c) (hopen : c = '{' → cs.head? ≠ some inner)
    (hclose : c = outer → cs.head? ≠ some '}') : cutInterior inner outer level (c :: cs) =
      (cutInterior inner outer level cs).map fun r => (c :: r.1, r.2) := by
  rw [cutInterior.eq_def]
  dsimp only
  rw [if_neg hc, if_neg fun h => hopen h.1 h.2, if_neg fun h => hclose h.1 h.2]

/-- The characters that closing markers begin with. -/
def IsOuter (c : Char) : Prop := c = '}' ∨ c = '%'

variable (ho : IsOuter outer)
include ho

theorem cutInterior_close : cutInterior inner outer 0 (outer :: '}' :: rest) = some ([], rest) := by
  rw [cutInterior.eq_def]
  rcases ho with rfl | rfl <;> simp

theorem cutInterior_close_succ : cutInterior inner outer (level + 1) (outer :: '}' :: rest) =
    (cutInterior inner outer level rest).map fun r => (outer :: '}' :: r.1, r.2) := by
  rw [cutInterior.eq_def]
  rcases ho with rfl | rfl <;> simp

/-- An interior before a closing marker is passed at every level. -/
theorem cutInterior_append (h : Interior inner outer cs) (level : Nat) (rest : List Char) :
    cutInterior inner outer level (cs ++ outer :: rest) =
      (cutInterior inner outer level (outer :: rest)).map fun r => (cs ++ r.1, r.2) := by
  induction h generalizing level rest with
  | nil => simp
  | @plain c cs hc hopen hclose _ ih =>
    have hhead : (cs ++ outer :: rest).head? = (cs ++ [outer]).head? := by cases cs <;> rfl
    rw [List.cons_append, cutInterior_plain hc (by rwa [hhead]) (by rwa [hhead]), ih,
      Option.map_map]
    rfl
  | @string quote s cs hq hs _ ih =>
    rw [List.cons_append, List.append_assoc, cutInterior_string hq hs, ih, Option.map_map]
    congr 1
    funext r
    simp
  | @nested a cs _ _ iha ihcs =>
    have happ : '{' :: inner :: (a ++ outer :: '}' :: cs) ++ outer :: rest =
        '{' :: inner :: (a ++ outer :: ('}' :: (cs ++ outer :: rest))) := by simp
    rw [happ, cutInterior_open, iha, cutInterior_close_succ ho, ihcs]
    simp only [Option.map_map]
    congr 1
    funext r
    simp

/-- Behind a tag inside another one, the cut goes on at the level it had before. -/
theorem cutInterior_resumes {a : List Char} (ha : Interior inner outer a) {r : List Char × List Char}
    (h : cutInterior inner outer (level + 1) (a ++ outer :: '}' :: rest) = some r) :
    ∃ r', cutInterior inner outer level rest = some r' := by
  rw [cutInterior_append ho ha, cutInterior_close_succ ho, Option.map_map] at h
  obtain ⟨r', hr, -⟩ := Option.map_eq_some_iff.1 h
  exact ⟨r', hr⟩

/-- Where a cut succeeds at some level, there is a closing marker that matches. -/
theorem exists_interior {level : Nat} {cs : List Char} {r : List Char × List Char}
    (h : cutInterior inner outer level cs = some r) :
    ∃ a rest, Interior inner outer a ∧ cs = a ++ outer :: '}' :: rest := by
  rw [cutInterior.eq_def] at h
  split at h
  · cases h
  · next c cs =>
    split at h
    · next hc =>
      split at h
      · cases h
      · next s rest hs =>
        obtain ⟨rfl, hquoted⟩ := (cutString_eq_some hc).1 hs
        obtain ⟨r', hr, -⟩ := Option.map_eq_some_iff.1 h
        obtain ⟨a, rest', ha, rfl⟩ := exists_interior hr
        exact ⟨c :: (s ++ a), rest', .string hc hquoted ha, by simp⟩
    · next hc =>
      split at h
      · next hopen =>
        obtain ⟨rfl, hinner⟩ := hopen
        obtain ⟨cs, rfl⟩ := List.head?_eq_some_iff.1 hinner
        obtain ⟨r', hr, -⟩ := Option.map_eq_some_iff.1 h
        obtain ⟨a, rest, ha, rfl⟩ := exists_interior hr
        obtain ⟨r'', hr'⟩ := cutInterior_resumes ho ha hr
        obtain ⟨b, rest', hb, rfl⟩ := exists_interior hr'
        exact ⟨'{' :: inner :: (a ++ outer :: '}' :: b), rest', .nested ha hb, by simp⟩
      · next hopen =>
        split at h
        · next hclose =>
          obtain ⟨rfl, hbrace⟩ := hclose
          obtain ⟨cs, rfl⟩ := List.head?_eq_some_iff.1 hbrace
          exact ⟨[], cs, .nil, rfl⟩
        · next hclose =>
          obtain ⟨r', hr, -⟩ := Option.map_eq_some_iff.1 h
          obtain ⟨a, rest, ha, rfl⟩ := exists_interior hr
          have hhead : (a ++ outer :: '}' :: rest).head? = (a ++ [outer]).head? := by cases a <;> rfl
          rw [hhead] at hopen hclose
          exact ⟨c :: a, rest, .plain hc (fun h h' => hopen ⟨h, h'⟩) (fun h h' => hclose ⟨h, h'⟩) ha,
            rfl⟩
termination_by cs.length
decreasing_by
  all_goals
    subst_vars
    simp only [List.length_append, List.length_cons, List.tail_cons]
    omega

/-- Cutting an interior finds the closing marker that matches, and nothing else. -/
theorem cutInterior_eq_some : cutInterior inner outer 0 cs = some (i, rest) ↔
    cs = i ++ outer :: '}' :: rest ∧ Interior inner outer i := by
  constructor
  · intro h
    obtain ⟨a, rest', ha, rfl⟩ := exists_interior ho h
    rw [cutInterior_append ho ha, cutInterior_close ho] at h
    obtain ⟨rfl, rfl⟩ := Prod.mk.inj (Option.some.inj h)
    exact ⟨by simp, by simpa using ha⟩
  · rintro ⟨rfl, h⟩
    rw [cutInterior_append ho h, cutInterior_close ho]
    simp

end

theorem cutComment_append {c : List Char} (h : ¬ ['#', '}'] <:+: c) (rest : List Char) :
    cutComment (c ++ '#' :: '}' :: rest) = some (c, rest) := by
  induction c with
  | nil => rfl
  | cons d c ih =>
    rw [List.infix_cons_iff, not_or] at h
    have hhead : ¬ (d = '#' ∧ (c ++ '#' :: '}' :: rest).head? = some '}') := by
      rintro ⟨rfl, hbrace⟩
      cases c with
      | nil => cases hbrace
      | cons e c =>
        obtain rfl : e = '}' := by simpa using hbrace
        exact h.1 (by simp)
    rw [List.cons_append, cutComment, if_neg hhead, ih h.2]
    rfl

theorem comment_of_cutComment {cs c rest : List Char} (h : cutComment cs = some (c, rest)) :
    cs = c ++ '#' :: '}' :: rest ∧ ¬ ['#', '}'] <:+: c := by
  induction cs generalizing c rest with
  | nil => cases h
  | cons d cs ih =>
    simp only [cutComment] at h
    split at h
    · next hd =>
      obtain ⟨rfl, hbrace⟩ := hd
      obtain ⟨cs, rfl⟩ := List.head?_eq_some_iff.1 hbrace
      obtain ⟨rfl, rfl⟩ := Prod.mk.inj (Option.some.inj h)
      exact ⟨rfl, by simp⟩
    · next hd =>
      obtain ⟨⟨c', rest'⟩, hr, hc⟩ := Option.map_eq_some_iff.1 h
      obtain ⟨rfl, rfl⟩ := Prod.mk.inj hc
      obtain ⟨rfl, hinfix⟩ := ih hr
      refine ⟨rfl, fun hin => ?_⟩
      rcases List.infix_cons_iff.1 hin with hpre | hin
      · obtain ⟨tail, htail⟩ := hpre
        obtain ⟨rfl, rfl⟩ := List.cons.inj htail
        exact hd ⟨rfl, rfl⟩
      · exact hinfix hin

/-- Cutting a comment finds the first closing marker, and nothing else. -/
theorem cutComment_eq_some {cs c rest : List Char} : cutComment cs = some (c, rest) ↔
    cs = c ++ '#' :: '}' :: rest ∧ ¬ ['#', '}'] <:+: c := by
  constructor
  · exact comment_of_cutComment
  · rintro ⟨rfl, h⟩
    exact cutComment_append h rest

end Stencil.Node
