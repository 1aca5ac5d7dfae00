import Mathlib.Data.List.TakeWhile
import Stencil.Text.Blank

/-! Cutting blanks off the ends of a text. -/
namespace Stencil.Text

/-- A text that begins and ends with characters that are not blank. -/
def Trimmed (m : List Char) : Prop :=
  (∃ c ∈ m.head?, isBlank c = false) ∧ ∃ c ∈ m.getLast?, isBlank c = false

def Blank (a : List Char) : Prop := ∀ c ∈ a, isBlank c = true

variable {a b m cs : List Char}

theorem dropWhile_isBlank (ha : Blank a) (hm : ∃ c ∈ m.head?, isBlank c = false) :
    (a ++ m).dropWhile isBlank = m := by
  obtain ⟨c, hc, hblank⟩ := hm
  obtain ⟨m, rfl⟩ := List.head?_eq_some_iff.1 hc
  rw [List.dropWhile_append_of_pos ha]
  exact List.dropWhile_cons_of_neg (by simp [hblank])

/-- Trimming takes off the blanks around a text and nothing else. -/
theorem trim_padded (ha : Blank a) (hm : Trimmed m) (hb : Blank b) : trim (a ++ (m ++ b)) = m := by
  obtain ⟨hhead, hlast⟩ := hm
  have hhead' : ∃ c ∈ (m ++ b).head?, isBlank c = false := by
    obtain ⟨c, hc, hblank⟩ := hhead
    exact ⟨c, by rw [List.head?_append, hc]; rfl, hblank⟩
  have hb' : Blank b.reverse := fun c hc => hb c (List.mem_reverse.1 hc)
  rw [trim, trimWhere, dropWhile_isBlank ha hhead', List.reverse_append,
    dropWhile_isBlank hb' (by rwa [List.head?_reverse]), List.reverse_reverse]

theorem blank_nil : Blank [] := fun _ hc => absurd hc List.not_mem_nil

theorem blank_space : Blank [' '] := fun _ hc => List.mem_singleton.1 hc ▸ rfl

theorem Blank.append (ha : Blank a) (hb : Blank b) : Blank (a ++ b) := List.forall_mem_append.2 ⟨ha, hb⟩

theorem Trimmed.trim_eq (hm : Trimmed m) : trim m = m := by
  simpa using trim_padded blank_nil hm blank_nil

theorem trim_solid {cs : List Char} (h : ∀ c ∈ cs, isBlank c = false) : trim cs = cs := by
  by_cases hne : cs = []
  · subst hne
    rfl
  · apply Trimmed.trim_eq
    constructor
    · exact ⟨_, List.head?_eq_some_head hne, h _ (List.head_mem hne)⟩
    · exact ⟨_, List.getLast?_eq_some_getLast hne, h _ (List.getLast_mem hne)⟩

theorem Trimmed.ne_nil (hm : Trimmed m) : m ≠ [] := by
  rintro rfl
  obtain ⟨⟨c, hc, -⟩, -⟩ := hm
  cases hc

theorem blank_takeWhile (cs : List Char) : Blank (cs.takeWhile isBlank) :=
  fun _ hc => List.mem_takeWhile_imp hc

theorem head_dropWhile_isBlank (h : ∃ c ∈ cs, isBlank c = false) :
    ∃ c ∈ (cs.dropWhile isBlank).head?, isBlank c = false := by
  cases hd : cs.dropWhile isBlank with
  | nil =>
    obtain ⟨c, hc, hblank⟩ := h
    have hall := List.dropWhile_eq_nil_iff.1 hd c hc
    rw [hblank] at hall
    cases hall
  | cons d ds =>
    refine ⟨d, rfl, ?_⟩
    have hnot := List.head?_dropWhile_not isBlank cs
    rw [hd] at hnot
    simpa using hnot

/-- A text that is not blank is its trimmed middle between blanks. -/
theorem exists_padding (h : ∃ c ∈ cs, isBlank c = false) :
    ∃ a b, cs = a ++ (trim cs ++ b) ∧ Blank a ∧ Blank b ∧ Trimmed (trim cs) := by
  have hhead := head_dropWhile_isBlank h
  have hlast : ∃ c ∈ ((cs.dropWhile isBlank).reverse.dropWhile isBlank).head?, isBlank c = false := by
    apply head_dropWhile_isBlank
    obtain ⟨c, hc, hblank⟩ := hhead
    exact ⟨c, List.mem_reverse.2 (List.mem_of_mem_head? hc), hblank⟩
  have hmiddle : trim cs ++ ((cs.dropWhile isBlank).reverse.takeWhile isBlank).reverse =
      cs.dropWhile isBlank := by
    rw [trim, trimWhere, ← List.reverse_append, List.takeWhile_append_dropWhile, List.reverse_reverse]
  have hlast' : ∃ c ∈ (trim cs).getLast?, isBlank c = false := by
    rw [trim, trimWhere, List.getLast?_reverse]
    exact hlast
  have hhead' : ∃ c ∈ (trim cs).head?, isBlank c = false := by
    cases htrim : trim cs with
    | nil =>
      rw [htrim] at hlast'
      simp at hlast'
    | cons d ds =>
      rw [← hmiddle, htrim] at hhead
      exact hhead
  refine ⟨cs.takeWhile isBlank, ((cs.dropWhile isBlank).reverse.takeWhile isBlank).reverse, ?_,
    blank_takeWhile cs, fun c hc => blank_takeWhile _ c (List.mem_reverse.1 hc), hhead', hlast'⟩
  rw [hmiddle, List.takeWhile_append_dropWhile]

/-- Any text is its trimmed middle between blanks. -/
theorem exists_blanks (cs : List Char) : ∃ a b, cs = a ++ (trim cs ++ b) ∧ Blank a ∧ Blank b := by
  by_cases h : ∃ c ∈ cs, isBlank c = false
  · obtain ⟨a, b, hcs, ha, hb, -⟩ := exists_padding h
    exact ⟨a, b, hcs, ha, hb⟩
  · have hall : Blank cs := fun c hc => by simpa using fun hblank => h ⟨c, hc, hblank⟩
    have hnil : trim cs = [] := by rw [trim, trimWhere, List.dropWhile_eq_nil_iff.2 hall]; rfl
    exact ⟨cs, [], by rw [hnil]; simp, hall, blank_nil⟩

theorem trim_cons_blank {c : Char} (hc : isBlank c = true) (cs : List Char) : trim (c :: cs) = trim cs := by
  rw [trim, trimWhere, List.dropWhile_cons_of_pos hc]
  rfl

theorem trim_spaced (h : ∃ c ∈ cs, isBlank c = false) : trim (' ' :: (cs ++ [' '])) = trim cs := by
  obtain ⟨a, b, hcs, ha, hb, hm⟩ := exists_padding h
  generalize trim cs = m at hcs hm ⊢
  have hpadded := trim_padded (blank_space.append ha) hm (hb.append blank_space)
  rw [← hpadded]
  congr 1
  simp [hcs]

theorem Trimmed.append (ha : Trimmed a) (hb : Trimmed b) (m : List Char) : Trimmed (a ++ (m ++ b)) := by
  obtain ⟨⟨c, hc, hhead⟩, -⟩ := ha
  obtain ⟨-, d, hd, hlast⟩ := hb
  refine ⟨⟨c, ?_, hhead⟩, d, ?_, hlast⟩
  · rw [List.head?_append, hc]
    rfl
  · rw [List.getLast?_append, List.getLast?_append, hd]
    rfl

end Stencil.Text
