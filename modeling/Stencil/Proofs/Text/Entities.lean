import Mathlib.Data.List.Infix
import Stencil.Text.Markup

/-! Escaped text: nothing in it is markup, and reading its entities leads back to the text. -/
namespace Stencil.Text

/-- The characters that markup gives a meaning. -/
def marked : List Char := ['&', '<', '>', '"', '\'']

/-- Reads the entities of a text from left to right. -/
def unescape : List Char → List Char
  | '&' :: 'a' :: 'm' :: 'p' :: ';' :: cs => '&' :: unescape cs
  | '&' :: 'l' :: 't' :: ';' :: cs => '<' :: unescape cs
  | '&' :: 'g' :: 't' :: ';' :: cs => '>' :: unescape cs
  | '&' :: '#' :: '3' :: '4' :: ';' :: cs => '"' :: unescape cs
  | '&' :: '#' :: '3' :: '9' :: ';' :: cs => '\'' :: unescape cs
  | c :: cs => c :: unescape cs
  | [] => []

/-- No character of a text is markup: none begins or ends a tag or an attribute, and each ampersand begins one of
the entities. -/
structure MarkupFree (cs : List Char) : Prop where
  unmarked : ∀ c ∈ ['<', '>', '"', '\''], c ∉ cs
  ampersand : ∀ rest, '&' :: rest <:+ cs → ∃ c ∈ marked, entity c <+: '&' :: rest

variable {c : Char} {cs e : List Char}

/-- A character is written as it is or as an entity, which has no marked character but the ampersand. -/
theorem entity_cases (c : Char) :
    (c ∉ marked ∧ entity c = [c]) ∨ (c ∈ marked ∧ ∃ e, entity c = '&' :: e ∧ ∀ d ∈ e, d ∉ marked) := by
  have hplain (e : List Char) (he : (e.all fun d => !marked.contains d) = true) : ∀ d ∈ e, d ∉ marked := by
    simpa using he
  by_cases hc : c ∈ marked
  · refine .inr ⟨hc, ?_⟩
    simp only [marked, List.mem_cons, List.not_mem_nil, or_false] at hc
    rcases hc with rfl | rfl | rfl | rfl | rfl <;> exact ⟨_, rfl, hplain _ rfl⟩
  · refine .inl ⟨hc, ?_⟩
    unfold entity
    split
    case h_6 => rfl
    all_goals exact absurd (by decide) hc

theorem markupFree_nil : MarkupFree [] where
  unmarked _ _ := List.not_mem_nil
  ampersand rest h := absurd (List.eq_nil_of_suffix_nil h) (List.cons_ne_nil '&' rest)

theorem MarkupFree.cons (h : MarkupFree cs) (hc : c ∉ marked) : MarkupFree (c :: cs) where
  unmarked d hd hmem := by
    rcases List.mem_cons.1 hmem with rfl | hmem
    · exact hc (List.mem_cons_of_mem '&' hd)
    · exact h.unmarked d hd hmem
  ampersand rest hrest := by
    rcases List.suffix_cons_iff.1 hrest with heq | hrest
    · obtain ⟨rfl, -⟩ := List.cons.inj heq
      exact absurd (.head _) hc
    · exact h.ampersand rest hrest

theorem MarkupFree.append (h : MarkupFree cs) (he : ∀ d ∈ e, d ∉ marked) : MarkupFree (e ++ cs) := by
  induction e with
  | nil => exact h
  | cons d e ih =>
    obtain ⟨hd, he⟩ := List.forall_mem_cons.1 he
    exact (ih he).cons hd

theorem MarkupFree.entity_append (h : MarkupFree cs) (c : Char) : MarkupFree (entity c ++ cs) := by
  rcases entity_cases c with ⟨hc, hentity⟩ | ⟨hc, e, hentity, he⟩
  · rw [hentity]
    exact h.cons hc
  · have htail := h.append he
    constructor
    · intro d hd hmem
      rw [hentity, List.cons_append] at hmem
      rcases List.mem_cons.1 hmem with rfl | hmem
      · simp at hd
      · exact htail.unmarked d hd hmem
    · intro rest hrest
      rw [hentity, List.cons_append] at hrest
      rcases List.suffix_cons_iff.1 hrest with heq | hrest
      · refine ⟨c, hc, ?_⟩
        rw [heq, hentity, ← List.cons_append]
        exact List.prefix_append _ _
      · exact htail.ampersand rest hrest

theorem markupFree_escaped (cs : List Char) : MarkupFree (cs.flatMap entity) := by
  induction cs with
  | nil => exact markupFree_nil
  | cons c cs ih => exact ih.entity_append c

theorem unescape_cons (hc : c ≠ '&') (cs : List Char) : unescape (c :: cs) = c :: unescape cs := by
  rw [unescape]
  all_goals
    intro _ h
    exact absurd h hc

/-- An entity is read up to its end, whatever follows. -/
theorem unescape_entity (c : Char) (cs : List Char) : unescape (entity c ++ cs) = c :: unescape cs := by
  rcases entity_cases c with ⟨hc, hentity⟩ | ⟨hc, -⟩
  · rw [hentity]
    refine unescape_cons ?_ cs
    rintro rfl
    exact hc (.head _)
  · simp only [marked, List.mem_cons, List.not_mem_nil, or_false] at hc
    rcases hc with rfl | rfl | rfl | rfl | rfl <;> rfl

theorem unescape_escaped (cs : List Char) : unescape (cs.flatMap entity) = cs := by
  induction cs with
  | nil => rfl
  | cons c cs ih => rw [List.flatMap_cons, unescape_entity, ih]

theorem toList_escape (s : String) : (escape s).toList = s.toList.flatMap entity := String.toList_ofList

theorem markupFree_escape (s : String) : MarkupFree (escape s).toList := by
  rw [toList_escape]
  exact markupFree_escaped s.toList

theorem unescape_escape (s : String) : unescape (escape s).toList = s.toList := by
  rw [toList_escape, unescape_escaped]

theorem escape_injective : Function.Injective escape := by
  intro s t h
  rw [← String.toList_inj, ← unescape_escape s, h, unescape_escape]

theorem escape_append (s t : String) : escape (s ++ t) = escape s ++ escape t := by
  rw [escape, String.toList_append, List.flatMap_append, String.ofList_append]
  rfl

end Stencil.Text
