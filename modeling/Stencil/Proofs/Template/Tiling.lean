import Stencil.Proofs.Template.Interior
import Stencil.Proofs.Template.Rendering

/-! The nodes of a template side by side with the texts they are cut from. -/
namespace Stencil.Node

open Render (nodes_text)

/-- The kinds of tags by their markers. -/
inductive Marker where
  | expression | control | comment

namespace Marker

def opening : Marker → List Char
  | expression => ['{', '{']
  | control => ['{', '%']
  | comment => ['{', '#']

def closing : Marker → List Char
  | expression => ['}', '}']
  | control => ['%', '}']
  | comment => ['#', '}']

/-- Whether a closing marker right behind `c` matches an opening marker right before it. -/
def Encloses : Marker → List Char → Prop
  | expression, c => Interior '{' '}' c
  | control, c => Interior '%' '%' c
  | comment, c => ¬ ['#', '}'] <:+: c

/-- The text of a tag with the interior `c`. -/
def enclose (m : Marker) (c : List Char) : List Char := m.opening ++ (c ++ m.closing)

/-- The node of a tag with the interior `c`. -/
def node : Marker → List Char → Node
  | expression, c => .expression (String.ofList (Text.trim c))
  | control, c => .tag (Tag.parse (String.ofList c))
  | comment, c => .comment (String.ofList c)

end Marker

/-- Whether a node is cut from `piece` where `rest` follows. In a text, markers open nowhere but at its
beginning, and only if they are not closed. -/
def CutFrom (rest : List Char) : Node → List Char → Prop
  | text s, piece => piece = s.toList ∧
      (∀ (m : Marker) (a b : List Char), piece = a ++ b → a ≠ [] → b ≠ [] →
        ¬ m.opening <+: b ++ rest) ∧
      ∀ (m : Marker) (c rest' : List Char), m.Encloses c → piece ++ rest ≠ m.enclose c ++ rest'
  | expression source, piece => ∃ c, Marker.expression.Encloses c ∧
      piece = Marker.expression.enclose c ∧ source = String.ofList (Text.trim c)
  | comment s, piece => Marker.comment.Encloses s.toList ∧ piece = Marker.comment.enclose s.toList
  | tag t, piece => ∃ c, Marker.control.Encloses c ∧ piece = Marker.control.enclose c ∧
      t = Tag.parse (String.ofList c)

/-- Nodes and the texts they are cut from, one after the other. -/
inductive Tiling : List Node → List (List Char) → Prop
  | nil : Tiling [] []
  | cons {n : Node} {piece : List Char} {ns : List Node} {pieces : List (List Char)} :
      piece ≠ [] → CutFrom pieces.flatten n piece → Tiling ns pieces →
      Tiling (n :: ns) (piece :: pieces)

theorem readTag?_enclose (m : Marker) {c : List Char} (h : m.Encloses c) (rest : List Char) :
    readTag? (m.enclose c ++ rest) = some (m.node c, rest) := by
  cases m with
  | expression =>
    have hcut : cutInterior '{' '}' 0 (c ++ '}' :: '}' :: rest) = some (c, rest) :=
      (cutInterior_eq_some (.inl rfl)).2 ⟨rfl, h⟩
    simp [Marker.enclose, Marker.opening, Marker.closing, Marker.node, readTag?, hcut]
  | control =>
    have hcut : cutInterior '%' '%' 0 (c ++ '%' :: '}' :: rest) = some (c, rest) :=
      (cutInterior_eq_some (.inr rfl)).2 ⟨rfl, h⟩
    simp [Marker.enclose, Marker.opening, Marker.closing, Marker.node, readTag?, hcut]
  | comment =>
    have hcut := cutComment_append h rest
    simp [Marker.enclose, Marker.opening, Marker.closing, Marker.node, readTag?, hcut]

/-- A tag is one node, and what follows it is cut as if it stood alone. -/
theorem segment_append (m : Marker) {c : List Char} (h : m.Encloses c) (rest : List Char) :
    segment (m.enclose c ++ rest) = m.node c :: segment rest := by
  obtain ⟨d, ds, henclose⟩ : ∃ d ds, m.enclose c ++ rest = d :: ds := by
    cases m <;> exact ⟨_, _, rfl⟩
  have hread := readTag?_enclose m h rest
  rw [henclose] at hread
  rw [henclose, segment]
  split
  · next hread' =>
    obtain ⟨rfl, rfl⟩ := Prod.mk.inj (Option.some.inj (hread.symm.trans hread'))
    rfl
  · next hread' =>
    rw [hread] at hread'
    cases hread'

theorem segment_nil : segment [] = [] := by
  rw [segment]

theorem segment_enclose (m : Marker) {c : List Char} (h : m.Encloses c) :
    segment (m.enclose c) = [m.node c] := by
  have happend := segment_append m h []
  rwa [List.append_nil, segment_nil] at happend

/-- A tag is read exactly where its opening marker has a closing marker that matches. -/
theorem readTag?_eq_some {cs rest : List Char} {n : Node} : readTag? cs = some (n, rest) ↔
    ∃ (m : Marker) (c : List Char), m.Encloses c ∧ cs = m.enclose c ++ rest ∧ n = m.node c := by
  constructor
  · intro h
    unfold readTag? at h
    split at h
    · obtain ⟨⟨c, rest'⟩, hcut, hn⟩ := Option.map_eq_some_iff.1 h
      obtain ⟨rfl, rfl⟩ := Prod.mk.inj hn
      obtain ⟨rfl, hc⟩ := (cutInterior_eq_some (.inl rfl)).1 hcut
      exact ⟨.expression, c, hc, by simp [Marker.enclose, Marker.opening, Marker.closing], rfl⟩
    · obtain ⟨⟨c, rest'⟩, hcut, hn⟩ := Option.map_eq_some_iff.1 h
      obtain ⟨rfl, rfl⟩ := Prod.mk.inj hn
      obtain ⟨rfl, hc⟩ := (cutInterior_eq_some (.inr rfl)).1 hcut
      exact ⟨.control, c, hc, by simp [Marker.enclose, Marker.opening, Marker.closing], rfl⟩
    · obtain ⟨⟨c, rest'⟩, hcut, hn⟩ := Option.map_eq_some_iff.1 h
      obtain ⟨rfl, rfl⟩ := Prod.mk.inj hn
      obtain ⟨rfl, hc⟩ := cutComment_eq_some.1 hcut
      exact ⟨.comment, c, hc, by simp [Marker.enclose, Marker.opening, Marker.closing], rfl⟩
    · cases h
  · rintro ⟨m, c, hc, rfl, rfl⟩
    exact readTag?_enclose m hc rest

theorem eq_nil_of_segment {cs : List Char} (h : segment cs = []) : cs = [] := by
  cases cs with
  | nil => rfl
  | cons c cs =>
    rw [segment] at h
    split at h <;> cases h

/-- A text that is cut into one node that is not a text is one tag. -/
theorem eq_enclose_of_segment {cs : List Char} {n : Node} (hn : ∀ s, n ≠ .text s)
    (h : segment cs = [n]) : ∃ (m : Marker) (c : List Char), m.Encloses c ∧ cs = m.enclose c ∧ n = m.node c := by
  cases cs with
  | nil =>
    rw [segment_nil] at h
    cases h
  | cons d ds =>
    rw [segment] at h
    split at h
    · next n' rest hread =>
      obtain ⟨rfl, hrest⟩ := List.cons.inj h
      obtain rfl := eq_nil_of_segment hrest
      obtain ⟨m, c, hc, heq, hnode⟩ := readTag?_eq_some.1 hread
      exact ⟨m, c, hc, by rw [heq, List.append_nil], hnode⟩
    · exact absurd (List.cons.inj h).1.symm (hn _)

theorem enclose_injective {m m' : Marker} {c c' : List Char} (h : m.enclose c = m'.enclose c') :
    m = m' ∧ c = c' := by
  cases m <;> cases m' <;> simp [Marker.enclose, Marker.opening, Marker.closing] at h ⊢
  all_goals exact h

theorem cutFrom_node (m : Marker) {c : List Char} (h : m.Encloses c) (rest : List Char) :
    CutFrom rest (m.node c) (m.enclose c) := by
  cases m with
  | expression => exact ⟨c, h, rfl, rfl⟩
  | control => exact ⟨c, h, rfl, rfl⟩
  | comment => simpa [CutFrom, Marker.node] using h

theorem opensTag_of_opening {m : Marker} {cs : List Char} (h : m.opening <+: cs) :
    opensTag cs = true := by
  obtain ⟨rest, rfl⟩ := h
  cases m <;> rfl

theorem append_cutText (cs : List Char) : (cutText cs).1 ++ (cutText cs).2 = cs := by
  induction cs with
  | nil => rfl
  | cons c cs ih =>
    rw [cutText]
    split
    · rfl
    · exact congrArg (c :: ·) ih

/-- No tag may begin before the place where a text is cut. -/
theorem opensTag_cutText {cs a b : List Char} (h : (cutText cs).1 = a ++ b) (hb : b ≠ []) :
    opensTag (b ++ (cutText cs).2) = false := by
  induction cs generalizing a with
  | nil => exact absurd (List.append_eq_nil_iff.1 h.symm).2 hb
  | cons c cs ih =>
    rw [cutText] at h ⊢
    split at h
    · exact absurd (List.append_eq_nil_iff.1 h.symm).2 hb
    · next hopens =>
      rw [if_neg hopens]
      cases a with
      | nil =>
        obtain rfl : c :: (cutText cs).1 = b := h
        rw [List.cons_append, append_cutText]
        exact Bool.not_eq_true _ ▸ hopens
      | cons d a => exact ih (List.cons.inj h).2

theorem cutFrom_text {c : Char} {cs : List Char} (h : readTag? (c :: cs) = none) :
    CutFrom (cutText cs).2 (text (String.ofList (c :: (cutText cs).1))) (c :: (cutText cs).1) := by
  refine ⟨by simp, fun m a b hab ha hb hopening => ?_, fun m c' rest' hc' heq => ?_⟩
  · obtain ⟨d, a, rfl⟩ := List.exists_cons_of_ne_nil ha
    have hnot := opensTag_cutText (List.cons.inj hab).2 hb
    rw [opensTag_of_opening hopening] at hnot
    cases hnot
  · rw [List.cons_append, append_cutText] at heq
    rw [heq, readTag?_enclose m hc' rest'] at h
    cases h

/-- The nodes of a text are cut from pieces that make up the text. -/
theorem exists_tiling (cs : List Char) :
    ∃ pieces : List (List Char), pieces.flatten = cs ∧ Tiling (segment cs) pieces := by
  fun_induction segment cs with
  | case1 => exact ⟨[], rfl, .nil⟩
  | case2 c cs n rest h ih =>
    obtain ⟨pieces, rfl, htiling⟩ := ih
    obtain ⟨m, interior, hin, heq, rfl⟩ := readTag?_eq_some.1 h
    refine ⟨m.enclose interior :: pieces, heq.symm, .cons ?_ (cutFrom_node m hin _) htiling⟩
    cases m <;> exact List.cons_ne_nil _ _
  | case3 c cs h ih =>
    obtain ⟨pieces, hflat, htiling⟩ := ih
    refine ⟨(c :: (cutText cs).1) :: pieces, ?_, .cons (List.cons_ne_nil _ _) ?_ htiling⟩
    · rw [List.flatten_cons, hflat, List.cons_append, append_cutText]
    · rw [hflat]
      exact cutFrom_text h

section
variable {cs : List Char} (h : ∀ m : Marker, ¬ m.opening <:+: cs)
include h

theorem opensTag_eq_false : opensTag cs = false := by
  unfold opensTag
  split
  · next c rest =>
    have hnot (m : Marker) (hm : m.opening = ['{', c]) : False :=
      h m (hm ▸ (List.prefix_append ['{', c] rest).isInfix)
    rw [Bool.or_eq_false_iff, Bool.or_eq_false_iff]
    refine ⟨⟨?_, ?_⟩, ?_⟩ <;> refine beq_false_of_ne ?_ <;> rintro rfl
    · exact hnot .expression rfl
    · exact hnot .control rfl
    · exact hnot .comment rfl
  · rfl

theorem readTag?_eq_none : readTag? cs = none := by
  refine Option.eq_none_iff_forall_ne_some.2 fun ⟨n, rest⟩ hread => ?_
  obtain ⟨m, c, -, rfl, -⟩ := readTag?_eq_some.1 hread
  exact h m ⟨[], c ++ m.closing ++ rest, by simp [Marker.enclose]⟩

theorem cutText_plain : cutText cs = (cs, []) := by
  induction cs with
  | nil => rfl
  | cons c cs ih =>
    have hcs (m : Marker) : ¬ m.opening <:+: cs := fun hm => h m (List.infix_cons hm)
    rw [cutText, if_neg (by simp [opensTag_eq_false h]), ih hcs]

/-- A text without opening markers is one piece. -/
theorem segment_plain (hcs : cs ≠ []) : segment cs = [text (String.ofList cs)] := by
  obtain ⟨c, cs, rfl⟩ := List.exists_cons_of_ne_nil hcs
  have hrest := cutText_plain fun m hm => h m (List.infix_cons hm)
  rw [segment]
  split
  · next hread =>
    rw [readTag?_eq_none h] at hread
    cases hread
  · rw [hrest, segment]

end

/-- Cutting a template loses nothing, and a template without opening markers renders to itself. -/
theorem ofTemplate_tiling (t : String) :
    (∃ pieces : List (List Char), pieces.flatten = t.toList ∧ Tiling (ofTemplate t) pieces) ∧
      ((∀ m : Marker, ¬ m.opening <:+: t.toList) →
        ∀ (rules : Rules) (order : MapOrder) (env : Env),
          Render.nodes rules order env 0 (ofTemplate t) = .ok t) := by
  refine ⟨exists_tiling t.toList, fun h rules order env => ?_⟩
  by_cases ht : t.toList = []
  · obtain rfl := String.toList_eq_nil_iff.1 ht
    rw [ofTemplate, ht, segment, Render.nodes_outermost]
    exact Render.nodesFrom_end (Nat.le_refl _)
  · rw [ofTemplate, segment_plain h ht, nodes_text, String.ofList_toList]

end Stencil.Node
