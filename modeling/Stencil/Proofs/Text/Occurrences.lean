import Mathlib.Data.List.Infix
import Stencil.Text.Search

/-! Occurrences of one text inside another, found from the left and not overlapping: the pieces between them, and
what comes of the text if other separators take the place of the first of them. -/
namespace Stencil.Text

/-- The pieces of a text between the occurrences of `p`. Every piece but the last ends where `p` occurs for the
first time behind the piece before it. -/
inductive Pieces (p : List Char) : List Char → List (List Char) → Prop
  | last {cs : List Char} : ¬ p <:+: cs → Pieces p cs [cs]
  | next {q rest : List Char} {qs : List (List Char)} : ¬ p <:+: q ++ p.dropLast → Pieces p rest qs →
      Pieces p (q ++ (p ++ rest)) (q :: qs)

variable {p cs q rest new : List Char} {qs : List (List Char)} {c : Char} {n : Nat}

theorem after?_eq_some_iff : after? p cs = some rest ↔ cs = p ++ rest := by
  induction p generalizing cs with
  | nil => simp [after?]
  | cons d p ih =>
    cases cs with
    | nil => simp [after?]
    | cons c cs =>
      rw [after?]
      split
      · next heq =>
        subst heq
        rw [ih, List.cons_append, List.cons_inj_right]
      · next hne => simp [Ne.symm hne]

theorem after?_eq_none_iff : after? p cs = none ↔ ¬ p <+: cs := by
  rw [Option.eq_none_iff_forall_ne_some]
  simp only [ne_eq, after?_eq_some_iff]
  exact ⟨fun h ⟨rest, hrest⟩ => h rest hrest.symm, fun h rest hrest => h ⟨rest, hrest.symm⟩⟩

/-! ### One step of the search -/

theorem splitUpTo_zero (p cs : List Char) : splitUpTo 0 p cs = [cs] := by
  rw [splitUpTo]

theorem splitUpTo_nil (hp : p ≠ []) (n : Nat) : splitUpTo n p [] = [[]] := by
  obtain ⟨d, p, rfl⟩ := List.exists_cons_of_ne_nil hp
  cases n <;> rw [splitUpTo]

theorem splitUpTo_found (hp : p ≠ []) : splitUpTo (n + 1) p (p ++ rest) = [] :: splitUpTo n p rest := by
  obtain ⟨d, p, rfl⟩ := List.exists_cons_of_ne_nil hp
  have hafter : after? (d :: p) (d :: p ++ rest) = some rest := after?_eq_some_iff.2 rfl
  rw [List.cons_append] at hafter ⊢
  rw [splitUpTo]
  split
  · next heq =>
    obtain rfl := Option.some.inj (heq.symm.trans hafter)
    rfl
  · next heq =>
    rw [hafter] at heq
    cases heq

theorem splitUpTo_skip (hp : p ≠ []) (hnot : ¬ p <+: c :: cs) :
    splitUpTo (n + 1) p (c :: cs) = consHead c (splitUpTo (n + 1) p cs) := by
  obtain ⟨d, p, rfl⟩ := List.exists_cons_of_ne_nil hp
  rw [splitUpTo]
  split
  · next rest heq => exact absurd ⟨rest, (after?_eq_some_iff.1 heq).symm⟩ hnot
  · rfl

/-! ### The pieces -/

/-- A text begins with `p` only if its first occurrence is there. -/
theorem not_isPrefix_of_first (h : ¬ p <:+: c :: q ++ p.dropLast) : ¬ p <+: c :: q ++ (p ++ rest) := by
  intro hstart
  have hinit : p.dropLast <+: p ++ rest := (List.dropLast_prefix p).trans (List.prefix_append p rest)
  have hlength : p.length ≤ (c :: q ++ p.dropLast).length := by
    simp only [List.length_append, List.length_cons, List.length_dropLast]
    omega
  have hshort : p <+: c :: q ++ p.dropLast :=
    List.prefix_of_prefix_length_le hstart ((List.prefix_append_right_inj _).2 hinit) hlength
  exact h hshort.isInfix

/-- The piece in front of the first occurrence is cut off. -/
theorem splitUpTo_first (hp : p ≠ []) (h : ¬ p <:+: q ++ p.dropLast) :
    splitUpTo (n + 1) p (q ++ (p ++ rest)) = q :: splitUpTo n p rest := by
  induction q with
  | nil => exact splitUpTo_found hp
  | cons c q ih =>
    have hq : ¬ p <:+: q ++ p.dropLast := fun hq => h (hq.trans (List.suffix_cons c _).isInfix)
    have hskip : ¬ p <+: c :: q ++ (p ++ rest) := not_isPrefix_of_first h
    rw [List.cons_append] at hskip ⊢
    rw [splitUpTo_skip hp hskip, ih hq, consHead]

theorem splitUpTo_of_absent (hp : p ≠ []) (h : ¬ p <:+: cs) : splitUpTo n p cs = [cs] := by
  cases n with
  | zero => exact splitUpTo_zero p cs
  | succ n =>
    induction cs with
    | nil => exact splitUpTo_nil hp (n + 1)
    | cons c cs ih =>
      rw [List.infix_cons_iff, not_or] at h
      rw [splitUpTo_skip hp h.1, ih h.2, consHead]

theorem Pieces.ne_nil (h : Pieces p cs qs) : qs ≠ [] := by
  cases h <;> exact List.cons_ne_nil _ _

theorem intercalate_cons (hqs : qs ≠ []) (new q : List Char) :
    List.intercalate new (q :: qs) = q ++ (new ++ List.intercalate new qs) := by
  obtain ⟨q', qs, rfl⟩ := List.exists_cons_of_ne_nil hqs
  rw [List.intercalate_cons_cons, List.append_assoc]

/-- With the separator between them, the pieces are the text again. -/
theorem Pieces.intercalate_eq (h : Pieces p cs qs) : List.intercalate p qs = cs := by
  induction h with
  | last => exact List.intercalate_singleton
  | next _ hrest ih => rw [intercalate_cons hrest.ne_nil, ih]

theorem Pieces.length_le (hp : p ≠ []) (h : Pieces p cs qs) : qs.length ≤ cs.length + 1 := by
  induction h with
  | last => exact Nat.le_add_left 1 _
  | next _ _ ih =>
    have hpos := List.length_pos_iff.2 hp
    simp only [List.length_cons, List.length_append]
    omega

/-- A text that contains `p` has a first occurrence of it. -/
theorem exists_first (hp : p ≠ []) (h : p <:+: cs) :
    ∃ q rest, cs = q ++ (p ++ rest) ∧ ¬ p <:+: q ++ p.dropLast := by
  induction cs with
  | nil => exact absurd (List.infix_nil.1 h) hp
  | cons c cs ih =>
    by_cases hstart : p <+: c :: cs
    · obtain ⟨rest, hrest⟩ := hstart
      have hshort : p.dropLast.length < p.length := by
        rw [List.length_dropLast]
        exact Nat.sub_one_lt (List.length_pos_iff.2 hp).ne'
      exact ⟨[], rest, hrest.symm, fun hin => Nat.not_le.2 hshort hin.length_le⟩
    · obtain ⟨q, rest, rfl, hfirst⟩ := ih ((List.infix_cons_iff.1 h).resolve_left hstart)
      refine ⟨c :: q, rest, rfl, fun hin => ?_⟩
      rw [List.cons_append, List.infix_cons_iff] at hin
      have hinit : q ++ p.dropLast <+: q ++ (p ++ rest) :=
        (List.prefix_append_right_inj q).2 ((List.dropLast_prefix p).trans (List.prefix_append p rest))
      rcases hin with hpre | hin
      · exact hstart (hpre.trans ((List.prefix_cons_inj c).2 hinit))
      · exact hfirst hin

theorem exists_pieces (hp : p ≠ []) (cs : List Char) : ∃ qs, Pieces p cs qs := by
  by_cases h : p <:+: cs
  · obtain ⟨q, rest, rfl, hfirst⟩ := exists_first hp h
    obtain ⟨qs, hqs⟩ := exists_pieces hp rest
    exact ⟨q :: qs, .next hfirst hqs⟩
  · exact ⟨[cs], .last h⟩
termination_by cs.length
decreasing_by
  subst_vars
  have hpos := List.length_pos_iff.2 hp
  simp only [List.length_append]
  omega

/-- Where only the first separators count, what follows them stays in one piece. -/
theorem Pieces.splitUpTo_eq (hp : p ≠ []) (h : Pieces p cs qs) (n : Nat) :
    splitUpTo n p cs =
      qs.take (min n (qs.length - 1)) ++ [List.intercalate p (qs.drop (min n (qs.length - 1)))] := by
  induction h generalizing n with
  | last hnot =>
    rw [splitUpTo_of_absent hp hnot]
    simp
  | @next q rest qs hfirst hrest ih =>
    cases n with
    | zero =>
      rw [splitUpTo_zero, ← (Pieces.next hfirst hrest).intercalate_eq]
      simp
    | succ n =>
      have hpos := List.length_pos_iff.2 hrest.ne_nil
      have hmin : min (n + 1) ((q :: qs).length - 1) = min n (qs.length - 1) + 1 := by
        rw [List.length_cons]
        omega
      rw [splitUpTo_first hp hfirst, ih, hmin]
      rfl

theorem Pieces.splitUpTo_all (hp : p ≠ []) (h : Pieces p cs qs) (hn : qs.length - 1 ≤ n) :
    splitUpTo n p cs = qs := by
  have hlast : qs.drop (qs.length - 1) = [qs.getLast h.ne_nil] := List.drop_length_sub_one h.ne_nil
  rw [h.splitUpTo_eq hp, Nat.min_eq_right hn, ← List.dropLast_eq_take, hlast, List.intercalate_singleton,
    List.dropLast_concat_getLast]

/-- The pieces are those that splitting gives. -/
theorem Pieces.split_eq (hp : p ≠ []) (h : Pieces p cs qs) : split p cs = qs := by
  have hlength := h.length_le hp
  exact h.splitUpTo_all hp (by omega)

/-! ### Replacing -/

theorem cutEach_ne_nil (n : Nat) (cs : List Char) : cutEach n cs ≠ [] := by
  cases n <;> cases cs <;> exact List.cons_ne_nil _ _

theorem consHead_ne_nil (c : Char) (qs : List (List Char)) : consHead c qs ≠ [] := by
  cases qs <;> exact List.cons_ne_nil _ _

theorem splitUpTo_ne_nil (n : Nat) (p cs : List Char) : splitUpTo n p cs ≠ [] := by
  fun_cases splitUpTo n p cs <;> simp [consHead_ne_nil]

theorem intercalate_consHead (hqs : qs ≠ []) (new : List Char) (c : Char) :
    List.intercalate new (consHead c qs) = c :: List.intercalate new qs := by
  obtain ⟨q, qs, rfl⟩ := List.exists_cons_of_ne_nil hqs
  cases qs with
  | nil => rw [consHead, List.intercalate_singleton, List.intercalate_singleton]
  | cons q' qs => rw [consHead, List.intercalate_cons_cons, List.intercalate_cons_cons]; rfl

theorem copyEach_eq (new : List Char) (n : Nat) (cs : List Char) :
    copyEach new n cs = List.intercalate new (cutEach n cs) := by
  induction n generalizing cs with
  | zero => exact List.intercalate_singleton.symm
  | succ n ih =>
    cases cs with
    | nil => exact List.intercalate_singleton.symm
    | cons c cs =>
      rw [copyEach, cutEach, ih, intercalate_cons (cutEach_ne_nil n cs)]
      rfl

/-- Replacing the first occurrences of a text puts the new text between the pieces that splitting gives. -/
theorem replaceUpTo_eq (n : Nat) (p new cs : List Char) :
    replaceUpTo n p new cs = List.intercalate new (splitUpTo n p cs) := by
  fun_induction replaceUpTo n p new cs with
  | case1 p cs => rw [splitUpTo_zero, List.intercalate_singleton]
  | case2 n cs => rw [splitUpTo, intercalate_cons (cutEach_ne_nil n cs), copyEach_eq, List.nil_append]
  | case3 n d p => rw [splitUpTo, List.intercalate_singleton]
  | case4 n d p c cs rest hfound ih =>
    rw [after?_eq_some_iff.1 hfound, splitUpTo_found (List.cons_ne_nil d p), ih,
      intercalate_cons (splitUpTo_ne_nil n (d :: p) rest), List.nil_append]
  | case5 n d p c cs hnone ih =>
    rw [splitUpTo_skip (List.cons_ne_nil d p) (after?_eq_none_iff.1 hnone), ih,
      intercalate_consHead (splitUpTo_ne_nil (n + 1) (d :: p) cs)]

theorem replace_eq (p new cs : List Char) : replace p new cs = List.intercalate new (split p cs) :=
  replaceUpTo_eq ..

/-- A separator of one character can be told from everything that does not contain it. -/
theorem pieces_intercalate {c : Char} (hne : qs ≠ []) (h : ∀ q ∈ qs, ¬ [c] <:+: q) :
    Pieces [c] (List.intercalate [c] qs) qs := by
  induction qs with
  | nil => exact absurd rfl hne
  | cons q qs ih =>
    obtain ⟨hq, hqs⟩ := List.forall_mem_cons.1 h
    cases qs with
    | nil =>
      rw [List.intercalate_singleton]
      exact .last hq
    | cons q' qs =>
      rw [List.intercalate_cons_cons, List.append_assoc]
      exact .next (by simpa using hq) (ih (List.cons_ne_nil _ _) hqs)

end Stencil.Text
