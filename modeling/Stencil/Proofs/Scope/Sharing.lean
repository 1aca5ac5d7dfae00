import Mathlib.Algebra.BigOperators.Group.Finset.Basic
import Mathlib.Algebra.Order.BigOperators.Group.Finset
import Stencil.Scope.Contexts

/-! Contexts that share frames, as if each had its own: changing one frame in place is seen by its only holder,
and all other changes go to new frames. -/
namespace Stencil.Contexts

/-- The bindings that a holder sees, the innermost first. -/
def view (s : Contexts) (h : Holder) : List (Entries Value) := (s.held h).map s.frames.bindings

/-- Every address that is held is in use, and counts as many holders as there are, or more. -/
structure Sound (s : Contexts) : Prop where
  lt_next : ∀ h, ∀ a ∈ s.held h, a < s.frames.next
  counted : ∀ (hs : Finset Holder) (a : Nat), ∑ h ∈ hs, (s.held h).count a ≤ s.frames.holders a

/-- Frames that go on from others: what was in use stays as it was, and the addresses `as` are counted
once more. -/
structure Extends (fs fs' : Frames) (as : List Nat) : Prop where
  next_le : fs.next ≤ fs'.next
  bindings_eq : ∀ a, a < fs.next → fs'.bindings a = fs.bindings a
  lt_next : ∀ a ∈ as, a < fs'.next
  holders_le : ∀ a, (if a < fs.next then fs.holders a else 0) + as.count a ≤ fs'.holders a

variable {s : Contexts} {h h' : Holder} {fs : Frames} {as bs : List Nat} {es : Entries Value}

theorem sound_start : start.Sound where
  lt_next h a ha := by simp [start] at ha
  counted hs a := by simp [start]

/-- An address that is not in use has no holders. -/
theorem Sound.sum_count (hs : s.Sound) (S : Finset Holder) (a : Nat) :
    ∑ h ∈ S, (s.held h).count a ≤ if a < s.frames.next then s.frames.holders a else 0 := by
  split
  · exact hs.counted S a
  · next hge =>
    apply Nat.le_of_eq
    apply Finset.sum_eq_zero
    intro h _
    exact List.count_eq_zero.2 fun ha => hge (hs.lt_next h a ha)

theorem held_assign_self : (s.assign h fs as).held h = as := if_pos rfl

theorem held_assign_of_ne (hne : h' ≠ h) : (s.assign h fs as).held h' = s.held h' := if_neg hne

theorem Sound.assign (hs : s.Sound) (hext : Extends s.frames fs as) : (s.assign h fs as).Sound where
  lt_next h' a ha := by
    show a < fs.next
    by_cases hh : h' = h
    · subst hh
      rw [held_assign_self] at ha
      exact hext.lt_next a ha
    · rw [held_assign_of_ne hh] at ha
      exact Nat.lt_of_lt_of_le (hs.lt_next h' a ha) hext.next_le
  counted S a := by
    show _ ≤ fs.holders a - (s.held h).count a
    have hnot : h ∉ S.erase h := Finset.notMem_erase h S
    have hsub : S ⊆ Finset.cons h (S.erase h) hnot := by
      intro h' hh'
      rw [Finset.mem_cons, Finset.mem_erase]
      by_cases hh : h' = h
      · exact .inl hh
      · exact .inr ⟨hh, hh'⟩
    -- Apart from `h` all hold what they held before.
    have hothers : ∑ h' ∈ S.erase h, ((s.assign h fs as).held h').count a =
        ∑ h' ∈ S.erase h, (s.held h').count a := by
      apply Finset.sum_congr rfl
      intro h' hh'
      rw [held_assign_of_ne (Finset.ne_of_mem_erase hh')]
    have hnew := Finset.sum_le_sum_of_subset (f := fun h' => ((s.assign h fs as).held h').count a) hsub
    rw [Finset.sum_cons, hothers, held_assign_self] at hnew
    have hold := hs.sum_count (Finset.cons h (S.erase h) hnot) a
    rw [Finset.sum_cons] at hold
    have hholders := hext.holders_le a
    omega

theorem view_assign_self : (s.assign h fs as).view h = as.map fs.bindings := by
  rw [view, held_assign_self]
  rfl

theorem Sound.view_assign_of_ne (hs : s.Sound) (hext : Extends s.frames fs as) (hne : h' ≠ h) :
    (s.assign h fs as).view h' = s.view h' := by
  rw [view, held_assign_of_ne hne]
  apply List.map_congr_left
  intro a ha
  exact hext.bindings_eq a (hs.lt_next h' a ha)

theorem extends_refl : Extends fs fs [] where
  next_le := Nat.le_refl _
  bindings_eq a _ := rfl
  lt_next a ha := by simp at ha
  holders_le a := by
    rw [List.count_nil, Nat.add_zero]
    split <;> omega

theorem extends_retain (has : ∀ a ∈ as, a < fs.next) : Extends fs (fs.retain as) as where
  next_le := Nat.le_refl _
  bindings_eq a _ := rfl
  lt_next := has
  holders_le a := by
    show _ ≤ fs.holders a + as.count a
    split <;> omega

/-- A new frame beside frames in use. -/
theorem extends_alloc (es : Entries Value) (has : ∀ a ∈ as, a < fs.next) (hbs : bs.Perm (fs.next :: as)) :
    Extends fs ((fs.alloc es).retain as) bs where
  next_le := Nat.le_succ _
  bindings_eq a ha := if_neg (Nat.ne_of_lt ha)
  lt_next a ha := by
    show a < fs.next + 1
    rcases List.mem_cons.1 (hbs.mem_iff.1 ha) with rfl | hold
    · exact Nat.lt_succ_self _
    · exact Nat.lt_succ_of_lt (has a hold)
  holders_le a := by
    show _ ≤ (if a = fs.next then 1 else fs.holders a) + as.count a
    rw [hbs.count_eq, List.count_cons]
    by_cases ha : a = fs.next
    · subst ha
      rw [if_neg (Nat.lt_irrefl _), if_pos (beq_self_eq_true _), if_pos rfl]
      omega
    · have hne : ¬ (fs.next == a) = true := fun heq => ha (eq_of_beq heq).symm
      rw [if_neg ha, if_neg hne]
      split <;> omega

theorem bindings_alloc : ((fs.alloc es).retain as).bindings fs.next = es := if_pos rfl

theorem map_alloc (has : ∀ a ∈ as, a < fs.next) :
    as.map ((fs.alloc es).retain bs).bindings = as.map fs.bindings := by
  apply List.map_congr_left
  intro a ha
  exact if_neg (Nat.ne_of_lt (has a ha))

/-- A holder that takes over a new frame and frames in use sees their bindings; nothing else changes. -/
structure Sets (s s' : Contexts) (h : Holder) (seen : List (Entries Value)) : Prop where
  sound : s'.Sound
  self : s'.view h = seen
  others : ∀ h', h' ≠ h → s'.view h' = s.view h'

theorem Sets.trans {s' s'' : Contexts} {seen seen' : List (Entries Value)} (h₁ : Sets s s' h seen)
    (h₂ : Sets s' s'' h seen') : Sets s s'' h seen' where
  sound := h₂.sound
  self := h₂.self
  others h' hne := (h₂.others h' hne).trans (h₁.others h' hne)

theorem Sound.sets_assign (hs : s.Sound) (hext : Extends s.frames fs as) :
    Sets s (s.assign h fs as) h (as.map fs.bindings) where
  sound := hs.assign hext
  self := view_assign_self
  others _ hne := hs.view_assign_of_ne hext hne

theorem Sound.sets_create (hs : s.Sound) : Sets s (s.create h es) h [es] := by
  have hnone : ∀ a ∈ ([] : List Nat), a < s.frames.next := fun _ ha => absurd ha List.not_mem_nil
  have hext : Extends s.frames (s.frames.alloc es) [s.frames.next] :=
    extends_alloc es hnone (List.Perm.refl _)
  have hsets := hs.sets_assign (h := h) hext
  rwa [List.map_singleton, show (s.frames.alloc es).bindings s.frames.next = es from if_pos rfl] at hsets

theorem Sound.sets_copy (hs : s.Sound) {c : Holder} :
    Sets s (s.assign h (s.frames.retain (s.held c)) (s.held c)) h (s.view c) :=
  hs.sets_assign (extends_retain (hs.lt_next c))

theorem Sound.sets_over (hs : s.Sound) {c : Holder} :
    Sets s (s.assign h ((s.frames.alloc es).retain (s.held c)) (s.frames.next :: s.held c)) h
      (es :: s.view c) := by
  have hsets := hs.sets_assign (h := h) (extends_alloc es (hs.lt_next c) (List.Perm.refl _))
  rwa [List.map_cons, bindings_alloc, map_alloc (hs.lt_next c)] at hsets

theorem Sound.sets_under (hs : s.Sound) {c : Holder} :
    Sets s (s.assign h ((s.frames.alloc es).retain (s.held c)) (s.held c ++ [s.frames.next])) h
      (s.view c ++ [es]) := by
  have hsets := hs.sets_assign (h := h)
    (extends_alloc es (hs.lt_next c) (List.perm_append_singleton ..))
  rwa [List.map_append, List.map_singleton, bindings_alloc, map_alloc (hs.lt_next c)] at hsets

theorem Sound.sets_both (hs : s.Sound) {c d : Holder} :
    Sets s (s.assign h (s.frames.retain (s.held c ++ s.held d)) (s.held c ++ s.held d)) h
      (s.view c ++ s.view d) := by
  have hin : ∀ a ∈ s.held c ++ s.held d, a < s.frames.next := by
    intro a ha
    rcases List.mem_append.1 ha with ha | ha
    · exact hs.lt_next c a ha
    · exact hs.lt_next d a ha
  have hsets := hs.sets_assign (h := h) (extends_retain hin)
  rwa [List.map_append] at hsets

/-- The only holder of a frame may change it in place. -/
theorem Sound.sets_write (hs : s.Sound) {a : Nat} (es : Entries Value) (hheld : s.held h = a :: as)
    (hone : s.frames.holders a = 1) :
    Sets s { s with frames := s.frames.write a es } h (es :: (s.view h).tail) := by
  have hcount : (s.held h).count a = 1 + as.count a := by
    rw [hheld, List.count_cons_self, Nat.add_comm]
  have has : a ∉ as := by
    have hle := hs.counted {h} a
    rw [Finset.sum_singleton] at hle
    exact List.count_eq_zero.1 (by omega)
  have hunseen : ∀ bs : List Nat, a ∉ bs →
      bs.map (s.frames.write a es).bindings = bs.map s.frames.bindings := by
    intro bs hbs
    apply List.map_congr_left
    intro b hb
    have hne : b ≠ a := by
      rintro rfl
      exact hbs hb
    exact if_neg hne
  constructor
  · exact ⟨hs.lt_next, hs.counted⟩
  · show (s.held h).map (s.frames.write a es).bindings = es :: ((s.held h).map s.frames.bindings).tail
    rw [hheld, List.map_cons, hunseen as has, show (s.frames.write a es).bindings a = es from if_pos rfl]
    rfl
  · intro h' hne
    have hle := hs.counted {h, h'} a
    rw [Finset.sum_pair hne.symm] at hle
    have hnone : (s.held h').count a = 0 := by omega
    exact hunseen _ (List.count_eq_zero.1 hnone)

theorem Sound.sets_modify (hs : s.Sound) {f : Entries Value → Entries Value} {rest : List (Entries Value)}
    (hview : s.view h = es :: rest) : Sets s (s.modify h f) h (f es :: rest) := by
  obtain ⟨a, as, hheld, rfl, rfl⟩ := List.map_eq_cons_iff.1 hview
  have has : ∀ b ∈ as, b < s.frames.next := by
    intro b hb
    exact hs.lt_next h b (hheld ▸ List.mem_cons_of_mem a hb)
  have hmodify : s.modify h f = if s.frames.holders a = 1 then
        { s with frames := s.frames.write a (f (s.frames.bindings a)) }
      else s.assign h ((s.frames.alloc (f (s.frames.bindings a))).retain as) (s.frames.next :: as) := by
    rw [modify, hheld]
  rw [hmodify]
  split
  · next hone =>
    have hsets := hs.sets_write (f (s.frames.bindings a)) hheld hone
    rwa [hview] at hsets
  · have hsets := hs.sets_assign (h := h)
      (extends_alloc (f (s.frames.bindings a)) has (List.Perm.refl _))
    rwa [List.map_cons, bindings_alloc, map_alloc has] at hsets

end Stencil.Contexts
