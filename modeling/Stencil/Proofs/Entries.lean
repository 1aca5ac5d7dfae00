import Mathlib.Data.List.Induction
import Mathlib.Data.List.Nodup
import Stencil.Entries

/-! Finite maps: what is found in them after names are bound, and what they list. -/
namespace Stencil.Entries

variable {α β : Type} {k : String} {v : α} {es es' : Entries α} {names names' : List String}
  {pairs : List (String × α)}

/-! ### Binding names in turn -/

/-- `v` was put under `k`, and nothing after it. -/
def Last (pairs : List (String × α)) (k : String) (v : α) : Prop :=
  ∃ before after, pairs = before ++ (k, v) :: after ∧ ∀ p ∈ after, p.1 ≠ k

theorem not_last_nil : ¬ Last ([] : List (String × α)) k v := by
  rintro ⟨before, after, h, -⟩
  simp at h

theorem last_concat {p : String × α} :
    Last (pairs ++ [p]) k v ↔ p = (k, v) ∨ p.1 ≠ k ∧ Last pairs k v := by
  constructor
  · rintro ⟨before, after, hpairs, hafter⟩
    rcases List.eq_nil_or_concat after with rfl | ⟨after, q, rfl⟩
    · obtain ⟨-, hlast⟩ := List.append_inj' hpairs rfl
      exact .inl (List.cons.inj hlast).1
    · rw [List.concat_eq_append, ← List.cons_append, ← List.append_assoc] at hpairs
      obtain ⟨rfl, hlast⟩ := List.append_inj' hpairs rfl
      obtain rfl := (List.cons.inj hlast).1
      rw [List.concat_eq_append, List.forall_mem_append] at hafter
      exact .inr ⟨hafter.2 p (List.mem_singleton_self p), before, after, rfl, hafter.1⟩
  · rintro (rfl | ⟨hp, before, after, rfl, hafter⟩)
    · exact ⟨pairs, [], rfl, by simp⟩
    · refine ⟨before, after ++ [p], by simp, ?_⟩
      intro q hq
      rcases List.mem_append.1 hq with hq | hq
      · exact hafter q hq
      · obtain rfl := List.mem_singleton.1 hq
        exact hp

theorem exists_last (h : k ∈ pairs.map Prod.fst) : ∃ v, Last pairs k v := by
  induction pairs using List.reverseRecOn with
  | nil => cases h
  | append_singleton pairs p ih =>
    simp only [last_concat]
    by_cases hk : p.1 = k
    · exact ⟨p.2, .inl (Prod.ext hk rfl)⟩
    · have hmem : k ∈ pairs.map Prod.fst := by simpa [Ne.symm hk] using h
      obtain ⟨v, hv⟩ := ih hmem
      exact ⟨v, .inr ⟨hk, hv⟩⟩

/-- Names that are bound in turn have their last values, and all others what they had. -/
theorem get?_insertAll : get? k (es.insertAll pairs) = some v ↔
    Last pairs k v ∨ k ∉ pairs.map Prod.fst ∧ get? k es = some v := by
  induction pairs using List.reverseRecOn with
  | nil => simp [insertAll, not_last_nil]
  | append_singleton pairs p ih =>
    obtain ⟨name, w⟩ := p
    have hconcat : es.insertAll (pairs ++ [(name, w)]) = (es.insertAll pairs).insert name w :=
      List.foldl_append
    rw [hconcat, last_concat]
    by_cases hk : k = name
    · subst hk
      simp
    · rw [get?_insert_of_ne hk, ih]
      simp [hk, Ne.symm hk]

/-- A list of pairs makes a map of the last value under each name. -/
theorem get?_ofList : get? k (ofList pairs) = some v ↔ Last pairs k v := by
  rw [ofList, get?_insertAll, get?_empty]
  simp

/-! ### Listing entries -/

theorem mem_along : (k, v) ∈ es.along names ↔ k ∈ names ∧ get? k es = some v := by
  simp only [along, List.mem_filterMap, Option.map_eq_some_iff, Prod.mk.injEq]
  constructor
  · rintro ⟨k, hk, v, hv, rfl, rfl⟩
    exact ⟨hk, hv⟩
  · rintro ⟨hk, hv⟩
    exact ⟨k, hk, v, hv, rfl, rfl⟩

theorem along_cons (h : k ∈ es.names) (names : List String) :
    es.along (k :: names) = (k, es.value k h) :: es.along names := by
  rw [along, List.filterMap_cons, get?_of_mem h]
  rfl

theorem fst_along (h : ∀ k ∈ names, k ∈ es.names) : (es.along names).map Prod.fst = names := by
  induction names with
  | nil => rfl
  | cons k names ih =>
    obtain ⟨hk, hnames⟩ := List.forall_mem_cons.1 h
    rw [along_cons hk, List.map_cons, ih hnames]

theorem fst_toList : es.toList.map Prod.fst = es.names := fst_along fun _ h => h

theorem mem_toList : (k, v) ∈ es.toList ↔ get? k es = some v := by
  rw [toList, mem_along]
  exact and_iff_right_of_imp mem_of_get?

theorem along_map (f : α → β) (names : List String) :
    (es.map f).along names = (es.along names).map fun e => (e.1, f e.2) := by
  simp only [along, List.map_filterMap, get?_map, Option.map_map]
  rfl

theorem ascending_perm (names : List String) : (ascending names).Perm names := List.mergeSort_perm ..

theorem pairwise_ascending (names : List String) : (ascending names).Pairwise (· ≤ ·) := by
  have hsorted : (ascending names).Pairwise fun a b => decide (a ≤ b) = true := by
    apply List.pairwise_mergeSort
    · intro a b c hab hbc
      exact decide_eq_true (String.le_trans (of_decide_eq_true hab) (of_decide_eq_true hbc))
    · intro a b
      rcases String.le_total a b with hab | hba
      · rw [decide_eq_true hab, Bool.true_or]
      · rw [decide_eq_true hba, Bool.or_true]
  exact hsorted.imp fun h => of_decide_eq_true h

/-- Sorting forgets the order in which names stood. -/
theorem ascending_eq (h : names.Perm names') : ascending names = ascending names' := by
  have hperm : (ascending names).Perm (ascending names') :=
    (ascending_perm names).trans (h.trans (ascending_perm names').symm)
  exact hperm.eq_of_pairwise (fun _ _ _ _ => String.le_antisymm) (pairwise_ascending names)
    (pairwise_ascending names')

theorem fst_sorted : es.sorted.map Prod.fst = ascending es.names :=
  fst_along fun _ h => (ascending_perm es.names).mem_iff.1 h

theorem mem_sorted : (k, v) ∈ es.sorted ↔ get? k es = some v := by
  rw [sorted, mem_along, (ascending_perm es.names).mem_iff]
  exact and_iff_right_of_imp mem_of_get?

theorem pairwise_sorted : (es.sorted.map Prod.fst).Pairwise (· < ·) := by
  have hdistinct : (ascending es.names).Nodup := (ascending_perm es.names).nodup_iff.2 es.distinct
  rw [fst_sorted]
  refine (pairwise_ascending es.names).imp₂ (fun a b hle hne => ?_) hdistinct
  exact String.not_le.1 fun hge => hne (String.le_antisymm hle hge)

theorem length_sorted : es.sorted.length = es.length := by
  rw [← List.length_map (f := Prod.fst), fst_sorted, (ascending_perm es.names).length_eq]
  rfl

theorem sorted_map (f : α → β) : (es.map f).sorted = es.sorted.map fun e => (e.1, f e.2) :=
  along_map f (ascending es.names)

/-- Maps in which the same names are found have the same names. -/
theorem names_perm {es' : Entries β} (h : ∀ k, (get? k es).isSome = (get? k es').isSome) :
    es.names.Perm es'.names := by
  refine (List.perm_ext_iff_of_nodup es.distinct es'.distinct).2 fun k => ?_
  apply not_iff_not.1
  rw [← get?_eq_none, ← get?_eq_none, ← Option.isNone_iff_eq_none, ← Option.isNone_iff_eq_none,
    ← Option.not_isSome, ← Option.not_isSome, h]

/-- Maps in which the same is found list the same entries. -/
theorem sorted_eq (h : ∀ k, get? k es = get? k es') : es.sorted = es'.sorted := by
  have hnames : ascending es.names = ascending es'.names := ascending_eq (names_perm fun k => by rw [h])
  rw [sorted, sorted, hnames, along, along]
  simp only [h]

theorem last_of_nodup (h : (pairs.map Prod.fst).Nodup) : Last pairs k v ↔ (k, v) ∈ pairs := by
  constructor
  · rintro ⟨before, after, rfl, -⟩
    exact List.mem_append_right _ (.head _)
  · intro hmem
    obtain ⟨before, after, rfl⟩ := List.append_of_mem hmem
    refine ⟨before, after, rfl, fun p hp hk => ?_⟩
    rw [List.map_append, List.map_cons] at h
    have hbehind := (List.nodup_cons.1 (List.nodup_append.1 h).2.1).1
    exact hbehind (hk ▸ List.mem_map.2 ⟨p, hp, rfl⟩)

/-- A map is made again of the entries that it lists. -/
theorem get?_ofList_sorted (k : String) (es : Entries α) : get? k (ofList es.sorted) = get? k es := by
  have hdistinct : (es.sorted.map Prod.fst).Nodup := by
    rw [fst_sorted]
    exact (ascending_perm es.names).nodup_iff.2 es.distinct
  ext v
  rw [get?_ofList, last_of_nodup hdistinct, mem_sorted]

theorem length_ofList_sorted (es : Entries α) : (ofList es.sorted).length = es.length :=
  (names_perm fun k => by rw [get?_ofList_sorted]).length_eq

/-! ### Updates -/

section
variable {changes : Entries (Option α → α)}

/-- A step of an update: the value under one name is changed, or added. -/
def change (es : Entries α) (p : String × (Option α → α)) : Entries α := es.insert p.1 (p.2 (get? p.1 es))

theorem update_eq_foldl (es : Entries α) (changes : Entries (Option α → α)) :
    es.update changes = (changes.along changes.names).foldl change es := rfl

/-- Each name is changed once, so that its change meets the value that the map had. -/
theorem get?_foldl_change (hdistinct : names.Nodup) (hnames : ∀ j ∈ names, j ∈ changes.names) :
    get? k ((changes.along names).foldl change es) =
      if k ∈ names then (get? k changes).map fun f => f (get? k es) else get? k es := by
  induction names generalizing es with
  | nil => rfl
  | cons j names ih =>
    obtain ⟨hj, hnames⟩ := List.forall_mem_cons.1 hnames
    obtain ⟨hnot, hdistinct⟩ := List.nodup_cons.1 hdistinct
    rw [along_cons hj, List.foldl_cons, ih hdistinct hnames, change]
    by_cases hk : k = j
    · subst hk
      rw [if_neg hnot, if_pos (.head _), get?_insert_self, get?_of_mem hj]
      rfl
    · rw [get?_insert_of_ne hk]
      simp [hk]

theorem names_foldl_change (hdistinct : names.Nodup) (hnames : ∀ j ∈ names, j ∈ changes.names) :
    ((changes.along names).foldl change es).names = es.names ++ names.filter (· ∉ es.names) := by
  induction names generalizing es with
  | nil => exact (List.append_nil _).symm
  | cons j names ih =>
    obtain ⟨hj, hnames⟩ := List.forall_mem_cons.1 hnames
    obtain ⟨hnot, hdistinct⟩ := List.nodup_cons.1 hdistinct
    have hnames' : (change es (j, changes.value j hj)).names = namesWith j es.names := rfl
    rw [along_cons hj, List.foldl_cons, ih hdistinct hnames, hnames', namesWith]
    split
    · next hmem => simp [hmem]
    · next hnew =>
      have hrest : names.filter (· ∉ es.names ++ [j]) = names.filter (· ∉ es.names) := by
        refine List.filter_congr fun i hi => ?_
        have hne : i ≠ j := by
          rintro rfl
          exact hnot hi
        simp [hne]
      rw [hrest, List.filter_cons_of_pos (by simpa using hnew), List.append_assoc]
      rfl

theorem get?_update : get? k (es.update changes) =
    match get? k changes with
    | some f => some (f (get? k es))
    | none => get? k es := by
  rw [update_eq_foldl, get?_foldl_change changes.distinct fun _ h => h]
  split
  · next hk => rw [get?_of_mem hk]; rfl
  · next hk => rw [get?_eq_none.2 hk]

/-- The names of a map come before those that an update adds. -/
theorem names_update : (es.update changes).names = es.names ++ changes.names.filter (· ∉ es.names) :=
  names_foldl_change changes.distinct fun _ h => h

end

end Stencil.Entries
