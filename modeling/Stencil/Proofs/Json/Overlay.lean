import Stencil.Json.Basic
import Stencil.Proofs.Entries

/-! One document laid over another. What lies on top wins where it says something, and all else shows
through. -/
namespace Stencil.Json

variable {b o v : Json} {es known : Entries Json} {k : String}

/-- Objects are what a merge goes into. -/
def IsObject (j : Json) : Prop := ∃ es, j = object es

/-- The value that a path of keys leads to. -/
def at? : Json → List String → Option Json
  | j, [] => some j
  | object es, k :: ks => (Entries.get? k es).bind fun j => at? j ks
  | _, _ :: _ => none

@[simp] theorem at?_nil (j : Json) : j.at? [] = some j := by
  simp [at?]

@[simp] theorem at?_object_cons (es : Entries Json) (k : String) (ks : List String) :
    (object es).at? (k :: ks) = (Entries.get? k es).bind fun j => j.at? ks := by
  simp [at?]

theorem isObject_of_at? {j : Json} {ks : List String} (h : j.at? (k :: ks) = some v) : j.IsObject := by
  cases j with
  | object es => exact ⟨es, rfl⟩
  | _ => simp [at?] at h

/-- Induction that goes into the members of objects. -/
@[elab_as_elim]
theorem byMembers {P : Json → Prop} (other : ∀ j : Json, ¬ j.IsObject → P j)
    (object : ∀ es : Entries Json, (∀ k j, Entries.get? k es = some j → P j) → P (object es)) (j : Json) :
    P j := by
  refine @Json.rec P (fun _ => True) (fun es => ∀ k j, Entries.get? k es = some j → P j)
    ?_ ?_ ?_ ?_ ?_ ?_ object trivial (fun _ _ _ _ => trivial) ?_ j
  case refine_7 =>
    intro names distinct member ih
    exact Entries.forall_get?.2 ih
  -- What is left are the documents without members.
  all_goals
    intros
    apply other
    rintro ⟨es, hes⟩
    cases hes

/-! ### Merging -/

theorem merge_object (known es : Entries Json) :
    merge (object known) (object es) = object (known.update (mergeEntries es)) := by
  rw [merge]

/-- Only objects are merged. -/
theorem merge_eq_of_not_objects (h : ¬ (b.IsObject ∧ o.IsObject)) : merge b o = o := by
  cases o with
  | object es =>
    cases b with
    | object known => exact absurd ⟨⟨known, rfl⟩, es, rfl⟩ h
    | _ => rw [merge]; simp
  | _ => rw [merge]; simp

/-- What two layers say together. -/
def mergeFound : Option Json → Option Json → Option Json
  | some b, some o => some (merge b o)
  | none, some o => some o
  | b, none => b

theorem mergeFound_none (found : Option Json) : mergeFound found none = found := by
  cases found <;> rfl

theorem names_mergeEntries (es : Entries Json) : (mergeEntries es).names = es.names := by
  cases es
  rw [mergeEntries]

theorem get?_mergeEntries (es : Entries Json) (k : String) :
    Entries.get? k (mergeEntries es) =
      (Entries.get? k es).map fun upper covered => (covered.map fun base => merge base upper).getD upper := by
  obtain ⟨names, distinct, member⟩ := es
  rw [mergeEntries, Entries.get?, Entries.get?]
  split
  · apply congrArg some
    funext covered
    cases covered <;> rfl
  · rfl

/-- Each key of the upper layer is merged with what is under it below. -/
theorem get?_merged (known es : Entries Json) (k : String) :
    Entries.get? k (known.update (mergeEntries es)) = mergeFound (Entries.get? k known) (Entries.get? k es) := by
  rw [Entries.get?_update, get?_mergeEntries]
  cases Entries.get? k es with
  | none => exact (mergeFound_none _).symm
  | some upper => cases Entries.get? k known <;> rfl

theorem names_merged (known es : Entries Json) :
    (known.update (mergeEntries es)).names = known.names ++ es.names.filter (· ∉ known.names) := by
  rw [Entries.names_update, names_mergeEntries]

/-- What objects merge to, told by its names and by what is found under each of them. -/
theorem merge_object_eq {out : Entries Json}
    (hnames : known.names ++ es.names.filter (· ∉ known.names) = out.names)
    (h : ∀ k, mergeFound (Entries.get? k known) (Entries.get? k es) = Entries.get? k out) :
    merge (object known) (object es) = object out := by
  rw [merge_object]
  refine congrArg object (Entries.ext_get? ((names_merged known es).trans hnames) fun k => ?_)
  rw [get?_merged, h]

/-- An upper layer that brings no key of its own. -/
theorem merge_object_self (hnames : ∀ k ∈ es.names, k ∈ known.names)
    (h : ∀ k, mergeFound (Entries.get? k known) (Entries.get? k es) = Entries.get? k known) :
    merge (object known) (object es) = object known := by
  have hnone : es.names.filter (· ∉ known.names) = [] := by simpa using hnames
  exact merge_object_eq (by rw [hnone, List.append_nil]) h

theorem merge_empty (es : Entries Json) : merge (object es) (object .empty) = object es :=
  merge_object_self (fun _ hk => absurd hk List.not_mem_nil) fun _ => mergeFound_none _

theorem merge_bare (o : Json) : merge (object .empty) o = o := by
  cases o with
  | object es =>
    refine merge_object_eq (List.filter_eq_self.2 fun _ _ => rfl) fun k => ?_
    cases Entries.get? k es <;> rfl
  | _ => rw [merge]; simp

/-- Nothing changes where a document is laid over itself. -/
theorem merge_self (o : Json) : merge o o = o := by
  induction o using byMembers with
  | other o h => exact merge_eq_of_not_objects fun hobjects => h hobjects.1
  | object es ih =>
    refine merge_object_self (fun _ hk => hk) fun k => ?_
    cases hk : Entries.get? k es with
    | none => rfl
    | some u => rw [mergeFound, ih k u hk]

/-- Laying a document over another twice is as good as once. -/
theorem merge_merge (b o : Json) : merge (merge b o) o = merge b o := by
  induction o using byMembers generalizing b with
  | other o h =>
    rw [merge_eq_of_not_objects (b := b) fun hobjects => h hobjects.2]
    exact merge_self o
  | object es ih =>
    by_cases hobject : b.IsObject
    · obtain ⟨known, rfl⟩ := hobject
      rw [merge_object]
      apply merge_object_self
      · intro k hk
        rw [names_merged, List.mem_append, List.mem_filter]
        by_cases hknown : k ∈ known.names
        · exact .inl hknown
        · exact .inr ⟨hk, decide_eq_true hknown⟩
      · intro k
        rw [get?_merged]
        cases hk : Entries.get? k es with
        | none => exact mergeFound_none _
        | some u =>
          cases Entries.get? k known with
          | none => rw [mergeFound, mergeFound, merge_self]
          | some w => rw [mergeFound, mergeFound, ih k u hk]
    · rw [merge_eq_of_not_objects fun h => hobject h.1]
      exact merge_self _

/-! ### Paths -/

theorem at?_merge_object (known es : Entries Json) (k : String) (ks : List String) :
    (merge (object known) (object es)).at? (k :: ks) =
      (mergeFound (Entries.get? k known) (Entries.get? k es)).bind fun j => j.at? ks := by
  rw [merge_object, at?_object_cons, get?_merged]

/-- Whatever the upper layer holds that is no object stands in the result. -/
theorem at?_merge_of_upper {path : List String} (h : o.at? path = some v) (hv : ¬ v.IsObject) :
    (merge b o).at? path = some v := by
  induction path generalizing b o with
  | nil =>
    obtain rfl : o = v := by simpa using h
    simp [merge_eq_of_not_objects fun hobjects => hv hobjects.2]
  | cons k ks ih =>
    by_cases hobject : b.IsObject
    · obtain ⟨known, rfl⟩ := hobject
      obtain ⟨es, rfl⟩ := isObject_of_at? h
      rw [at?_object_cons] at h
      obtain ⟨u, hu, hat⟩ := Option.bind_eq_some_iff.1 h
      rw [at?_merge_object, hu]
      cases Entries.get? k known with
      | none => simpa [mergeFound] using hat
      | some w => simpa [mergeFound] using ih hat
    · rwa [merge_eq_of_not_objects fun hobjects => hobject hobjects.1]

/-- Where the upper layer lacks a key of an object, the lower one shows through with all that is under it. -/
theorem at?_merge_of_missing {path : List String} (hb : b.at? path = some (object known))
    (h : o.at? path = some (object es)) (hk : Entries.get? k es = none) (rest : List String) :
    (merge b o).at? (path ++ k :: rest) = b.at? (path ++ k :: rest) := by
  induction path generalizing b o with
  | nil =>
    obtain rfl : b = object known := by simpa using hb
    obtain rfl : o = object es := by simpa using h
    rw [List.nil_append, at?_merge_object, hk, mergeFound_none, at?_object_cons]
  | cons j path ih =>
    obtain ⟨bs, rfl⟩ := isObject_of_at? hb
    obtain ⟨os, rfl⟩ := isObject_of_at? h
    rw [at?_object_cons] at hb h
    obtain ⟨w, hw, hb⟩ := Option.bind_eq_some_iff.1 hb
    obtain ⟨u, hu, h⟩ := Option.bind_eq_some_iff.1 h
    rw [List.cons_append, at?_merge_object, at?_object_cons, hw, hu]
    exact ih hb h

/-- `m` is `o` laid over `b`. -/
structure Overlays (b o m : Json) : Prop where
  again : merge m o = m
  upper : ∀ {path v}, o.at? path = some v → ¬ v.IsObject → m.at? path = some v
  missing : ∀ {path known es k}, b.at? path = some (object known) → o.at? path = some (object es) →
    Entries.get? k es = none → ∀ rest, m.at? (path ++ k :: rest) = b.at? (path ++ k :: rest)

theorem overlays_merge (b o : Json) : Overlays b o (merge b o) where
  again := merge_merge b o
  upper := at?_merge_of_upper
  missing := at?_merge_of_missing

end Stencil.Json
