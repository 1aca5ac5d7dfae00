/-! Finite maps from names. -/
namespace Stencil

/-- A finite map: its names, each of them once, and the value of each. The names stand in the order in which they
came in; what needs an order of its own sorts them. -/
structure Entries (α : Type) where
  names : List String
  distinct : names.Nodup
  value : (name : String) → name ∈ names → α

namespace Entries

variable {α β : Type} {j k : String} {es es' : Entries α}

def get? (k : String) (es : Entries α) : Option α :=
  if h : k ∈ es.names then some (es.value k h) else none

def contains (es : Entries α) (k : String) : Bool := (get? k es).isSome

def length (es : Entries α) : Nat := es.names.length

def isEmpty (es : Entries α) : Bool := es.names.isEmpty

def empty : Entries α := ⟨[], List.nodup_nil, fun _ h => absurd h List.not_mem_nil⟩

instance : Inhabited (Entries α) := ⟨empty⟩

/-- The names of a map and one more, which comes last unless it is there already. -/
def namesWith (k : String) (names : List String) : List String := if k ∈ names then names else names ++ [k]

theorem mem_namesWith {names : List String} : j ∈ namesWith k names ↔ j = k ∨ j ∈ names := by
  rw [namesWith]
  split
  · next hk =>
    constructor
    · exact .inr
    · rintro (rfl | hj)
      · exact hk
      · exact hj
  · rw [List.mem_append, List.mem_singleton, or_comm]

theorem nodup_namesWith {names : List String} (h : names.Nodup) (k : String) : (namesWith k names).Nodup := by
  rw [namesWith]
  split
  · exact h
  · next hk =>
    refine List.nodup_append.2 ⟨h, List.pairwise_singleton .., fun a ha b hb heq => hk ?_⟩
    rwa [← List.mem_singleton.1 hb, ← heq]

/-- Binds a name, in place of its old value if it has one. -/
def insert (k : String) (v : α) (es : Entries α) : Entries α where
  names := namesWith k es.names
  distinct := nodup_namesWith es.distinct k
  value j h := if hj : j = k then v else es.value j ((mem_namesWith.1 h).resolve_left hj)

/-- Binds the names of a list in turn, so that the last value of a name counts. -/
def insertAll (es : Entries α) (pairs : List (String × α)) : Entries α :=
  pairs.foldl (fun es p => es.insert p.1 p.2) es

def ofList (pairs : List (String × α)) : Entries α := insertAll empty pairs

def map (f : α → β) (es : Entries α) : Entries β := ⟨es.names, es.distinct, fun k h => f (es.value k h)⟩

/-- The entries under the names of a list, in its order. -/
def along (names : List String) (es : Entries α) : List (String × α) :=
  names.filterMap fun k => (get? k es).map fun v => (k, v)

/-- The entries in the order in which they came in. -/
def toList (es : Entries α) : List (String × α) := es.along es.names

/-- Names in ascending order. -/
def ascending (names : List String) : List String := names.mergeSort fun a b => decide (a ≤ b)

/-- The entries in ascending order of their names. -/
def sorted (es : Entries α) : List (String × α) := es.along (ascending es.names)

/-- Changes or adds the value under each name of `changes`. -/
def update (es : Entries α) (changes : Entries (Option α → α)) : Entries α :=
  changes.toList.foldl (fun es p => es.insert p.1 (p.2 (get? p.1 es))) es

theorem get?_of_mem (h : k ∈ es.names) : get? k es = some (es.value k h) := dif_pos h

theorem get?_eq_none : get? k es = none ↔ k ∉ es.names := by
  rw [get?]
  split
  · next h => simp [h]
  · next h => simp [h]

theorem mem_of_get? {v : α} (h : get? k es = some v) : k ∈ es.names := by
  apply Decidable.byContradiction
  intro hk
  rw [get?_eq_none.2 hk] at h
  cases h

/-- What holds of everything that is found holds of the value of every name. -/
theorem forall_get? {p : String → α → Prop} :
    (∀ k v, get? k es = some v → p k v) ↔ ∀ k (h : k ∈ es.names), p k (es.value k h) := by
  constructor
  · intro hall k h
    exact hall k _ (get?_of_mem h)
  · intro hall k v hv
    have h := mem_of_get? hv
    rw [get?_of_mem h] at hv
    exact Option.some.inj hv ▸ hall k h

/-- Maps with the same names in the same order and the same value under each. -/
theorem ext_get? (hnames : es.names = es'.names) (h : ∀ k, get? k es = get? k es') : es = es' := by
  obtain ⟨names, distinct, value⟩ := es
  obtain ⟨names', distinct', value'⟩ := es'
  obtain rfl : names = names' := hnames
  congr
  funext k hk
  have hvalue := h k
  rw [get?_of_mem hk, get?_of_mem hk] at hvalue
  exact Option.some.inj hvalue

@[simp] theorem get?_empty (k : String) : get? k (empty : Entries α) = none := rfl

theorem isEmpty_iff : es.isEmpty = true ↔ es = empty := by
  constructor
  · intro h
    have hnames : es.names = [] := List.isEmpty_iff.1 h
    exact ext_get? hnames fun k => get?_eq_none.2 (by simp [hnames])
  · rintro rfl
    rfl

@[simp] theorem get?_insert_self (k : String) (v : α) (es : Entries α) : get? k (insert k v es) = some v := by
  rw [get?_of_mem (mem_namesWith.2 (.inl rfl))]
  exact congrArg some (dif_pos rfl)

theorem get?_insert_of_ne (h : j ≠ k) (v : α) (es : Entries α) : get? j (insert k v es) = get? j es := by
  by_cases hj : j ∈ es.names
  · rw [get?_of_mem hj, get?_of_mem (mem_namesWith.2 (.inr hj))]
    exact congrArg some (dif_neg h)
  · have hj' : j ∉ (insert k v es).names := fun hmem => hj ((mem_namesWith.1 hmem).resolve_left h)
    rw [get?_eq_none.2 hj, get?_eq_none.2 hj']

theorem get?_insert (j k : String) (v : α) (es : Entries α) :
    get? j (insert k v es) = if j = k then some v else get? j es := by
  split
  · next hjk => rw [hjk, get?_insert_self]
  · next hjk => rw [get?_insert_of_ne hjk]

@[simp] theorem get?_map (f : α → β) (k : String) (es : Entries α) : get? k (es.map f) = (get? k es).map f := by
  have hnames : (es.map f).names = es.names := rfl
  by_cases hk : k ∈ es.names
  · rw [get?_of_mem hk, get?_of_mem (hnames ▸ hk)]
    rfl
  · rw [get?_eq_none.2 hk, get?_eq_none.2 (hnames ▸ hk)]
    rfl

end Entries

end Stencil
