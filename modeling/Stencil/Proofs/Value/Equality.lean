import Mathlib.Data.List.Forall2
import Mathlib.Data.List.Perm.Subperm
import Stencil.Eval
import Stencil.Proofs.Decimal.Comparison
import Stencil.Proofs.Entries

/-! Equality of values. It is symmetric, and on values without floats it says that two values have the same
structure; the operators for equality and membership follow it. -/
namespace Stencil

namespace Value

/-- The parts of a value: itself, and the parts of what lists and maps inside of it hold. -/
inductive Part : Value → Value → Prop
  | self (v : Value) : Part v v
  | item {p v : Value} {items : List Value} : v ∈ items → Part p v → Part p (list items)
  | entry {p v : Value} {k : String} {entries : Entries Value} :
      Entries.get? k entries = some v → Part p v → Part p (map entries)

/-- No part is a float. -/
def Floatless (v : Value) : Prop := ∀ x, ¬ Part (float x) v

/-- The same structure: the same scalars, lists of equal length that agree item by item, maps with the same keys
that agree under each of them, and functions, methods and objects that are one and the same. -/
inductive SameStructure : Value → Value → Prop
  | null : SameStructure null null
  | bool (b : Bool) : SameStructure (bool b) (bool b)
  | int (n : Int64) : SameStructure (int n) (int n)
  | string (s : String) : SameStructure (string s) (string s)
  | list {as bs : List Value} : as.length = bs.length →
      (∀ (i : Nat) (ha : i < as.length) (hb : i < bs.length), SameStructure as[i] bs[i]) →
      SameStructure (list as) (list bs)
  | map {as bs : Entries Value} : (∀ k, k ∈ as.names ↔ k ∈ bs.names) →
      (∀ k v w, Entries.get? k as = some v → Entries.get? k bs = some w → SameStructure v w) →
      SameStructure (map as) (map bs)
  | function {f g : Function} : f.routine = g.routine → SameStructure (function f) (function g)
  | method (f g : Function) (v w : Value) (site : Site) : SameStructure (method f v site) (method g w site)
  | object {o p : Object} : o.number = p.number → SameStructure (object o) (object p)

variable {u v w : Value} {items : List Value} {entries : Entries Value}

theorem Floatless.item (h : Floatless (.list items)) (hv : v ∈ items) : v.Floatless :=
  fun x hx => h x (.item hv hx)

theorem Floatless.entry (h : Floatless (.map entries)) {k : String} (hv : Entries.get? k entries = some v) :
    v.Floatless := fun x hx => h x (.entry hv hx)

theorem Floatless.list (h : ∀ v ∈ items, v.Floatless) : Floatless (.list items) := by
  rintro x ⟨⟩
  exact h _ ‹_› x ‹_›

theorem Floatless.map (h : ∀ k v, Entries.get? k entries = some v → v.Floatless) :
    Floatless (.map entries) := by
  rintro x ⟨⟩
  exact h _ _ ‹_› x ‹_›

theorem floatless_int (n : Int64) : Floatless (.int n) := by
  rintro x ⟨⟩

theorem not_floatless (x : Float) : ¬ Floatless (.float x) := fun h => h x (.self _)

/-! ### Lists and maps -/

theorem sameItems_iff {as bs : List Value} :
    sameItems as bs = true ↔ as.length = bs.length ∧
      ∀ (i : Nat) (ha : i < as.length) (hb : i < bs.length), same as[i] bs[i] = true := by
  have hforall : sameItems as bs = true ↔ List.Forall₂ (fun a b => same a b = true) as bs := by
    induction as generalizing bs with
    | nil => cases bs <;> simp [sameItems]
    | cons a as ih => cases bs <;> simp [sameItems, ih]
  rw [hforall, List.forall₂_iff_get]
  rfl

/-- Maps are equal that have the same keys with equal values under them. -/
theorem sameEntries_iff_get? {as bs : Entries Value} : sameEntries as bs = true ↔
    (∀ k, k ∈ as.names ↔ k ∈ bs.names) ∧
      ∀ k v w, Entries.get? k as = some v → Entries.get? k bs = some w → same v w = true := by
  rw [sameEntries_iff]
  constructor
  · rintro ⟨hlength, hsame⟩
    have hsubset : as.names ⊆ bs.names := by
      intro k hk
      obtain ⟨w, hw, -⟩ := hsame k _ (Entries.get?_of_mem hk)
      exact Entries.mem_of_get? hw
    have hperm : as.names.Perm bs.names :=
      (List.subperm_of_subset as.distinct hsubset).perm_of_length_le (Nat.le_of_eq hlength.symm)
    refine ⟨fun k => hperm.mem_iff, fun k v w hv hw => ?_⟩
    obtain ⟨w', hw', hvw⟩ := hsame k v hv
    obtain rfl := Option.some.inj (hw.symm.trans hw')
    exact hvw
  · rintro ⟨hnames, hsame⟩
    have hperm : as.names.Perm bs.names := (List.perm_ext_iff_of_nodup as.distinct bs.distinct).2 hnames
    refine ⟨hperm.length_eq, fun k v hv => ?_⟩
    have hk : k ∈ bs.names := (hnames k).1 (Entries.mem_of_get? hv)
    exact ⟨_, Entries.get?_of_mem hk, hsame k v _ hv (Entries.get?_of_mem hk)⟩

/-! ### Symmetry -/

theorem same_symm (h : same v w = true) : same w v = true := by
  induction v using byParts generalizing w with
  | null =>
    cases w with
    | null => exact h
    | _ => cases h
  | int n =>
    cases w with
    | int m => rwa [same, BEq.comm]
    | float y => exact h
    | _ => cases h
  | float x =>
    cases w with
    | int n => exact h
    | float y => exact Decimal.beq_symm h
    | _ => cases h
  | bool b =>
    cases w with
    | bool c => rwa [same, BEq.comm]
    | _ => cases h
  | string s =>
    cases w with
    | string t => rwa [same, BEq.comm]
    | _ => cases h
  | list as ih =>
    cases w with
    | list bs =>
      rw [same, sameItems_iff] at h ⊢
      exact ⟨h.1.symm, fun i hb ha => ih _ (List.getElem_mem ha) (h.2 i ha hb)⟩
    | _ => cases h
  | map as ih =>
    cases w with
    | map bs =>
      rw [same, sameEntries_iff_get?] at h ⊢
      exact ⟨fun k => (h.1 k).symm, fun k w v hw hv => ih k v hv (h.2 k v w hv hw)⟩
    | _ => cases h
  | function f =>
    cases w with
    | function g => rwa [same, BEq.comm]
    | _ => cases h
  | method f v s =>
    cases w with
    | method g w t => rwa [same, BEq.comm]
    | _ => cases h
  | object o =>
    cases w with
    | object p => rwa [same, BEq.comm]
    | _ => cases h

theorem beq_symm (v w : Value) : (v == w) = (w == v) := Bool.eq_iff_iff.2 ⟨same_symm, same_symm⟩

/-! ### Structure -/

theorem SameStructure.refl (v : Value) (hv : v.Floatless) : SameStructure v v := by
  induction v using byParts with
  | float x => exact absurd hv (not_floatless x)
  | list items ih => exact .list rfl fun i hi _ => ih _ (List.getElem_mem hi) (hv.item (List.getElem_mem hi))
  | map entries ih =>
    refine .map (fun k => Iff.rfl) fun k v w hv' hw => ?_
    obtain rfl : v = w := Option.some.inj (hv'.symm.trans hw)
    exact ih k v hv' (hv.entry hv')
  | null => exact .null
  | bool b => exact .bool b
  | int n => exact .int n
  | string s => exact .string s
  | function f => exact .function rfl
  | method f v s => exact .method f f v v s
  | object o => exact .object rfl

theorem SameStructure.trans (h : SameStructure u v) (h' : SameStructure v w) : SameStructure u w := by
  induction h generalizing w with
  | null | bool | int | string => exact h'
  | list hlength _ ih =>
    cases h' with
    | list hlength' h' =>
      exact .list (hlength.trans hlength') fun i ha hc => ih i ha (hlength ▸ ha) (h' i (hlength ▸ ha) hc)
  | @map as bs hkeys _ ih =>
    cases h' with
    | map hkeys' h' =>
      refine .map (fun k => (hkeys k).trans (hkeys' k)) fun k x z hx hz => ?_
      have hk : k ∈ bs.names := (hkeys k).1 (Entries.mem_of_get? hx)
      have hy := Entries.get?_of_mem hk
      exact ih k x _ hx hy (h' k _ z hy hz)
  | function h =>
    cases h' with
    | function h' => exact .function (h.trans h')
  | method f g v w s =>
    cases h' with
    | method _ f' _ x _ => exact .method f f' v x s
  | object h =>
    cases h' with
    | object h' => exact .object (h.trans h')

theorem sameStructure_of_same (hv : v.Floatless) (hw : w.Floatless) (h : same v w = true) :
    SameStructure v w := by
  induction v using byParts generalizing w with
  | null =>
    cases w with
    | null => exact .null
    | _ => cases h
  | bool b =>
    cases w with
    | bool c =>
      obtain rfl : b = c := by simpa [same] using h
      exact .bool b
    | _ => cases h
  | int n =>
    cases w with
    | int m =>
      obtain rfl : n = m := by simpa [same] using h
      exact .int n
    | float x => exact absurd hw (not_floatless x)
    | _ => cases h
  | float x => exact absurd hv (not_floatless x)
  | string s =>
    cases w with
    | string t =>
      obtain rfl : s = t := by simpa [same] using h
      exact .string s
    | _ => cases h
  | list as ih =>
    cases w with
    | list bs =>
      rw [same, sameItems_iff] at h
      refine .list h.1 fun i ha hb => ?_
      have hmem := List.getElem_mem ha
      have hmem' := List.getElem_mem hb
      exact ih _ hmem (hv.item hmem) (hw.item hmem') (h.2 i ha hb)
    | _ => cases h
  | map as ih =>
    cases w with
    | map bs =>
      rw [same, sameEntries_iff_get?] at h
      exact .map h.1 fun k x y hx hy => ih k x hx (hv.entry hx) (hw.entry hy) (h.2 k x y hx hy)
    | _ => cases h
  | function f =>
    cases w with
    | function g => exact .function (by simpa [same] using h)
    | _ => cases h
  | method f v s =>
    cases w with
    | method g w t =>
      obtain rfl : s = t := by simpa [same] using h
      exact .method f g v w s
    | _ => cases h
  | object o =>
    cases w with
    | object p => exact .object (by simpa [same] using h)
    | _ => cases h

theorem same_of_sameStructure (h : SameStructure v w) : same v w = true := by
  induction h with
  | null => rw [same]
  | bool | int | string | method => simp [same]
  | list hlength _ ih =>
    rw [same, sameItems_iff]
    exact ⟨hlength, ih⟩
  | map hkeys _ ih =>
    rw [same, sameEntries_iff_get?]
    exact ⟨hkeys, ih⟩
  | function h | object h => simp [same, h]

/-- Values without floats. -/
def Exact : Type := {v : Value // v.Floatless}

/-- Values without floats are equal if they have the same structure, and only then. -/
theorem Exact.beq_iff (v w : Exact) : (v.1 == w.1) = true ↔ SameStructure v.1 w.1 :=
  ⟨sameStructure_of_same v.2 w.2, same_of_sameStructure⟩

theorem Exact.equivalence : Equivalence fun v w : Exact => (v.1 == w.1) = true where
  refl v := (beq_iff v v).2 (.refl v.1 v.2)
  symm h := same_symm h
  trans {u v w} h h' := (beq_iff u w).2 (((beq_iff u v).1 h).trans ((beq_iff v w).1 h'))

end Value

namespace Operator

variable (host : Host) (v w : Value) (xs ys : List Value)

theorem apply_isIn_list : Operator.isIn.apply host v (.list xs) = .ok (.bool (xs.any (· == v))) := by
  unfold Operator.apply Operation.contains
  rfl

theorem apply_notIn_list : Operator.notIn.apply host v (.list xs) = .ok (.bool !xs.any (· == v)) := by
  unfold Operator.apply Operation.contains
  rfl

theorem apply_add_list : Operator.add.apply host (.list xs) (.list ys) = .ok (.list (xs ++ ys)) := by
  unfold Operator.apply Arithmetic.add
  rfl

/-- What the operators `in` and `not in` find in a list, and in two lists put together. -/
structure Membership (host : Host) (v : Value) (xs : List Value) (found : Bool) : Prop where
  isIn : Operator.isIn.apply host v (.list xs) = .ok (.bool found)
  notIn : Operator.notIn.apply host v (.list xs) = .ok (.bool !found)
  item : found = true ↔ ∃ x ∈ xs, (x == v) = true
  add : ∀ ys found', Operator.isIn.apply host v (.list ys) = .ok (.bool found') →
    ∃ zs, Operator.add.apply host (.list xs) (.list ys) = .ok zs ∧
      Operator.isIn.apply host v zs = .ok (.bool (found || found'))

theorem membership : Membership host v xs (xs.any (· == v)) where
  isIn := apply_isIn_list host v xs
  notIn := apply_notIn_list host v xs
  item := by simp
  add ys found' h := by
    rw [apply_isIn_list] at h
    obtain rfl : ys.any (· == v) = found' := by simpa using h
    refine ⟨.list (xs ++ ys), apply_add_list host xs ys, ?_⟩
    simp [apply_isIn_list, List.any_append]

/-- Equality is symmetric, and without floats it is an equivalence and says that two values have the same
structure. The operators for equality and its negation decide it, and membership in a list follows it. -/
theorem equality_and_membership (host : Host) :
    (∀ v w : Value, (v == w) = (w == v)) ∧
      (Equivalence fun v w : Value.Exact => (v.1 == w.1) = true) ∧
      (∀ v w : Value.Exact, (v.1 == w.1) = true ↔ v.1.SameStructure w.1) ∧
      (∀ v w : Value, Operator.eq.apply host v w = .ok (.bool (v == w)) ∧
        Operator.is.apply host v w = .ok (.bool (v == w)) ∧
        Operator.ne.apply host v w = .ok (.bool !(v == w)) ∧
        Operator.isNot.apply host v w = .ok (.bool !(v == w))) ∧
      ∀ (v : Value) (xs : List Value), ∃ found, Membership host v xs found := by
  refine ⟨Value.beq_symm, Value.Exact.equivalence, Value.Exact.beq_iff, fun v w => ?_,
    fun v xs => ⟨_, membership host v xs⟩⟩
  simp [Operator.apply, bne]

theorem equality_and_membership_nested :
    let m (n : Int64) := Value.map (.ofList [("a", .list [.int 1]), ("b", .int n)])
    ∃ hexact : ∀ n, (m n).Floatless,
      ((⟨m 2, hexact 2⟩ : Value.Exact).1 == (⟨m 3, hexact 3⟩ : Value.Exact).1) = false ∧
        ¬ (m 2).SameStructure (m 3) ∧ Operator.isNot.apply Host.bare (m 2) (m 3) = .ok (.bool true) ∧
        ∃ found, Membership Host.bare (m 3) [.null, m 3] found ∧ found = true := by
  intro m
  have hexact (n : Int64) : (m n).Floatless := by
    apply Value.Floatless.map
    intro k v hv
    rw [Entries.get?_ofList] at hv
    obtain ⟨before, after, hpairs, -⟩ := hv
    have hmem : (k, v) ∈ [("a", Value.list [.int 1]), ("b", .int n)] := by
      rw [hpairs]
      exact List.mem_append_right _ (.head _)
    simp only [List.mem_cons, List.not_mem_nil, or_false, Prod.mk.injEq] at hmem
    rcases hmem with ⟨-, rfl⟩ | ⟨-, rfl⟩
    · exact .list (by simp [Value.floatless_int])
    · exact Value.floatless_int n
  have hne : (m 2 == m 3) = false := by decide
  obtain ⟨-, -, hstructure, hoperators, hmembership⟩ := equality_and_membership Host.bare
  obtain ⟨found, hfound⟩ := hmembership (m 3) [.null, m 3]
  refine ⟨hexact, hne, fun h => ?_, ?_, found, hfound, ?_⟩
  · have heq := (hstructure ⟨m 2, hexact 2⟩ ⟨m 3, hexact 3⟩).2 h
    rw [hne] at heq
    cases heq
  · rw [(hoperators (m 2) (m 3)).2.2.2, hne]
    rfl
  · exact hfound.item.2 ⟨m 3, by simp, by decide⟩

end Operator

end Stencil
