import Stencil.Proofs.Arithmetic.Ints
import Stencil.Proofs.Decimal.Rounding

/-! Comparisons of ints. Equality compares the ints themselves, and the other operators compare the floats that are
nearest to them, so that they agree unless two ints have one nearest float. -/
namespace Stencil.Operator

open Decimal

variable {host : Host} {op : Operator} {a b : Int64} {p : Prop}

/-- What an operator says of two ints: a bool, and the one that `p` is. -/
def Decides (host : Host) (op : Operator) (a b : Int64) (p : Prop) : Prop :=
  ∃ r, op.apply host (.int a) (.int b) = .ok (.bool r) ∧ (r = true ↔ p)

/-- An operator says yes to two ints. -/
def Affirms (host : Host) (op : Operator) (a b : Int64) : Prop :=
  op.apply host (.int a) (.int b) = .ok (.bool true)

theorem Decides.affirms_iff (h : Decides host op a b p) : Affirms host op a b ↔ p := by
  obtain ⟨r, hr, hiff⟩ := h
  rw [Affirms, hr]
  simpa using hiff

/-- The comparisons of two ints. -/
structure Compares (host : Host) (a b : Int64) : Prop where
  lt : Decides host .lt a b (nearestInt a.toInt < nearestInt b.toInt)
  le : Decides host .le a b (nearestInt a.toInt ≤ nearestInt b.toInt)
  gt : Decides host .gt a b (nearestInt b.toInt < nearestInt a.toInt)
  ge : Decides host .ge a b (nearestInt b.toInt ≤ nearestInt a.toInt)
  eq : Decides host .eq a b (a = b)

/-- Order and equality agree: one of the two ints is less or they are equal, and nothing else besides. -/
structure Agrees (host : Host) (a b : Int64) : Prop where
  one : (Affirms host .lt a b ∧ ¬ Affirms host .eq a b ∧ ¬ Affirms host .gt a b) ∨
    (¬ Affirms host .lt a b ∧ Affirms host .eq a b ∧ ¬ Affirms host .gt a b) ∨
    (¬ Affirms host .lt a b ∧ ¬ Affirms host .eq a b ∧ Affirms host .gt a b)
  le : Affirms host .le a b ↔ Affirms host .lt a b ∨ Affirms host .eq a b
  ge : Affirms host .ge a b ↔ Affirms host .gt a b ∨ Affirms host .eq a b

theorem compare_ints (op : Operator) (a b : Int64) :
    Operation.compare op (.int a) (.int b) = .ok (compare (nearestInt a.toInt) (nearestInt b.toInt)) := by
  have hsmall (n : Int64) : n.toInt.natAbs < 2 ^ 64 := by
    have hbounds := toInt_bounds n
    omega
  have horder := order?_ofInt (hsmall a) (hsmall b)
  simp only [Operation.compare, Value.asFloat?, horder]

theorem compares (host : Host) (a b : Int64) : Compares host a b where
  lt := ⟨_, congrArg (Except.map _) (compare_ints .lt a b), by simp [Int.compare_eq_lt]⟩
  le := ⟨_, congrArg (Except.map _) (compare_ints .le a b), by simp [Int.compare_ne_gt]⟩
  gt := ⟨_, congrArg (Except.map _) (compare_ints .gt a b), by simp [Int.compare_eq_gt]⟩
  ge := ⟨_, congrArg (Except.map _) (compare_ints .ge a b), by simp [Int.compare_ne_lt]⟩
  eq := ⟨a == b, rfl, beq_iff_eq⟩

/-- Order and equality agree on two ints unless these are different and have the same nearest float. -/
theorem agrees_iff (host : Host) (a b : Int64) :
    Agrees host a b ↔ (nearestInt a.toInt = nearestInt b.toInt → a = b) := by
  obtain ⟨hlt, hle, hgt, hge, heq⟩ := compares host a b
  have hsame : a.toInt = b.toInt → nearestInt a.toInt = nearestInt b.toInt := congrArg nearestInt
  constructor
  · rintro ⟨hone, -, -⟩ hnearest
    rw [hlt.affirms_iff, hgt.affirms_iff, heq.affirms_iff, ← Int64.toInt_inj] at hone
    rw [← Int64.toInt_inj]
    omega
  · intro h
    rw [← Int64.toInt_inj] at h
    constructor <;>
      simp only [hlt.affirms_iff, hle.affirms_iff, hgt.affirms_iff, hge.affirms_iff, heq.affirms_iff,
        ← Int64.toInt_inj] <;>
      omega

/-- The operators compare the nearest floats of two ints, which are less only where the ints are less, and `==`
compares the ints. So order and equality agree unless two different ints have one nearest float, which ints of 53
binary digits do not have; those are neither less nor equal nor greater, and both less or equal and greater or equal. -/
theorem apply_order_ints (host : Host) (a b : Int64) :
    Compares host a b ∧ (Agrees host a b ↔ (nearestInt a.toInt = nearestInt b.toInt → a = b)) ∧
      (Affirms host .lt a b → a.toInt < b.toInt) ∧ (Affirms host .gt a b → b.toInt < a.toInt) ∧
      (¬ Agrees host a b → ¬ Affirms host .lt a b ∧ ¬ Affirms host .eq a b ∧ ¬ Affirms host .gt a b ∧
        Affirms host .le a b ∧ Affirms host .ge a b) ∧
      (a.toInt.natAbs ≤ 9007199254740992 → b.toInt.natAbs ≤ 9007199254740992 → Agrees host a b) ∧
      2 * (nearestInt a.toInt - a.toInt).natAbs ≤ gap a.toInt.natAbs := by
  obtain ⟨hlt, hle, hgt, hge, heq⟩ := compares host a b
  refine ⟨compares host a b, agrees_iff host a b, fun h => ?_, fun h => ?_, fun h => ?_, fun ha hb => ?_,
    nearestInt_error a.toInt⟩
  · exact lt_of_nearestInt_lt (hlt.affirms_iff.1 h)
  · exact lt_of_nearestInt_lt (hgt.affirms_iff.1 h)
  · rw [agrees_iff, Classical.not_imp] at h
    obtain ⟨hsame, hne⟩ := h
    rw [hlt.affirms_iff, hle.affirms_iff, hgt.affirms_iff, hge.affirms_iff, heq.affirms_iff, hsame]
    exact ⟨Int.lt_irrefl _, hne, Int.lt_irrefl _, Int.le_refl _, Int.le_refl _⟩
  · rw [agrees_iff, nearestInt_of_natAbs_le ha, nearestInt_of_natAbs_le hb]
    exact Int64.toInt_inj.1

theorem apply_order_ints_exact :
    let a : Int64 := 9007199254740992
    let b : Int64 := -9007199254740991
    Agrees Host.bare a b ∧ Affirms Host.bare .gt a b ∧ b.toInt < a.toInt := by
  intro a b
  obtain ⟨hcompares, -, -, hgreater, -, hagrees, -⟩ := apply_order_ints Host.bare a b
  have hgt : Affirms Host.bare .gt a b := hcompares.gt.affirms_iff.2 (by decide +kernel)
  exact ⟨hagrees (by decide) (by decide), hgt, hgreater hgt⟩

/-- The first two whole numbers that have one nearest float. -/
theorem apply_order_rounded :
    let a : Int64 := 9007199254740992
    let b : Int64 := 9007199254740993
    a ≠ b ∧ ¬ Affirms Host.bare .lt a b ∧ ¬ Affirms Host.bare .eq a b ∧ ¬ Affirms Host.bare .gt a b ∧
      Affirms Host.bare .le a b ∧ Affirms Host.bare .ge a b ∧ ¬ Agrees Host.bare a b := by
  intro a b
  have hne : a ≠ b := by decide
  have hsame : nearestInt a.toInt = nearestInt b.toInt := by decide +kernel
  obtain ⟨hlt, hle, hgt, hge, heq⟩ := compares Host.bare a b
  rw [agrees_iff, hlt.affirms_iff, hle.affirms_iff, hgt.affirms_iff, hge.affirms_iff, heq.affirms_iff, hsame]
  exact ⟨hne, Int.lt_irrefl _, hne, Int.lt_irrefl _, Int.le_refl _, Int.le_refl _, fun h => hne (h rfl)⟩

end Stencil.Operator
