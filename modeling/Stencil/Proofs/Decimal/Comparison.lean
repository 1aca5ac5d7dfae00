import Mathlib.Data.Ordering.Basic
import Stencil.Operation

/-! Comparisons of floats, read off the numbers that the floats stand for. -/
namespace Stencil.Decimal

open Float.Model (UnpackedFloat)

/-- The sign, mantissa and exponent of a float. -/
def unpacked (x : Float) : UnpackedFloat := x.toModel.unpack

theorem compare_swap (u v : UnpackedFloat) : v.compare u = (u.compare v).map Ordering.swap := by
  cases u with
  | notANumber => cases v <;> rfl
  | infinity s =>
    cases s <;> cases v with
    | infinity t => cases t <;> rfl
    | _ => rfl
  | zero s =>
    cases v with
    | notANumber | zero => rfl
    | infinity t | finite t => cases t <;> rfl
  | finite s m e hm =>
    cases v with
    | notANumber => rfl
    | infinity t => cases t <;> rfl
    | zero t => cases s <;> rfl
    | finite t n f hn =>
      have hswap : (compare f e).then (compare n m) = ((compare e f).then (compare m n)).swap := by
        rw [Ordering.swap_then, ← Std.OrientedCmp.eq_swap, ← Std.OrientedCmp.eq_swap]
      cases s <;> cases t
      case positive.positive => exact congrArg some hswap
      case negative.negative => exact congrArg (some ∘ Ordering.swap) hswap
      all_goals rfl

theorem lt_iff_compare {x y : Float} : x < y ↔ (unpacked x).compare (unpacked y) = some .lt := by
  change decide (((unpacked x).compare (unpacked y) == some .lt) = true) = true ↔ _
  rw [decide_eq_true_iff, beq_iff_eq]

theorem beq_iff_compare {x y : Float} : (x == y) = true ↔ (unpacked x).compare (unpacked y) = some .eq := by
  change ((unpacked x).compare (unpacked y) == some .eq) = true ↔ _
  rw [beq_iff_eq]

theorem beq_symm {x y : Float} (h : (x == y) = true) : (y == x) = true := by
  rw [beq_iff_compare] at h ⊢
  rw [compare_swap (unpacked x), h]
  rfl

theorem order?_eq_compare (x y : Float) : Operation.order? x y = (unpacked x).compare (unpacked y) := by
  unfold Operation.order?
  simp only [lt_iff_compare, beq_iff_compare, compare_swap (unpacked x) (unpacked y)]
  cases (unpacked x).compare (unpacked y) with
  | none => simp
  | some o => cases o <;> simp

end Stencil.Decimal
