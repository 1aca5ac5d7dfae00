import Mathlib.Data.Rat.Floor
import Mathlib.Tactic.Linarith
import Stencil.Operation

/-! Arithmetic on ints: exact where the result is an int, rounded down where it divides, and without a step
that leaves the range of ints. -/
namespace Stencil

theorem fitsInt_iff {i : Int} :
    fitsInt i = true ↔ -9223372036854775808 ≤ i ∧ i ≤ 9223372036854775807 := by
  rw [fitsInt, Bool.and_eq_true, decide_eq_true_iff, decide_eq_true_iff]
  exact Iff.rfl

theorem fitsInt_eq_false_iff {i : Int} :
    fitsInt i = false ↔ i < -9223372036854775808 ∨ 9223372036854775807 < i := by
  rw [← Bool.not_eq_true, fitsInt_iff]
  omega

theorem fitsInt_iff_exists {i : Int} : fitsInt i = true ↔ ∃ n : Int64, n.toInt = i := by
  constructor
  · intro h
    have hi := fitsInt_iff.1 h
    exact ⟨Int64.ofInt i, Int64.toInt_ofInt_of_le (by omega) (by omega)⟩
  · rintro ⟨n, rfl⟩
    exact fitsInt_toInt n

theorem toInt_ne_of_not_fits {i : Int} (h : fitsInt i = false) (n : Int64) : n.toInt ≠ i := by
  rintro rfl
  rw [fitsInt_toInt] at h
  cases h

theorem toInt_bounds (n : Int64) :
    -9223372036854775808 ≤ n.toInt ∧ n.toInt ≤ 9223372036854775807 :=
  fitsInt_iff.1 (fitsInt_toInt n)

namespace Arithmetic

/-- What an operation gives whose exact value is `i`: the int `i`, or a float if there is no such int. -/
inductive Exactly (i : Int) : Result Value → Prop
  | int {n : Int64} : n.toInt = i → Exactly i (.ok (.int n))
  | float {x : Float} : (∀ n : Int64, n.toInt ≠ i) → Exactly i (.ok (.float x))

theorem exactly_exactOr (i : Int) (x : Float) : Exactly i (.ok (exactOr i x)) := by
  cases h : fitsInt i with
  | true =>
    obtain ⟨n, rfl⟩ := fitsInt_iff_exists.1 h
    rw [exactOr_toInt]
    exact .int rfl
  | false =>
    rw [exactOr, h]
    exact .float (toInt_ne_of_not_fits h)

/-- A sum of ints that is in their range is computed without wrapping around. -/
theorem toInt_add_of_fits {a b : Int64} (h : fitsInt (a.toInt + b.toInt) = true) :
    (a + b).toInt = a.toInt + b.toInt := by
  have hi := fitsInt_iff.1 h
  rw [Int64.toInt_add, Int.bmod_eq_of_le (by omega) (by omega)]

theorem toInt_sub_of_fits {a b : Int64} (h : fitsInt (a.toInt - b.toInt) = true) :
    (a - b).toInt = a.toInt - b.toInt := by
  have hi := fitsInt_iff.1 h
  rw [Int64.toInt_sub, Int.bmod_eq_of_le (by omega) (by omega)]

/-! ### Division of whole numbers -/

/-- The quotient and the remainder of a division rounded toward zero: the remainder has the sign of the
dividend. -/
structure DividesTowardZero (a b q r : Int) : Prop where
  whole : a = b * q + r
  sign : r ≠ 0 → (r < 0 ↔ a < 0)
  bound : r.natAbs < b.natAbs

/-- The quotient and the remainder of a division rounded down: the remainder has the sign of the
divisor. -/
structure DividesDown (a b q r : Int) : Prop where
  quotient : q = ⌊(a / b : ℚ)⌋
  remainder : r = a - b * ⌊(a / b : ℚ)⌋
  whole : a = b * q + r
  sign : r = 0 ∨ r.sign = b.sign
  bound : r.natAbs < b.natAbs

variable {a b q r : Int}

theorem dividesTowardZero (hb : b ≠ 0) : DividesTowardZero a b (a.tdiv b) (a.tmod b) where
  whole := (Int.mul_tdiv_add_tmod a b).symm
  sign hr := by
    rcases Int.lt_or_le a 0 with ha | ha
    · have hneg := Int.tmod_nonneg b (Int.neg_nonneg_of_nonpos ha.le)
      rw [Int.neg_tmod] at hneg
      omega
    · have hnonneg := Int.tmod_nonneg b ha
      omega
  bound := by
    rw [Int.natAbs_tmod]
    exact Nat.mod_lt _ (Int.natAbs_pos.2 hb)

/-- A remainder with the sign of the divisor, whichever that is, is a part between zero and one of it. -/
theorem floor_div_of_whole (whole : a = b * q + r) (sign : r ≠ 0 → (r < 0 ↔ b < 0))
    (bound : r.natAbs < b.natAbs) : ⌊(a / b : ℚ)⌋ = q := by
  have hb : b ≠ 0 := by
    rintro rfl
    exact absurd bound (Nat.not_lt_zero _)
  have hb' : (b : ℚ) ≠ 0 := Int.cast_ne_zero.2 hb
  have hdiv : (a / b : ℚ) = q + r / b := by
    rw [whole]
    push_cast
    field_simp
  have hpart : (0 : ℚ) ≤ r / b ∧ (r / b : ℚ) < 1 := by
    rcases Int.lt_or_gt_of_ne hb with hneg | hpos
    · have hr : r ≤ 0 ∧ b < r := by omega
      constructor
      · exact div_nonneg_of_nonpos (Int.cast_nonpos.2 hr.1) (Int.cast_nonpos.2 hneg.le)
      · rw [div_lt_one_of_neg (Int.cast_lt_zero.2 hneg)]
        exact Int.cast_lt.2 hr.2
    · have hr : 0 ≤ r ∧ r < b := by omega
      constructor
      · exact div_nonneg (Int.cast_nonneg hr.1) (Int.cast_nonneg hpos.le)
      · rw [div_lt_one (Int.cast_pos.2 hpos)]
        exact Int.cast_lt.2 hr.2
  rw [hdiv, Int.floor_intCast_add, Int.floor_eq_zero_iff.2 hpart, add_zero]

theorem sign_eq_sign (hr : r ≠ 0) (hb : b ≠ 0) (h : r < 0 ↔ b < 0) : r.sign = b.sign := by
  rcases Int.lt_or_gt_of_ne hr with hneg | hpos
  · rw [Int.sign_eq_neg_one_of_neg hneg, Int.sign_eq_neg_one_of_neg (h.1 hneg)]
  · have hb' : 0 < b := by omega
    rw [Int.sign_eq_one_of_pos hpos, Int.sign_eq_one_of_pos hb']

/-- The remainder determines the way of rounding. -/
theorem DividesDown.of_whole (whole : a = b * q + r) (sign : r ≠ 0 → (r < 0 ↔ b < 0))
    (bound : r.natAbs < b.natAbs) : DividesDown a b q r := by
  have hfloor := floor_div_of_whole whole sign bound
  refine ⟨hfloor.symm, ?_, whole, ?_, bound⟩
  · rw [hfloor]
    omega
  · by_cases hr : r = 0
    · exact .inl hr
    · exact .inr (sign_eq_sign hr (by omega) (sign hr))

/-- A remainder that has the sign of the divisor already is that of the division rounded down. -/
theorem DividesTowardZero.down (h : DividesTowardZero a b q r) (hsign : r ≠ 0 → (r < 0 ↔ b < 0)) :
    DividesDown a b q r := .of_whole h.whole hsign h.bound

/-- Otherwise rounding down moves one step. -/
theorem DividesTowardZero.down_step (h : DividesTowardZero a b q r) (hr : r ≠ 0) (hsign : ¬ (r < 0 ↔ b < 0)) :
    DividesDown a b (q - 1) (r + b) := by
  have hbound := h.bound
  refine .of_whole ?_ (by omega) (by omega)
  rw [h.whole, mul_sub]
  omega

/-! ### Division of ints -/

section
variable {a b : Int64}

theorem toInt_div (h : ¬ (a = Int64.minValue ∧ b = -1)) :
    (a / b).toInt = a.toInt.tdiv b.toInt := by
  by_cases ha : a = Int64.minValue
  · exact Int64.toInt_div_of_ne_right a b fun hb => h ⟨ha, hb⟩
  · exact Int64.toInt_div_of_ne_left a b ha

theorem ne_zero_iff_toInt : a ≠ 0 ↔ a.toInt ≠ 0 := not_congr Int64.toInt_inj.symm

theorem neg_iff_toInt : a < 0 ↔ a.toInt < 0 := Int64.lt_iff_toInt_lt

theorem divides (hb : b ≠ 0) (h : ¬ (a = Int64.minValue ∧ b = -1)) :
    DividesTowardZero a.toInt b.toInt (a / b).toInt (a % b).toInt := by
  rw [toInt_div h, Int64.toInt_mod]
  exact dividesTowardZero (ne_zero_iff_toInt.1 hb)

theorem quotient?_eq_some_iff {q : Int64} :
    quotient? a b = some q ↔ b ≠ 0 ∧ ¬ (a = Int64.minValue ∧ b = -1) ∧ q = a / b := by
  rw [quotient?, ite_eq_iff]
  simp only [reduceCtorEq, and_false, false_or, not_or, Option.some.injEq, and_assoc, ne_eq, @eq_comm _ q]

theorem remainder?_eq_some_iff {r : Int64} :
    remainder? a b = some r ↔ b ≠ 0 ∧ ¬ (a = Int64.minValue ∧ b = -1) ∧ r = a % b := by
  rw [remainder?, ite_eq_iff]
  simp only [reduceCtorEq, and_false, false_or, not_or, Option.some.injEq, and_assoc, ne_eq, @eq_comm _ r]

/-- No step of the divisions of `a` by `b` leaves the range of ints: where one is reached, it computes the
number that it computes on whole numbers. -/
structure NoOverflow (a b : Int64) : Prop where
  quotient {q : Int64} : quotient? a b = some q →
    b ≠ 0 ∧ q.toInt = a.toInt.tdiv b.toInt ∧ (a % b).toInt = a.toInt.tmod b.toInt
  lowered {q : Int64} : quotient? a b = some q → (q - excess a b).toInt = q.toInt - (excess a b).toInt
  remainder {r : Int64} : remainder? a b = some r → b ≠ 0 ∧ r.toInt = a.toInt.tmod b.toInt
  raised {r : Int64} : r = (remainder? a b).getD 0 → r ≠ 0 → ¬ (r < 0 ↔ b < 0) →
    (r + b).toInt = r.toInt + b.toInt

/-- A quotient that is not whole has room below it. -/
theorem fits_tdiv_sub_one {a b : Int64} (h : a % b ≠ 0) :
    fitsInt (a.toInt.tdiv b.toInt - 1) = true := by
  have hr := ne_zero_iff_toInt.1 h
  rw [Int64.toInt_mod] at hr
  have ha := toInt_bounds a
  apply fitsInt_iff.2
  by_cases hb : b.toInt = 0
  · rw [hb, Int.tdiv_zero]
    decide
  · have hlarge : 2 ≤ b.toInt.natAbs := by
      have hbound := (dividesTowardZero (a := a.toInt) hb).bound
      omega
    have hquotient : (a.toInt.tdiv b.toInt).natAbs ≤ a.toInt.natAbs / 2 := by
      rw [Int.natAbs_tdiv]
      exact Nat.div_le_div_left hlarge (by decide)
    omega

/-- A remainder that is not zero has the sign of the dividend: both operations adjust in the same cases. -/
theorem excess_eq (hb : b ≠ 0) (h : ¬ (a = Int64.minValue ∧ b = -1)) :
    excess a b = if a % b ≠ 0 ∧ ¬ (a % b < 0 ↔ b < 0) then 1 else 0 := by
  have hsign := (divides hb h).sign
  rw [← ne_zero_iff_toInt, ← neg_iff_toInt, ← neg_iff_toInt] at hsign
  rw [excess]
  exact if_congr (and_congr_right fun hr => by rw [hsign hr]) rfl rfl

theorem toInt_sub_excess (h : ¬ (a = Int64.minValue ∧ b = -1)) :
    (a / b - excess a b).toInt = (a / b).toInt - (excess a b).toInt := by
  apply toInt_sub_of_fits
  rw [excess]
  split
  · rename_i hr
    rw [toInt_div h]
    exact fits_tdiv_sub_one hr.1
  · rw [Int64.toInt_zero, sub_zero]
    exact fitsInt_toInt _

/-- The sum of numbers of different signs lies between them. -/
theorem toInt_add_of_signs (h : ¬ (a < 0 ↔ b < 0)) : (a + b).toInt = a.toInt + b.toInt := by
  rw [neg_iff_toInt, neg_iff_toInt] at h
  have ha := toInt_bounds a
  have hb := toInt_bounds b
  exact toInt_add_of_fits (fitsInt_iff.2 (by omega))

theorem noOverflow (a b : Int64) : NoOverflow a b where
  quotient hq := by
    obtain ⟨hb, h, rfl⟩ := quotient?_eq_some_iff.1 hq
    exact ⟨hb, toInt_div h, Int64.toInt_mod a b⟩
  lowered hq := by
    obtain ⟨_, h, rfl⟩ := quotient?_eq_some_iff.1 hq
    exact toInt_sub_excess h
  remainder hr := by
    obtain ⟨hb, _, rfl⟩ := remainder?_eq_some_iff.1 hr
    exact ⟨hb, Int64.toInt_mod a b⟩
  raised _ _ h := toInt_add_of_signs h

/-- Where the quotient is an int, the operators divide rounding down. -/
theorem floor_divides (hb : b ≠ 0) (h : ¬ (a = Int64.minValue ∧ b = -1)) :
    DividesDown a.toInt b.toInt (a / b - excess a b).toInt (floorRemainder a b).toInt := by
  have htrunc := divides hb h
  rw [toInt_sub_excess h, excess_eq hb h, floorRemainder, remainder?_eq_some_iff.2 ⟨hb, h, rfl⟩]
  dsimp only [Option.getD_some]
  by_cases hr : a % b ≠ 0 ∧ ¬ (a % b < 0 ↔ b < 0)
  · rw [if_pos hr, if_pos hr, toInt_add_of_signs hr.2]
    refine htrunc.down_step (ne_zero_iff_toInt.1 hr.1) ?_
    rw [← neg_iff_toInt, ← neg_iff_toInt]
    exact hr.2
  · rw [if_neg hr, if_neg hr, Int64.toInt_zero, sub_zero]
    refine htrunc.down fun hne => ?_
    rw [← neg_iff_toInt, ← neg_iff_toInt]
    exact not_not.1 fun hsign => hr ⟨ne_zero_iff_toInt.2 hne, hsign⟩

theorem dividends_ints (op : Operator) (hb : b ≠ 0) :
    dividends op (.int a) (.int b) = .ok (.int a, .int b) := by
  rw [dividends]
  exact if_neg fun h => hb (beq_iff_eq.1 h)

theorem floorDiv_ints {q : Int64} (hb : b ≠ 0) (hq : floorQuotient? a b = some q) :
    floorDiv (.int a) (.int b) = .ok (.int q) := by
  rw [floorDiv, dividends_ints _ hb]
  show Except.ok _ = _
  dsimp only
  rw [hq]

/-- The operators on two ints: sum, difference, product and negative are exact, division rounds down, a
divisor of zero fails, and the one quotient out of range is a float. -/
theorem apply_ints (host : Host) (a b : Int64) :
    (Exactly (a.toInt + b.toInt) (Operator.add.apply host (.int a) (.int b)) ∧
      Exactly (a.toInt - b.toInt) (Operator.sub.apply host (.int a) (.int b)) ∧
      Exactly (a.toInt * b.toInt) (Operator.mul.apply host (.int a) (.int b)) ∧
      Exactly (-a.toInt) (Sign.minus.apply (.int a))) ∧
    (b ≠ 0 → ¬ (a = Int64.minValue ∧ b = -1) → ∃ q r : Int64,
      Operator.floorDiv.apply host (.int a) (.int b) = .ok (.int q) ∧
      Operator.mod.apply host (.int a) (.int b) = .ok (.int r) ∧
      DividesDown a.toInt b.toInt q.toInt r.toInt) ∧
    (a = Int64.minValue ∧ b = -1 → Operator.mod.apply host (.int a) (.int b) = .ok (.int 0) ∧
      ∃ x, Operator.floorDiv.apply host (.int a) (.int b) = .ok (.float x)) ∧
    (b = 0 → ∀ op ∈ [Operator.div, .floorDiv, .mod],
      ∃ fault, op.apply host (.int a) (.int b) = .error (.divisionByZero fault)) ∧
    NoOverflow a b := by
  refine ⟨⟨exactly_exactOr _ _, exactly_exactOr _ _, exactly_exactOr _ _, exactly_exactOr _ _⟩,
    fun hb h => ?_, ?_, ?_, noOverflow a b⟩
  · refine ⟨a / b - excess a b, floorRemainder a b, ?_, ?_, floor_divides hb h⟩
    · apply floorDiv_ints hb
      rw [floorQuotient?, quotient?_eq_some_iff.2 ⟨hb, h, rfl⟩]
      rfl
    · rw [Operator.apply, mod, dividends_ints _ hb]
      rfl
  · rintro ⟨rfl, rfl⟩
    exact ⟨rfl, _, rfl⟩
  · rintro rfl op hop
    simp only [List.mem_cons, List.not_mem_nil, or_false] at hop
    rcases hop with rfl | rfl | rfl <;> exact ⟨_, rfl⟩

theorem apply_ints_branches :
    (∃ q r : Int64,
      Operator.floorDiv.apply Host.bare (.int (-7)) (.int 2) = .ok (.int q) ∧
      Operator.mod.apply Host.bare (.int (-7)) (.int 2) = .ok (.int r) ∧
      DividesDown (-7) 2 q.toInt r.toInt) ∧
    Operator.mod.apply Host.bare (.int Int64.minValue) (.int (-1)) = .ok (.int 0) ∧
    ∃ fault, Operator.mod.apply Host.bare (.int 1) (.int 0) = .error (.divisionByZero fault) :=
  ⟨(apply_ints Host.bare (-7) 2).2.1 (by decide) (by decide),
    ((apply_ints Host.bare Int64.minValue (-1)).2.2.1 ⟨rfl, rfl⟩).1,
    (apply_ints Host.bare 1 0).2.2.2.1 rfl .mod (by decide)⟩

end

end Arithmetic

end Stencil
