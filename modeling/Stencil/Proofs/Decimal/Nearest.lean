import Mathlib.Tactic.Linarith
import Mathlib.Tactic.Ring

/-! The whole number of 53 binary digits that is nearest to another one. Of two that are equally near it is the one
whose last digit is even. -/
namespace Stencil.Decimal

variable {c k m n u : Nat}

/-- How often `u` goes into `n`, to the nearest; of two that are equally near the even one. -/
def nearestQuotient (u n : Nat) : Nat :=
  if 2 * (n % u) < u then n / u else if u < 2 * (n % u) then n / u + 1 else n / u + n / u % 2

/-- What the last of 53 binary digits of `n` counts. -/
def gap (n : Nat) : Nat := 2 ^ (n.log2 - 52)

/-- The number of 53 binary digits that is nearest to `n`. -/
def nearest (n : Nat) : Nat := nearestQuotient (gap n) n * gap n

/-- Rounding does not depend on the sign. -/
def nearestInt (i : Int) : Int := i.sign * nearest i.natAbs

theorem gap_pos (n : Nat) : 0 < gap n := Nat.two_pow_pos _

/-! ### Quotients -/

theorem nearestQuotient_bounds (u n : Nat) : n / u ≤ nearestQuotient u n ∧ nearestQuotient u n ≤ n / u + 1 := by
  unfold nearestQuotient
  split
  · omega
  · split <;> omega

theorem le_nearestQuotient (hu : 0 < u) (h : c * u ≤ n) : c ≤ nearestQuotient u n :=
  Nat.le_trans ((Nat.le_div_iff_mul_le hu).2 h) (nearestQuotient_bounds u n).1

theorem nearestQuotient_le (hu : 0 < u) (h : n ≤ c * u) : nearestQuotient u n ≤ c := by
  have hdiv : n / u ≤ c := Nat.div_le_of_le_mul (by rwa [Nat.mul_comm])
  rcases Nat.lt_or_eq_of_le hdiv with hlt | heq
  · exact Nat.le_trans (nearestQuotient_bounds u n).2 hlt
  · -- The quotient is `c` already, so there is no remainder.
    have hsplit := Nat.div_add_mod n u
    rw [heq, Nat.mul_comm] at hsplit
    have hmod : n % u = 0 := by omega
    simp [nearestQuotient, hmod, hu, heq]

theorem nearestQuotient_mul_right (hu : 0 < u) (c : Nat) : nearestQuotient u (c * u) = c :=
  Nat.le_antisymm (nearestQuotient_le hu (Nat.le_refl _)) (le_nearestQuotient hu (Nat.le_refl _))

theorem nearestQuotient_scaled (hk : 0 < k) (u n : Nat) :
    nearestQuotient (u * k) (n * k) = nearestQuotient u n := by
  have hmod : n * k % (u * k) = n % u * k := Nat.mul_mod_mul_right ..
  have hdiv : n * k / (u * k) = n / u := Nat.mul_div_mul_right n u hk
  have hless : 2 * (n % u * k) < u * k ↔ 2 * (n % u) < u := by
    rw [← Nat.mul_assoc]
    exact Nat.mul_lt_mul_right hk
  have hmore : u * k < 2 * (n % u * k) ↔ u < 2 * (n % u) := by
    rw [← Nat.mul_assoc]
    exact Nat.mul_lt_mul_right hk
  simp only [nearestQuotient, hmod, hdiv, hless, hmore]

theorem nearestQuotient_mono (h : m ≤ n) : nearestQuotient u m ≤ nearestQuotient u n := by
  rcases Nat.lt_or_eq_of_le (Nat.div_le_div_right (c := u) h) with hlt | heq
  · exact Nat.le_trans (nearestQuotient_bounds u m).2 (Nat.le_trans hlt (nearestQuotient_bounds u n).1)
  · have hmod : m % u ≤ n % u := by
      have hm := Nat.div_add_mod m u
      have hn := Nat.div_add_mod n u
      rw [heq] at hm
      omega
    simp only [nearestQuotient, heq]
    split_ifs <;> omega

/-- What is rounded away is half of `u` at most. -/
theorem nearestQuotient_error (hu : 0 < u) (n : Nat) :
    2 * n ≤ 2 * (nearestQuotient u n * u) + u ∧ 2 * (nearestQuotient u n * u) ≤ 2 * n + u := by
  have hsplit := Nat.div_add_mod n u
  have hmod := Nat.mod_lt n hu
  have hnext : (n / u + 1) * u = u * (n / u) + u := by ring
  have hthis : n / u * u = u * (n / u) := Nat.mul_comm ..
  unfold nearestQuotient
  split_ifs
  · omega
  · omega
  · rcases Nat.mod_two_eq_zero_or_one (n / u) with heven | hodd
    · rw [heven, Nat.add_zero]
      omega
    · rw [hodd]
      omega

/-! ### Numbers -/

theorem gap_of_lt (h : n < 2 ^ 53) : gap n = 1 := by
  have hlog : n.log2 ≤ 52 := by
    by_cases hn : n = 0
    · simp [hn]
    · have hlt := (Nat.log2_lt hn).2 h
      omega
  simp [gap, hlog]

theorem nearest_of_lt (h : n < 2 ^ 53) : nearest n = n := by
  have hquotient := nearestQuotient_mul_right (u := 1) Nat.one_pos n
  rw [Nat.mul_one] at hquotient
  rw [nearest, gap_of_lt h, Nat.mul_one, hquotient]

theorem nearest_of_le (h : n ≤ 2 ^ 53) : nearest n = n := by
  rcases Nat.lt_or_eq_of_le h with hlt | rfl
  · exact nearest_of_lt hlt
  · have hgap : gap (2 ^ 53) = 2 := by
      rw [gap, Nat.log2_two_pow]
      rfl
    rw [nearest, hgap]
    rfl

/-- Numbers are rounded to the ends of the range between two powers of two at the farthest. -/
theorem nearest_bounds (hn : n ≠ 0) : 2 ^ n.log2 ≤ nearest n ∧ nearest n ≤ 2 ^ (n.log2 + 1) := by
  have hlow := Nat.log2_self_le hn
  have hhigh := Nat.le_of_lt (Nat.lt_log2_self (n := n))
  by_cases hsmall : n < 2 ^ 53
  · rw [nearest_of_lt hsmall]
    exact ⟨hlow, hhigh⟩
  · have hlog : 53 ≤ n.log2 := (Nat.le_log2 hn).2 (Nat.le_of_not_lt hsmall)
    have hbottom : 2 ^ n.log2 = 2 ^ 52 * gap n := by
      rw [gap, ← Nat.pow_add]
      congr 1
      omega
    have htop : 2 ^ (n.log2 + 1) = 2 ^ 53 * gap n := by
      rw [gap, ← Nat.pow_add]
      congr 1
      omega
    rw [hbottom] at hlow ⊢
    rw [htop] at hhigh ⊢
    exact ⟨Nat.mul_le_mul_right _ (le_nearestQuotient (gap_pos n) hlow),
      Nat.mul_le_mul_right _ (nearestQuotient_le (gap_pos n) hhigh)⟩

theorem nearest_mono (h : m ≤ n) : nearest m ≤ nearest n := by
  by_cases hm : m = 0
  · simp [hm, nearest, nearestQuotient, gap]
  have hn : n ≠ 0 := by omega
  have hlog : m.log2 ≤ n.log2 := (Nat.le_log2 hn).2 (Nat.le_trans (Nat.log2_self_le hm) h)
  rcases Nat.lt_or_eq_of_le hlog with hlt | heq
  · calc nearest m ≤ 2 ^ (m.log2 + 1) := (nearest_bounds hm).2
      _ ≤ 2 ^ n.log2 := Nat.pow_le_pow_right (by omega) hlt
      _ ≤ nearest n := (nearest_bounds hn).1
  · have hgap : gap m = gap n := by rw [gap, gap, heq]
    rw [nearest, nearest, hgap]
    exact Nat.mul_le_mul_right _ (nearestQuotient_mono h)

theorem nearest_error (n : Nat) : 2 * n ≤ 2 * nearest n + gap n ∧ 2 * nearest n ≤ 2 * n + gap n :=
  nearestQuotient_error (gap_pos n) n

/-! ### Numbers with a sign -/

theorem nearestInt_natCast (n : Nat) : nearestInt n = nearest n := by
  cases n with
  | zero => simp [nearestInt, nearest_of_le]
  | succ n => rw [nearestInt, Int.sign_natCast_of_ne_zero (Nat.succ_ne_zero n), Int.natAbs_natCast, Int.one_mul]

theorem nearestInt_neg (i : Int) : nearestInt (-i) = -nearestInt i := by
  simp [nearestInt]

theorem nearestInt_mono {i j : Int} (h : i ≤ j) : nearestInt i ≤ nearestInt j := by
  obtain ⟨m, rfl | rfl⟩ := i.eq_nat_or_neg <;> obtain ⟨n, rfl | rfl⟩ := j.eq_nat_or_neg <;>
    simp only [nearestInt_neg, nearestInt_natCast] at *
  · exact_mod_cast nearest_mono (by omega)
  · obtain ⟨rfl, rfl⟩ : m = 0 ∧ n = 0 := by omega
    simp [nearest_of_le]
  · omega
  · have hle := nearest_mono (show n ≤ m by omega)
    omega

theorem lt_of_nearestInt_lt {i j : Int} (h : nearestInt i < nearestInt j) : i < j := by
  by_contra hnot
  have hle := nearestInt_mono (Int.not_lt.1 hnot)
  omega

theorem nearestInt_of_natAbs_le {i : Int} (h : i.natAbs ≤ 2 ^ 53) : nearestInt i = i := by
  rw [nearestInt, nearest_of_le h, Int.sign_mul_natAbs]

theorem nearestInt_error (i : Int) : 2 * (nearestInt i - i).natAbs ≤ gap i.natAbs := by
  obtain ⟨n, rfl | rfl⟩ := i.eq_nat_or_neg <;>
    simp only [nearestInt_neg, nearestInt_natCast, Int.natAbs_neg, Int.natAbs_natCast] <;>
    have herror := nearest_error n <;> omega

end Stencil.Decimal
