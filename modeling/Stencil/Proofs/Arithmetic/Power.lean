import Stencil.Proofs.Arithmetic.Ints

/-! Powers of ints. Repeated squaring gives up as soon as a product leaves the range of ints, and rightly so:
the power is out of range as well. -/
namespace Stencil.Arithmetic

theorem int?_toInt (n : Int64) : int? n.toInt = some n := by
  rw [int?, if_pos (fitsInt_toInt n), Int64.ofInt_toInt]

theorem int?_eq_some_iff {i : Int} {n : Int64} : int? i = some n ↔ n.toInt = i := by
  constructor
  · intro h
    rw [int?, ite_eq_iff] at h
    rcases h with ⟨hi, h⟩ | ⟨_, h⟩
    · obtain ⟨m, rfl⟩ := fitsInt_iff_exists.1 hi
      rw [Int64.ofInt_toInt] at h
      cases h
      rfl
    · cases h
  · rintro rfl
    exact int?_toInt n

theorem int?_eq_none_iff {i : Int} : int? i = none ↔ fitsInt i = false := by
  rw [int?]
  cases fitsInt i <;> simp

/-- Further factors do not bring a number back into range. -/
theorem not_fits_mul {i k : Int} (hi : fitsInt i = false) (hk : 1 ≤ k) : fitsInt (i * k) = false := by
  rw [fitsInt_eq_false_iff] at hi ⊢
  rcases hi with hi | hi
  · left
    nlinarith
  · right
    nlinarith

/-- The magnitude of the least int is not a square: one that is out of range exceeds it. -/
theorem lt_square {base : Int} (h : fitsInt (base * base) = false) :
    9223372036854775808 < base * base := by
  have hroot : 3037000500 ≤ base.natAbs := by
    by_contra hsmall
    have hsquare : base.natAbs * base.natAbs ≤ 3037000499 * 3037000499 :=
      Nat.mul_le_mul (by omega) (by omega)
    rw [fitsInt_eq_false_iff, ← Int.natAbs_mul_self] at h
    omega
  have hsquare : 3037000500 * 3037000500 ≤ base.natAbs * base.natAbs := Nat.mul_le_mul hroot hroot
  rw [← Int.natAbs_mul_self]
  omega

/-- So no sign brings a multiple of such a square back into range. -/
theorem not_fits_mul_square {i base : Int} {k : Nat} (hi : i ≠ 0) (hk : k ≠ 0)
    (h : fitsInt (base * base) = false) : fitsInt (i * (base * base) ^ k) = false := by
  have hsquare := lt_square h
  have hpow : base * base ≤ (base * base) ^ k := le_self_pow₀ (by omega) hk
  rw [fitsInt_eq_false_iff]
  rcases Int.lt_or_gt_of_ne hi with hneg | hpos
  · left
    nlinarith
  · right
    nlinarith

/-- The product that one round computes for an odd exponent, and leaves as it is for an even one. -/
def roundProduct (acc base : Int) (exponent : Nat) : Int :=
  if exponent % 2 = 1 then acc * base else acc

theorem roundProduct_mul_pow (acc base : Int) (exponent : Nat) :
    roundProduct acc base exponent * (base * base) ^ (exponent / 2) = acc * base ^ exponent := by
  have hexponent : base ^ exponent = base ^ (exponent % 2) * (base * base) ^ (exponent / 2) := by
    rw [← pow_two, ← pow_mul, ← pow_add, Nat.mod_add_div]
  rw [hexponent, ← mul_assoc, roundProduct]
  rcases Nat.mod_two_eq_zero_or_one exponent with h | h
  · rw [h, if_neg (by decide), pow_zero, mul_one]
  · rw [h, if_pos rfl, pow_one]

theorem base_of_roundProduct {acc base : Int} {exponent : Nat} (h : acc = 0 → base = 0)
    (hzero : roundProduct acc base exponent = 0) : base = 0 := by
  rw [roundProduct] at hzero
  split at hzero
  · exact (mul_eq_zero.1 hzero).elim h id
  · exact h hzero

theorem powerFrom?_round {acc base : Int64} {exponent : Nat} (h : exponent ≠ 0) :
    powerFrom? acc base exponent =
      (int? (roundProduct acc.toInt base.toInt exponent)).bind fun product =>
        if exponent = 1 then some product
        else (int? (base.toInt * base.toInt)).bind fun square =>
          powerFrom? product square (exponent / 2) := by
  rw [powerFrom?, if_neg h, roundProduct]
  dsimp only
  by_cases hodd : exponent % 2 = 1
  · rw [if_pos hodd, if_pos hodd]
    rfl
  · rw [if_neg hodd, if_neg hodd, int?_toInt]
    rfl

/-- A round that fails on its product fails rightly. -/
theorem not_fits_of_roundProduct {acc base : Int64} {exponent : Nat}
    (h : fitsInt (roundProduct acc.toInt base.toInt exponent) = false) :
    fitsInt (acc.toInt * base.toInt ^ exponent) = false := by
  have hbase : base.toInt ≠ 0 := by
    intro hbase
    have hfits : fitsInt (roundProduct acc.toInt base.toInt exponent) = true := by
      rw [roundProduct, hbase, mul_zero]
      split
      · decide
      · exact fitsInt_toInt acc
    rw [hfits] at h
    cases h
  have hsquares : 0 < (base.toInt * base.toInt) ^ (exponent / 2) := pow_pos (mul_self_pos.2 hbase) _
  rw [← roundProduct_mul_pow]
  exact not_fits_mul h hsquares

/-- A round that fails on its square fails rightly, provided that no product of zero hides the square. -/
theorem not_fits_of_square {product base : Int} {k : Nat} (hbase : product = 0 → base = 0) (hk : k ≠ 0)
    (h : fitsInt (base * base) = false) : fitsInt (product * (base * base) ^ k) = false := by
  refine not_fits_mul_square (fun hzero => ?_) hk h
  rw [hbase hzero] at h
  exact absurd h (by decide)

/-- Repeated squaring gives the power exactly where it is an int. -/
theorem powerFrom?_eq {acc base : Int64} {exponent : Nat} (h : acc.toInt = 0 → base.toInt = 0) :
    powerFrom? acc base exponent = int? (acc.toInt * base.toInt ^ exponent) := by
  -- the hypothesis on zero passes from round to round: a product of zero has a zero factor
  induction exponent using Nat.strong_induction_on generalizing acc base with
  | _ exponent ih =>
    by_cases hzero : exponent = 0
    · rw [hzero, powerFrom?, if_pos rfl, pow_zero, mul_one, int?_toInt]
    rw [powerFrom?_round hzero]
    cases hproduct : int? (roundProduct acc.toInt base.toInt exponent) with
    | none =>
      rw [int?_eq_none_iff.2 (not_fits_of_roundProduct (int?_eq_none_iff.1 hproduct))]
      rfl
    | some product =>
      have hvalue := int?_eq_some_iff.1 hproduct
      have hbase : product.toInt = 0 → base.toInt = 0 := by
        rw [hvalue]
        exact base_of_roundProduct h
      rw [← roundProduct_mul_pow, ← hvalue, Option.bind_some]
      split
      · rename_i hone
        rw [hone, show 1 / 2 = 0 from rfl, pow_zero, mul_one, int?_toInt]
      · rename_i hone
        have hhalf : exponent / 2 ≠ 0 := by omega
        cases hsquare : int? (base.toInt * base.toInt) with
        | none =>
          have hrange := not_fits_of_square hbase hhalf (int?_eq_none_iff.1 hsquare)
          rw [int?_eq_none_iff.2 hrange]
          rfl
        | some square =>
          have hsquare' := int?_eq_some_iff.1 hsquare
          rw [Option.bind_some, ← hsquare']
          apply ih _ (by omega)
          intro hnull
          rw [hsquare', hbase hnull, mul_zero]

theorem power?_eq {base : Int64} {exponent : Nat} (h : exponent < UInt32.size) :
    power? base exponent = int? (base.toInt ^ exponent) := by
  rw [power?, if_neg (Nat.not_le_of_lt h), powerFrom?_eq (fun hone => absurd hone (by decide)),
    Int64.toInt_one, one_mul]

/-- Exponents that count no more are out of reach for the other bases anyway. -/
theorem not_fits_pow {base : Int} {exponent : Nat} (hbase : 2 ≤ base.natAbs) (hexponent : 64 ≤ exponent) :
    fitsInt (base ^ exponent) = false := by
  have hpow : 2 ^ 64 ≤ (base ^ exponent).natAbs := by
    calc 2 ^ 64 ≤ base.natAbs ^ 64 := Nat.pow_le_pow_left hbase 64
      _ ≤ base.natAbs ^ exponent := Nat.pow_le_pow_right (by omega) hexponent
      _ = (base ^ exponent).natAbs := (Int.natAbs_pow base exponent).symm
  rw [fitsInt_eq_false_iff]
  omega

theorem fits_pow {base : Int} {exponent : Nat} (h : base.natAbs ≤ 1) : fitsInt (base ^ exponent) = true := by
  have hpow : (base ^ exponent).natAbs ≤ 1 := by
    rw [Int.natAbs_pow]
    exact pow_le_one₀ (Nat.zero_le _) h
  exact fitsInt_iff.2 (by omega)

theorem exactly_pow {base exponent : Int64} {i : Int} (h : 0 ≤ exponent.toInt)
    (hpower : power? base exponent.toInt.toNat = int? i) :
    Exactly i (pow (.int base) (.int exponent)) := by
  rw [pow]
  dsimp only [Number.ofValue?]
  rw [if_pos h, hpower]
  cases hi : int? i with
  | none =>
    exact .float (toInt_ne_of_not_fits (int?_eq_none_iff.1 hi))
  | some n => exact .int (int?_eq_some_iff.1 hi)

/-- A power of ints is exact, unless its exponent does not fit into 32 bits: then it is a float, which misses
the powers of `0`, `1` and `-1` and no others. -/
theorem apply_pow_ints (host : Host) (base exponent : Int64) (h : 0 ≤ exponent.toInt) :
    (exponent.toInt < UInt32.size ∨ 2 ≤ base.toInt.natAbs →
      Exactly (base.toInt ^ exponent.toInt.toNat)
        (Operator.pow.apply host (.int base) (.int exponent))) ∧
    (UInt32.size ≤ exponent.toInt → base.toInt.natAbs ≤ 1 →
      (∃ n : Int64, n.toInt = base.toInt ^ exponent.toInt.toNat) ∧
      ∃ x, Operator.pow.apply host (.int base) (.int exponent) = .ok (.float x)) := by
  have hsize : UInt32.size = 4294967296 := rfl
  constructor
  · intro hcases
    apply exactly_pow h
    by_cases hshort : exponent.toInt.toNat < UInt32.size
    · exact power?_eq hshort
    · have hbase : 2 ≤ base.toInt.natAbs := by omega
      rw [power?, if_pos (by omega), int?_eq_none_iff.2 (not_fits_pow hbase (by omega))]
  · intro hlong hbase
    refine ⟨fitsInt_iff_exists.1 (fits_pow hbase), ?_⟩
    have hpower : power? base exponent.toInt.toNat = none := by
      rw [power?, if_pos (by omega)]
    rw [Operator.apply, pow]
    dsimp only [Number.ofValue?]
    rw [if_pos h, hpower]
    exact ⟨_, rfl⟩

theorem apply_pow_ints_branches :
    Exactly ((-3 : Int64).toInt ^ (3 : Int64).toInt.toNat)
        (Operator.pow.apply Host.bare (.int (-3)) (.int 3)) ∧
      ∃ x, Operator.pow.apply Host.bare (.int (-1)) (.int 4294967296) = .ok (.float x) :=
  ⟨(apply_pow_ints Host.bare (-3) 3 (by decide)).1 (.inl (by decide)),
    ((apply_pow_ints Host.bare (-1) 4294967296 (by decide)).2 (by decide) (by decide)).2⟩

/-- The power is `1` here, and the operator gives a float nevertheless. -/
theorem apply_pow_one_wide :
    ¬ Exactly ((1 : Int64).toInt ^ (4294967296 : Int64).toInt.toNat)
      (Operator.pow.apply Host.bare (.int 1) (.int 4294967296)) := by
  intro h
  cases h with
  | float hmissing => exact hmissing 1 (by rw [Int64.toInt_one, one_pow])

end Stencil.Arithmetic
