import Stencil.Proofs.Decimal.Comparison
import Stencil.Proofs.Decimal.Nearest

/-! The float of a whole number is the nearest one, and floats of whole numbers compare as these do. -/
namespace Stencil.Decimal

open Float.Model (UnpackedFloat)
open Float.Model.Format (binary64 targetExponent minExponent mantissaBits exponentBias)
open Float.Model.UnpackedFloat (ExtendedMantissa Accuracy accuracyOfFraction roundWithAccuracy shiftToTargetExponent)

variable {s : UnpackedFloat.Sign} {m n u : Nat} {e : Int}

/-! ### Rounding a mantissa -/

theorem roundToNearestEven_fraction (hu : 0 < u) (n : Nat) :
    (accuracyOfFraction (n % u) u).roundToNearestEven (n / u) = nearestQuotient u n := by
  unfold accuracyOfFraction nearestQuotient
  by_cases hzero : n % u = 0
  · simp [hzero, hu, Accuracy.roundToNearestEven]
  · rw [if_neg hzero]
    rcases Nat.lt_trichotomy (2 * (n % u)) u with hlt | heq | hgt
    · simp [Nat.compare_eq_lt.2 hlt, hlt, Accuracy.roundToNearestEven]
    · simp [heq, Accuracy.roundToNearestEven]
    · have hnot : ¬ 2 * (n % u) < u := by omega
      simp [Nat.compare_eq_gt.2 hgt, hgt, hnot, Accuracy.roundToNearestEven]

/-- What shifting by one bit keeps: the bits behind the mantissa tell where the rest lies in the gap. -/
structure Keeps (em : ExtendedMantissa) (u n : Nat) : Prop where
  mantissa : em.mantissa = n / u
  accuracy : em.accuracy = accuracyOfFraction (n % u) u

theorem Keeps.sticky {em : ExtendedMantissa} (h : Keeps em u n) :
    (em.roundBit || em.stickyBit) = decide (n % u ≠ 0) := by
  have haccuracy := h.accuracy
  obtain ⟨mantissa, roundBit, stickyBit⟩ := em
  unfold accuracyOfFraction at haccuracy
  by_cases hzero : n % u = 0 <;> cases roundBit <;> cases stickyBit <;>
    simp_all [ExtendedMantissa.accuracy]

theorem Keeps.shiftRightOne {em : ExtendedMantissa} (hu : 0 < u) (h : Keeps em u n) :
    Keeps em.shiftRightOne (u * 2) n := by
  have hsticky := h.sticky
  have hrest : n % (u * 2) = n % u + u * (n / u % 2) := Nat.mod_mul
  have hmod := Nat.mod_lt n hu
  refine ⟨?_, ?_⟩
  · rw [ExtendedMantissa.shiftRightOne, h.mantissa, Nat.div_div_eq_div_mul]
  · rw [ExtendedMantissa.shiftRightOne, h.mantissa, hsticky, hrest]
    unfold accuracyOfFraction
    rcases Nat.mod_two_eq_zero_or_one (n / u) with heven | hodd
    · have hless : compare (2 * (n % u)) (u * 2) = .lt := Nat.compare_eq_lt.2 (by omega)
      by_cases hzero : n % u = 0 <;> simp [heven, hzero, hless, ExtendedMantissa.accuracy]
    · by_cases hzero : n % u = 0
      · have hequal : compare (2 * u) (u * 2) = .eq := Nat.compare_eq_eq.2 (Nat.mul_comm ..)
        have hne : u ≠ 0 := by omega
        simp [hodd, hzero, hne, hequal, ExtendedMantissa.accuracy]
      · have hmore : compare (2 * (n % u + u)) (u * 2) = .gt := Nat.compare_eq_gt.2 (by omega)
        simp [hodd, hzero, hmore, ExtendedMantissa.accuracy]

theorem keeps_shiftRight (n k : Nat) : Keeps ((⟨n, false, false⟩ : ExtendedMantissa) >>> k) (2 ^ k) n := by
  induction k with
  | zero =>
    refine ⟨(Nat.div_one n).symm, ?_⟩
    rw [Nat.pow_zero, Nat.mod_one]
    rfl
  | succ k ih => exact ih.shiftRightOne (Nat.two_pow_pos k)

/-- A mantissa that is shifted is rounded to the nearest. -/
theorem roundedMantissa_shiftRight (n k : Nat) :
    ((⟨n, false, false⟩ : ExtendedMantissa) >>> k).roundedMantissa = nearestQuotient (2 ^ k) n := by
  obtain ⟨hmantissa, haccuracy⟩ := keeps_shiftRight n k
  rw [ExtendedMantissa.roundedMantissa, hmantissa, haccuracy, roundToNearestEven_fraction (Nat.two_pow_pos k)]

/-! ### Rounding to 53 digits -/

theorem ne_zero_of_le_log2 (hm : 52 ≤ m.log2) : m ≠ 0 := by
  rintro rfl
  simp at hm

theorem log2_mul_two_pow (hn : n ≠ 0) (k : Nat) : (n * 2 ^ k).log2 = n.log2 + k := by
  have hpos := Nat.two_pow_pos k
  refine (Nat.log2_eq_iff (Nat.mul_ne_zero hn hpos.ne')).2 ⟨?_, ?_⟩
  · rw [Nat.pow_add]
    exact Nat.mul_le_mul_right _ (Nat.log2_self_le hn)
  · rw [Nat.add_right_comm, Nat.pow_add]
    exact (Nat.mul_lt_mul_right hpos).2 Nat.lt_log2_self

theorem targetExponent_eq (m : Nat) (e : Int) :
    binary64.targetExponent (Float.Model.totalExponent m e) = max (m.log2 + e - 52) (-1074) := by
  unfold targetExponent minExponent mantissaBits Float.Model.totalExponent
  simp only
  omega

/-- A mantissa of 53 digits at least loses all others. -/
theorem shiftToTargetExponent_eq (hm : 52 ≤ m.log2) (he : -1074 ≤ e) :
    shiftToTargetExponent binary64 m e .exact =
      ((⟨m, false, false⟩ : ExtendedMantissa) >>> (m.log2 - 52), e + (m.log2 - 52 : Nat)) := by
  have hshift : (binary64.targetExponent (Float.Model.totalExponent m e) - e).toNat = m.log2 - 52 := by
    rw [targetExponent_eq]
    omega
  unfold shiftToTargetExponent UnpackedFloat.shiftToExponent
  simp only [hshift]
  rfl

/-- The float with a sign, a mantissa and an exponent. -/
def assembled (s : UnpackedFloat.Sign) (m : Nat) (e : Int) : UnpackedFloat :=
  if h : m = 0 then .zero s else .finite s m e (Nat.pos_of_ne_zero h)

theorem assembled_pos (h : 0 < m) : assembled s m e = .finite s m e h := dif_neg (Nat.ne_of_gt h)

theorem roundWithAccuracy_eq_assembled (s : UnpackedFloat.Sign) (m : Nat) (e : Int) :
    roundWithAccuracy binary64 s m e .exact =
      let shifted := shiftToTargetExponent binary64 m e .exact
      let settled := shiftToTargetExponent binary64 shifted.1.roundedMantissa shifted.2 .exact
      assembled s settled.1.mantissa settled.2 := rfl

theorem roundWithAccuracy_eq (hm : 52 ≤ m.log2) (he : -1074 ≤ e) :
    ∃ (q c : Nat) (h : 0 < q), 2 ^ 52 ≤ q ∧ q < 2 ^ 53 ∧ c ≤ 1 ∧
      q * 2 ^ c = nearestQuotient (2 ^ (m.log2 - 52)) m ∧
      roundWithAccuracy binary64 s m e .exact = .finite s q (e + (m.log2 - 52 : Nat) + c) h := by
  have hne := ne_zero_of_le_log2 hm
  obtain ⟨r, hr⟩ : ∃ r, r = nearestQuotient (2 ^ (m.log2 - 52)) m := ⟨_, rfl⟩
  have hlow : 2 ^ 52 ≤ r := by
    rw [hr]
    refine le_nearestQuotient (Nat.two_pow_pos _) ?_
    rw [← Nat.pow_add, Nat.add_sub_cancel' hm]
    exact Nat.log2_self_le hne
  have hhigh : r ≤ 2 ^ 53 := by
    rw [hr]
    refine nearestQuotient_le (Nat.two_pow_pos _) ?_
    rw [← Nat.pow_add, show 53 + (m.log2 - 52) = m.log2 + 1 by omega]
    exact Nat.le_of_lt Nat.lt_log2_self
  have hrne : r ≠ 0 := by omega
  have hrlog : 52 ≤ r.log2 := (Nat.le_log2 hrne).2 hlow
  have hround : roundWithAccuracy binary64 s m e .exact =
      assembled s (r / 2 ^ (r.log2 - 52)) (e + (m.log2 - 52 : Nat) + (r.log2 - 52 : Nat)) := by
    have hleast : -1074 ≤ e + (m.log2 - 52 : Nat) := by omega
    simp only [roundWithAccuracy_eq_assembled, shiftToTargetExponent_eq hm he, roundedMantissa_shiftRight, ← hr,
      shiftToTargetExponent_eq hrlog hleast, (keeps_shiftRight _ _).mantissa]
  rw [hround, ← hr]
  rcases Nat.lt_or_eq_of_le hhigh with hlt | rfl
  · have hlog : r.log2 - 52 = 0 := by
      have := (Nat.log2_lt hrne).2 hlt
      omega
    refine ⟨r, 0, by omega, hlow, hlt, Nat.zero_le 1, Nat.mul_one r, ?_⟩
    rw [hlog, Nat.pow_zero, Nat.div_one]
    exact assembled_pos _
  · -- All digits were ones, and rounding up has carried through them.
    refine ⟨2 ^ 52, 1, by decide, Nat.le_refl _, by decide, Nat.le_refl 1, rfl, ?_⟩
    rw [Nat.log2_two_pow]
    exact assembled_pos _

/-! ### Floats of whole numbers -/

/-- A float with 53 digits is the whole number `i`. -/
inductive Stands : UnpackedFloat → Int → Prop
  | zero (s : UnpackedFloat.Sign) : Stands (.zero s) 0
  | finite {s : UnpackedFloat.Sign} {m : Nat} {e : Int} {h : 0 < m} (k n : Nat) : 2 ^ 52 ≤ m → m < 2 ^ 53 → k ≤ 64 →
      e = k - 52 → m * 2 ^ k = n * 2 ^ 52 → Stands (.finite s m e h) (s.apply n)

/-- A number that is written with a scale is rounded as it would be without. -/
theorem nearestQuotient_of_scale {a b : Nat} (hm : 52 ≤ m.log2) (h : m * 2 ^ a = n * 2 ^ b) (hn : n ≠ 0) :
    nearestQuotient (2 ^ (m.log2 - 52)) m * 2 ^ n.log2 = nearest n * 2 ^ 52 := by
  have hne := ne_zero_of_le_log2 hm
  have hlog : m.log2 + a = n.log2 + b := by rw [← log2_mul_two_pow hne, h, log2_mul_two_pow hn]
  rw [← nearestQuotient_scaled (Nat.two_pow_pos a), h, ← Nat.pow_add]
  by_cases hsmall : n.log2 < 52
  · have hexact : n * 2 ^ b = n * 2 ^ (52 - n.log2) * 2 ^ (m.log2 - 52 + a) := by
      rw [Nat.mul_assoc, ← Nat.pow_add]
      congr 2
      omega
    have hlt : n < 2 ^ 53 := (Nat.log2_lt hn).1 (by omega)
    rw [hexact, nearestQuotient_mul_right (Nat.two_pow_pos _), nearest_of_le (Nat.le_of_lt hlt), Nat.mul_assoc,
      ← Nat.pow_add, Nat.sub_add_cancel (Nat.le_of_lt hsmall)]
  · have hscale : 2 ^ (m.log2 - 52 + a) = gap n * 2 ^ b := by
      rw [gap, ← Nat.pow_add]
      congr 1
      omega
    rw [hscale, nearestQuotient_scaled (Nat.two_pow_pos b), nearest, gap, Nat.mul_assoc, ← Nat.pow_add,
      Nat.sub_add_cancel (Nat.le_of_not_lt hsmall)]

/-- Rounding a number of any scale gives the nearest one. -/
theorem stands_roundWithAccuracy {a b : Nat} (hm : 52 ≤ m.log2) (h : m * 2 ^ a = n * 2 ^ b) (hn : n ≠ 0)
    (hlt : n < 2 ^ 64) (hb : b ≤ 1000) (he : e = a - b) :
    Stands (roundWithAccuracy binary64 s m e .exact) (s.apply (nearest n)) := by
  have hne := ne_zero_of_le_log2 hm
  have hlog : m.log2 + a = n.log2 + b := by rw [← log2_mul_two_pow hne, h, log2_mul_two_pow hn]
  have hbound : n.log2 < 64 := (Nat.log2_lt hn).2 hlt
  have hleast : -1074 ≤ e := by omega
  obtain ⟨q, c, hq, hlow, hhigh, hc, hquotient, hround⟩ := roundWithAccuracy_eq (s := s) hm hleast
  rw [hround]
  refine .finite (n.log2 + c) _ hlow hhigh (by omega) (by omega) ?_
  rw [Nat.add_comm, Nat.pow_add, ← Nat.mul_assoc, hquotient, nearestQuotient_of_scale hm h hn]

/-! ### Packing -/

/-- The biased exponent of a whole number fits its field. -/
theorem pack_finite {h : 0 < m} {k : Nat} (hlow : 2 ^ 52 ≤ m) (hhigh : m < 2 ^ 53) (hk : k ≤ 64) :
    UnpackedFloat.pack binary64 (.finite s m (k - 52) h) =
      UnpackedFloat.packComponents binary64 s (BitVec.ofNat _ (k + 1023)) (BitVec.ofNat _ m) := by
  have hlog : m.log2 = 52 := (Nat.log2_eq_iff (by omega)).2 ⟨hlow, hhigh⟩
  have hbiased : ((k : Int) - 52 + binary64.exponentBias + binary64.mantissaBitsWithoutImplicit).toNat = k + 1023 := by
    simp only [exponentBias]
    omega
  unfold UnpackedFloat.pack
  simp only [hbiased, hlog]
  rw [if_neg (by omega)]
  rfl

/-- The leading digit of a mantissa is left out in a packed float. -/
theorem toNat_one_append (hlow : 2 ^ 52 ≤ m) (hhigh : m < 2 ^ 53) : (1#1 ++ BitVec.ofNat 52 m).toNat = m := by
  have hdigits : m % 2 ^ 52 < 2 ^ 52 := Nat.mod_lt m (by decide)
  rw [BitVec.toNat_append, BitVec.toNat_ofNat, BitVec.toNat_ofNat, ← Nat.shiftLeft_add_eq_or_of_lt hdigits,
    Nat.shiftLeft_eq]
  omega

/-- Packing keeps whole numbers. -/
theorem Stands.unpack_pack {u : UnpackedFloat} {i : Int} (h : Stands u i) : (Float.Model.pack u).unpack = u := by
  cases h with
  | zero s => cases s <;> rfl
  | @finite s m e h k n hlow hhigh hk he hvalue =>
    subst he
    have hexponent : (BitVec.ofNat 11 (k + 1023)).toNat = k + 1023 := by
      rw [BitVec.toNat_ofNat]
      exact Nat.mod_eq_of_lt (by omega)
    have hnan : BitVec.ofNat 11 (k + 1023) ≠ -1#11 := by
      intro heq
      have hnat : k + 1023 = 2047 := by
        rw [← hexponent, heq]
        rfl
      omega
    have hsubnormal : BitVec.ofNat 11 (k + 1023) ≠ 0#11 := by
      intro heq
      have hnat : k + 1023 = 0 := by
        rw [← hexponent, heq]
        rfl
      omega
    have hbit (exponent : BitVec 11) (mantissa : BitVec 52) :
        (s.toBitVec ++ exponent ++ mantissa).extractLsb' 63 1 = s.toBitVec := by
      rw [BitVec.extractLsb'_append_eq_of_le (by decide), BitVec.extractLsb'_append_eq_left]
    have hsign (exponent : BitVec 11) (mantissa : BitVec 52) : UnpackedFloat.Sign.ofBitVec
        (UnpackedFloat.unpackSign (UnpackedFloat.packComponents binary64 s exponent mantissa)) = s := by
      refine (congrArg _ (hbit exponent mantissa)).trans ?_
      cases s <;> rfl
    show UnpackedFloat.unpack binary64 (UnpackedFloat.pack binary64 (.finite s m (k - 52) h)) = _
    rw [pack_finite hlow hhigh hk]
    unfold UnpackedFloat.unpack
    dsimp only
    rw [if_neg (by rwa [UnpackedFloat.unpackExponent_packComponents]),
      if_neg (by rwa [UnpackedFloat.unpackExponent_packComponents]), UnpackedFloat.finite.injEq,
      UnpackedFloat.unpackMantissa_packComponents, UnpackedFloat.unpackExponent_packComponents]
    refine ⟨hsign _ _, toNat_one_append hlow hhigh, ?_⟩
    rw [hexponent]
    simp only [exponentBias]
    omega

theorem Stands.stands_unpack {u : UnpackedFloat} {i : Int} (h : Stands u i) :
    Stands (Float.Model.pack u).unpack i := by
  rw [h.unpack_pack]
  exact h

/-! ### Order -/

theorem compare_strictMono {α β : Type} [LinearOrder α] [LinearOrder β] {f : α → β} (hf : StrictMono f) (a b : α) :
    compare (f a) (f b) = compare a b := (compare_iff _ _).2 (hf.compares.2 ((compare_iff a b).1 rfl))

theorem compare_mul_right (hu : 0 < u) (m n : Nat) : compare (m * u) (n * u) = compare m n :=
  compare_strictMono (fun _ _ h => (Nat.mul_lt_mul_right hu).2 h) m n

theorem compare_natCast (m n : Nat) : compare (m : Int) n = compare m n :=
  compare_strictMono Int.natCast_strictMono m n

theorem compare_neg (m n : Nat) : compare (-(m : Int)) (-(n : Int)) = (compare m n).swap := by
  rw [← Std.OrientedCmp.eq_swap]
  have hanti : StrictAnti fun k : Nat => -(k : Int) := fun _ _ h => by
    simpa using h
  exact (compare_iff _ _).2 (hanti.compares.2 ((compare_iff n m).1 rfl))

theorem scaled_lt {m m' k k' : Nat} (hm : m < 2 ^ 53) (hm' : 2 ^ 52 ≤ m') (hk : k < k') : m * 2 ^ k < m' * 2 ^ k' := by
  calc m * 2 ^ k < 2 ^ 53 * 2 ^ k := (Nat.mul_lt_mul_right (Nat.two_pow_pos k)).2 hm
    _ = 2 ^ 52 * 2 ^ (k + 1) := by ring
    _ ≤ m' * 2 ^ k' := Nat.mul_le_mul hm' (Nat.pow_le_pow_right (by decide) hk)

/-- Numbers with 53 digits are compared by their exponents first. -/
theorem compare_scaled {m m' k k' : Nat} (hm : 2 ^ 52 ≤ m ∧ m < 2 ^ 53) (hm' : 2 ^ 52 ≤ m' ∧ m' < 2 ^ 53) :
    (compare ((k : Int) - 52) (k' - 52)).then (compare m m') = compare (m * 2 ^ k) (m' * 2 ^ k') := by
  rcases Nat.lt_trichotomy k k' with hlt | rfl | hgt
  · have hexponents : compare ((k : Int) - 52) (k' - 52) = .lt := Int.compare_eq_lt.2 (by omega)
    rw [hexponents, Nat.compare_eq_lt.2 (scaled_lt hm.2 hm'.1 hlt)]
    rfl
  · have hexponents : compare ((k : Int) - 52) (k - 52) = .eq := Int.compare_eq_eq.2 rfl
    rw [hexponents, Ordering.eq_then, compare_mul_right (Nat.two_pow_pos k)]
  · have hexponents : compare ((k : Int) - 52) (k' - 52) = .gt := Int.compare_eq_gt.2 (by omega)
    rw [hexponents, Nat.compare_eq_gt.2 (scaled_lt hm'.2 hm.1 hgt)]
    rfl

/-- Floats of whole numbers compare as these do. -/
theorem Stands.compare_eq {u v : UnpackedFloat} {i j : Int} (hu : Stands u i) (hv : Stands v j) :
    u.compare v = some (compare i j) := by
  have hpos {m k n : Nat} (hm : 0 < m) (h : m * 2 ^ k = n * 2 ^ 52) : (0 : Int) < n := by
    have hscaled := Nat.mul_pos hm (Nat.two_pow_pos k)
    omega
  cases hu with
  | zero s =>
    cases hv with
    | zero t => rfl
    | @finite t m e hm k n _ _ _ _ hvalue =>
      have hn := hpos hm hvalue
      cases t with
      | negative => exact congrArg some (Int.compare_eq_gt.2 (Int.neg_neg_of_pos hn)).symm
      | positive => exact congrArg some (Int.compare_eq_lt.2 hn).symm
  | @finite s m e hm k n hlow hhigh hk he hvalue =>
    have hn := hpos hm hvalue
    cases hv with
    | zero t =>
      cases s with
      | negative => exact congrArg some (Int.compare_eq_lt.2 (Int.neg_neg_of_pos hn)).symm
      | positive => exact congrArg some (Int.compare_eq_gt.2 hn).symm
    | @finite t m' e' hm' k' n' hlow' hhigh' hk' he' hvalue' =>
      have hn' := hpos hm' hvalue'
      have hmagnitudes : (compare e e').then (compare m m') = compare n n' := by
        rw [he, he', compare_scaled ⟨hlow, hhigh⟩ ⟨hlow', hhigh'⟩, hvalue, hvalue', compare_mul_right (by decide)]
      have hapart : -(n : Int) < n' ∧ -(n' : Int) < n := by omega
      cases s with
      | negative =>
        cases t with
        | negative => exact congrArg some ((congrArg Ordering.swap hmagnitudes).trans (compare_neg n n').symm)
        | positive => exact congrArg some (Int.compare_eq_lt.2 hapart.1).symm
      | positive =>
        cases t with
        | negative => exact congrArg some (Int.compare_eq_gt.2 hapart.2).symm
        | positive => exact congrArg some (hmagnitudes.trans (compare_natCast n n').symm)

theorem Stands.neg {u : UnpackedFloat} {i : Int} (h : Stands u i) : Stands u.neg (-i) := by
  cases h with
  | zero s => exact .zero _
  | @finite s m e h k n hlow hhigh hk he hvalue =>
    have happly : -s.apply n = (-s).apply n := by
      cases s with
      | negative => exact neg_neg _
      | positive => rfl
    rw [happly]
    exact .finite k n hlow hhigh hk he hvalue

/-! ### Conversions -/

/-- Machine integers are floats first where they have 53 digits at most. -/
theorem stands_toFloat (hn : n ≠ 0) (hlt : n < 2 ^ 53) : Stands (unpacked n.toUInt64.toFloat) n := by
  have hlog : n.log2 ≤ 52 := by
    have := (Nat.log2_lt hn).2 hlt
    omega
  have htoNat : n.toUInt64.toNat = n := Nat.mod_eq_of_lt (by omega)
  have hround : UnpackedFloat.ofUInt64 binary64 n.toUInt64 =
      roundWithAccuracy binary64 .positive (n * 2 ^ (52 - n.log2)) (0 - (52 - n.log2 : Nat)) .exact := by
    have hshift : (0 - binary64.targetExponent (Float.Model.totalExponent n 0)).toNat = 52 - n.log2 := by
      rw [targetExponent_eq]
      omega
    have hpositive : compare (n : Int) 0 = .gt := Int.compare_eq_gt.2 (by omega)
    unfold UnpackedFloat.ofUInt64 UnpackedFloat.ofNat UnpackedFloat.ofInt UnpackedFloat.normalize UnpackedFloat.round
      UnpackedFloat.decreaseExponent
    simp only [htoNat, hpositive, Int.toNat_natCast, hshift, Nat.shiftLeft_eq]
  have hstands : Stands (UnpackedFloat.ofUInt64 binary64 n.toUInt64) n := by
    have hdigits : 52 ≤ (n * 2 ^ (52 - n.log2)).log2 := by
      rw [log2_mul_two_pow hn]
      omega
    have h := stands_roundWithAccuracy (s := .positive) (a := 0) (e := (0 : Nat) - (52 - n.log2 : Nat)) hdigits
      (Nat.mul_one _) hn (by omega) (by omega) rfl
    rw [hround]
    rw [nearest_of_lt hlt] at h
    exact h
  show Stands (Float.Model.pack _).unpack _
  rw [hstands.unpack_pack]
  exact hstands

theorem Stands.exists_finite {u : UnpackedFloat} (h : Stands u n) (hn : n ≠ 0) :
    ∃ (m k : Nat) (hm : 0 < m), u = .finite .positive m (k - 52) hm ∧ 2 ^ 52 ≤ m ∧ m * 2 ^ k = n * 2 ^ 52 := by
  generalize hi : (n : Int) = i at h
  cases h with
  | zero s => omega
  | @finite s m e hm k n' hlow _ _ he hvalue =>
    cases s with
    | negative =>
      have hneg : (n : Int) = -n' := hi
      omega
    | positive =>
      obtain rfl : n = n' := Int.ofNat.inj hi
      subst he
      exact ⟨m, k, hm, rfl, hlow, hvalue⟩

theorem unpacked_one : unpacked (Float.ofBits 0x3FF0000000000000) = .finite .positive (2 ^ 52) (-52) (by decide) := by
  rfl

theorem unpacked_mul (x y : Float) :
    unpacked (x * y) = (Float.Model.pack (UnpackedFloat.mul binary64 (unpacked x) (unpacked y))).unpack := rfl

/-- Multiplying by one rounds once more. -/
theorem stands_mul_one {x : Float} (h : Stands (unpacked x) n) (hn : n ≠ 0) (hlt : n < 2 ^ 64) :
    Stands (unpacked (x * Float.ofBits 0x3FF0000000000000)) (nearest n) := by
  obtain ⟨m, k, hm, hfloat, hlow, hvalue⟩ := h.exists_finite hn
  have hscale : m * 2 ^ 52 * 2 ^ k = n * 2 ^ 104 := by
    rw [Nat.mul_right_comm, hvalue, Nat.mul_assoc, ← Nat.pow_add]
  have hlog : 52 ≤ (m * 2 ^ 52).log2 := by
    rw [log2_mul_two_pow hm.ne']
    omega
  rw [unpacked_mul, hfloat, unpacked_one]
  exact (stands_roundWithAccuracy (s := .positive) hlog hscale hn hlt (by decide) (by omega)).stands_unpack

/-- A decimal without an exponent is shifted up and rounded once. -/
theorem stands_ofScientific (hn : n ≠ 0) (hlt : n < 2 ^ 64) :
    Stands (UnpackedFloat.ofScientific binary64 n 0) (nearest n) := by
  have hlog : 52 ≤ (n <<< 53 * 10 ^ 0).log2 := by
    rw [Nat.pow_zero, Nat.mul_one, Nat.shiftLeft_eq, log2_mul_two_pow hn]
    omega
  have hscale : n <<< 53 * 10 ^ 0 * 2 ^ 0 = n * 2 ^ 53 := by
    simp only [Nat.pow_zero, Nat.mul_one, Nat.shiftLeft_eq]
  have hlarge : ¬ (0 : Int) > 2 ^ binary64.exponentBits := by decide
  have hsmall : ¬ (0 : Int) < -(2 ^ binary64.exponentBits + n.log2) := by
    simp only
    omega
  have hround : UnpackedFloat.ofScientific binary64 n 0 =
      roundWithAccuracy binary64 .positive (n <<< 53 * 10 ^ 0) (-53 + 0) .exact := by
    unfold UnpackedFloat.ofScientific
    rw [dif_neg hn, if_neg hlarge, if_neg hsmall, if_pos (Int.le_refl 0)]
    rfl
  rw [hround]
  exact stands_roundWithAccuracy hlog hscale hn hlt (by decide) rfl

theorem stands_ofNat (hn : n ≠ 0) (hlt : n < 2 ^ 64) : Stands (unpacked (Float.ofNat n)) (nearest n) := by
  have hof : Float.ofNat n = Float.ofScientific n false 0 := rfl
  rw [hof, Float.ofScientific]
  split
  · next hsmall =>
    -- Few digits: the machine integer is a float already, and it is multiplied by one.
    exact stands_mul_one (stands_toFloat hn hsmall.1) hn hlt
  · exact (stands_ofScientific hn hlt).stands_unpack

/-- The float of a whole number is the nearest one. -/
theorem stands_ofInt {i : Int} (hi : i.natAbs < 2 ^ 64) : Stands (unpacked (Float.ofInt i)) (nearestInt i) := by
  have hofNat {n : Nat} (hn : n < 2 ^ 64) : Stands (unpacked (Float.ofNat n)) (nearest n) := by
    by_cases hzero : n = 0
    · have hfloat : unpacked (Float.ofNat 0) = .zero .positive := rfl
      rw [hzero, nearest_of_lt (by decide), hfloat]
      exact .zero .positive
    · exact stands_ofNat hzero hn
  cases i with
  | ofNat n =>
    rw [Int.ofNat_eq_natCast, nearestInt_natCast]
    exact hofNat hi
  | negSucc n =>
    rw [Int.negSucc_eq, nearestInt_neg]
    have hneg := (hofNat (n := n + 1) hi).neg.stands_unpack
    rw [← nearestInt_natCast] at hneg
    exact hneg

/-- Whole numbers that are read as floats compare as the nearest floats do. -/
theorem order?_ofInt {i j : Int} (hi : i.natAbs < 2 ^ 64) (hj : j.natAbs < 2 ^ 64) :
    Operation.order? (Float.ofInt i) (Float.ofInt j) = some (compare (nearestInt i) (nearestInt j)) := by
  rw [order?_eq_compare]
  exact (stands_ofInt hi).compare_eq (stands_ofInt hj)

end Stencil.Decimal
