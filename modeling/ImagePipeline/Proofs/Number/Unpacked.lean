import ImagePipeline.Proofs.Number.ToNearest

/-!
# Rounding of unpacked floats

A mantissa that is cut off keeps two more bits, from which one can tell on which side of the middle
the rest lies (`Represents`). That is enough to round to nearest: whatever an operation computes
from the exact result comes out as the rounded one (`denotes_roundWithAccuracy`). Packing keeps it
unless it is too large for the format, and then makes it infinite (`packed_eq`).
-/

namespace ImagePipeline.Floating

open Float.Model (Format totalExponent UnpackedFloat)
open Float.Model.UnpackedFloat

/-! ### The two shifts of rounding -/

variable {f : Format} {m : ℕ} {e : ℤ} {acc : Accuracy} {v : ℝ}

theorem mantissa_shiftRight (em : ExtendedMantissa) (n : ℕ) :
    (em >>> n).mantissa = em.mantissa / 2 ^ n := by
  change (n.repeat ExtendedMantissa.shiftRightOne em).mantissa = _
  induction n with
  | zero => exact (Nat.div_one _).symm
  | succ n ih =>
    change (n.repeat ExtendedMantissa.shiftRightOne em).mantissa / 2 = _
    rw [ih, Nat.div_div_eq_div_mul, pow_succ]

theorem mantissa_ofMantissaAndAccuracy (m : ℕ) (acc : Accuracy) :
    (ExtendedMantissa.ofMantissaAndAccuracy m acc).mantissa = m := by
  cases acc with
  | exact => rfl
  | inexact order => cases order <;> rfl

theorem mantissaBits_pos (f : Format) : 0 < f.mantissaBits := by
  rw [Format.mantissaBits]
  omega

theorem targetExponent_totalExponent (f : Format) (m : ℕ) (e : ℤ) :
    f.targetExponent (totalExponent m e)
      = max ((m.log2 : ℤ) + 1 + e - f.mantissaBits) f.minExponent := rfl

theorem log_of_bounds (hm : 0 < m) (hlow : (m : ℝ) ≤ v / 2 ^ e) (hhigh : v / 2 ^ e < m + 1) :
    Int.log 2 v = m.log2 + e := by
  have hpow : (0 : ℝ) < 2 ^ e := by positivity
  rw [le_div_iff₀ hpow] at hlow
  rw [div_lt_iff₀ hpow] at hhigh
  refine log_eq ?_ ?_
  · have hbelow : (2 : ℝ) ^ (m.log2 : ℤ) ≤ m := by exact_mod_cast Nat.log2_self_le hm.ne'
    rw [zpow_add₀ two_ne_zero]
    exact (mul_le_mul_of_nonneg_right hbelow hpow.le).trans hlow
  · have habove : (m : ℝ) + 1 ≤ 2 ^ ((m.log2 : ℤ) + 1) := by
      exact_mod_cast Nat.succ_le_of_lt (Nat.lt_log2_self (n := m))
    rw [show (m.log2 : ℤ) + e + 1 = (m.log2 + 1) + e by ring, zpow_add₀ two_ne_zero]
    exact hhigh.trans_le (mul_le_mul_of_nonneg_right habove hpow.le)

/-- The target exponent is that of the number, which the mantissa and the exponent only stand for. A
mantissa of zero tells nothing of how small the number is, but then it is below all exponents. -/
theorem targetExponent_eq (hv : 0 < v)
    (hx : Represents (.ofMantissaAndAccuracy m acc) (v / 2 ^ e)) (he : e ≤ exponentOf f v) :
    f.targetExponent (totalExponent m e) = exponentOf f v := by
  obtain ⟨hlow, hhigh⟩ := hx.bounds
  rw [mantissa_ofMantissaAndAccuracy] at hlow hhigh
  rcases Nat.eq_zero_or_pos m with rfl | hm
  · have hpow : (0 : ℝ) < 2 ^ e := by positivity
    rw [div_lt_iff₀ hpow, Nat.cast_zero, zero_add, one_mul] at hhigh
    have hlog := (Int.lt_zpow_iff_log_lt one_lt_two hv).mp (by exact_mod_cast hhigh)
    have hbits := mantissaBits_pos f
    rw [targetExponent_totalExponent, Nat.log2_zero]
    rw [exponentOf_eq] at he ⊢
    omega
  · rw [targetExponent_totalExponent, exponentOf_eq, log_of_bounds hm hlow hhigh]
    omega

theorem represents_shiftToTargetExponent (hv : 0 < v)
    (hx : Represents (.ofMantissaAndAccuracy m acc) (v / 2 ^ e)) (he : e ≤ exponentOf f v) :
    Represents (shiftToTargetExponent f m e acc).1 (scaled f v) ∧
      (shiftToTargetExponent f m e acc).2 = exponentOf f v := by
  have htarget := targetExponent_eq hv hx he
  simp only [shiftToTargetExponent, shiftToExponent, htarget]
  refine ⟨?_, by omega⟩
  have hshift := hx.shiftRight (exponentOf f v - e).toNat
  have hvalue : v / 2 ^ e / 2 ^ (exponentOf f v - e).toNat = scaled f v := by
    rw [scaled, div_div, ← zpow_natCast, ← zpow_add₀ two_ne_zero]
    congr 2
    omega
  rwa [hvalue] at hshift

/-- A mantissa that has not too many bits stays, and so does one that is less than it might be at
the least exponent. -/
theorem shiftToTargetExponent_short {n : ℕ} {k : ℤ} (hn : n < 2 ^ f.mantissaBits)
    (hk : f.minExponent ≤ k) :
    (shiftToTargetExponent f n k .exact).1.mantissa = n ∧
      (shiftToTargetExponent f n k .exact).2 = k := by
  have hshift : (f.targetExponent (totalExponent n k) - k).toNat = 0 := by
    have hbits := mantissaBits_pos f
    have hlog : n.log2 + 1 ≤ f.mantissaBits := by
      rcases Nat.eq_zero_or_pos n with rfl | hpos
      · exact hbits
      · exact (Nat.log2_lt hpos.ne').mpr hn
    rw [targetExponent_totalExponent]
    omega
  simp only [shiftToTargetExponent, shiftToExponent, hshift]
  exact ⟨rfl, Int.add_zero k⟩

/-- Rounding up may give one bit too many, and then only zeros are left below the first bit. -/
theorem shiftToTargetExponent_carry {k : ℤ} (hk : f.minExponent ≤ k) :
    (shiftToTargetExponent f (2 ^ f.mantissaBits) k .exact).1.mantissa
        = 2 ^ f.mantissaBitsWithoutImplicit ∧
      (shiftToTargetExponent f (2 ^ f.mantissaBits) k .exact).2 = k + 1 := by
  have hshift : (f.targetExponent (totalExponent (2 ^ f.mantissaBits) k) - k).toNat = 1 := by
    rw [targetExponent_totalExponent, Nat.log2_two_pow]
    omega
  simp only [shiftToTargetExponent, shiftToExponent, hshift]
  refine ⟨?_, rfl⟩
  rw [mantissa_shiftRight, mantissa_ofMantissaAndAccuracy, Format.mantissaBits, pow_add, pow_one,
    Nat.mul_div_cancel_left _ two_pos]

/-! ### Rounded results -/

/-- The mantissa has all its bits or the exponent is the least one, as the format wants it. -/
def Canonical (f : Format) : UnpackedFloat → Prop
  | .finite _ m e _ => m < 2 ^ f.mantissaBits ∧ f.minExponent ≤ e ∧
      (2 ^ f.mantissaBitsWithoutImplicit ≤ m ∨ e = f.minExponent)
  | _ => True

theorem two_pow_mantissaBits (f : Format) :
    2 ^ f.mantissaBits = 2 * 2 ^ f.mantissaBitsWithoutImplicit := by
  rw [Format.mantissaBits, pow_add, pow_one]

/-- What is left of a rounded mantissa. -/
def kept (s : Sign) (n : ℕ) (k : ℤ) : UnpackedFloat :=
  if h : n = 0 then .zero s else .finite s n k (Nat.pos_of_ne_zero h)

theorem denotes_kept (s : Sign) (n : ℕ) (k : ℤ) : Denotes (kept s n k) s (n * 2 ^ k) := by
  unfold kept
  split
  · next hzero => exact ⟨rfl, by rw [hzero, Nat.cast_zero, zero_mul]⟩
  · exact ⟨rfl, rfl⟩

theorem canonical_kept {f : Format} (s : Sign) {n : ℕ} {k : ℤ} (hn : n < 2 ^ f.mantissaBits)
    (hk : f.minExponent ≤ k)
    (hfull : f.minExponent < k → 2 ^ f.mantissaBitsWithoutImplicit ≤ n) :
    Canonical f (kept s n k) := by
  unfold kept
  split
  · trivial
  · refine ⟨hn, hk, ?_⟩
    rcases hk.eq_or_lt with heq | hlt
    · exact .inr heq.symm
    · exact .inl (hfull hlt)

theorem roundWithAccuracy_eq (f : Format) (s : Sign) (m : ℕ) (e : ℤ) (acc : Accuracy) :
    roundWithAccuracy f s m e acc
      = kept s
        (shiftToTargetExponent f (shiftToTargetExponent f m e acc).1.roundedMantissa
          (shiftToTargetExponent f m e acc).2 .exact).1.mantissa
        (shiftToTargetExponent f (shiftToTargetExponent f m e acc).1.roundedMantissa
          (shiftToTargetExponent f m e acc).2 .exact).2 := rfl

/-- An operation that has the exact result to within the two bits gives the rounded one. -/
theorem denotes_roundWithAccuracy (s : Sign) (hv : 0 < v)
    (hx : Represents (.ofMantissaAndAccuracy m acc) (v / 2 ^ e)) (he : e ≤ exponentOf f v) :
    Canonical f (roundWithAccuracy f s m e acc) ∧
      Denotes (roundWithAccuracy f s m e acc) s (rounded f v) := by
  obtain ⟨hshifted, hexponent⟩ := represents_shiftToTargetExponent hv hx he
  have hmin := minExponent_le f v
  rw [roundWithAccuracy_eq, hexponent, hshifted.roundedMantissa_eq]
  rcases Nat.lt_or_eq_of_le (nearestEven_scaled_le f v) with hshort | hcarry
  · obtain ⟨hmantissa, hfinal⟩ := shiftToTargetExponent_short hshort hmin
    rw [hmantissa, hfinal]
    exact ⟨canonical_kept s hshort hmin (le_nearestEven_scaled hv), denotes_kept s _ _⟩
  · obtain ⟨hmantissa, hfinal⟩ := shiftToTargetExponent_carry (f := f) hmin
    have hpow := two_pow_mantissaBits f
    have hpos := Nat.two_pow_pos f.mantissaBitsWithoutImplicit
    have hvalue : rounded f v
        = ((2 ^ f.mantissaBitsWithoutImplicit : ℕ) : ℝ) * 2 ^ (exponentOf f v + 1) := by
      rw [rounded, hcarry, hpow, zpow_add_one₀ two_ne_zero]
      push_cast
      ring
    rw [hcarry, hmantissa, hfinal, hvalue]
    exact ⟨canonical_kept s (by omega) (by omega) fun _ => Nat.le_refl _, denotes_kept s _ _⟩

theorem denotes_round (f : Format) (s : Sign) (hm : 0 < m) (e : ℤ) :
    Canonical f (UnpackedFloat.round f s m e) ∧
      Denotes (UnpackedFloat.round f s m e) s (rounded f (m * 2 ^ e)) := by
  have hvalue : (m : ℝ) * 2 ^ e / 2 ^ e = m := mul_div_cancel_right₀ _ (by positivity)
  have htarget : f.targetExponent (totalExponent m e) = exponentOf f (m * 2 ^ e) := by
    rw [targetExponent_totalExponent, exponentOf_eq,
      log_of_bounds hm hvalue.ge (by rw [hvalue]; exact lt_add_one _)]
    omega
  simp only [UnpackedFloat.round, decreaseExponent, htarget]
  refine denotes_roundWithAccuracy s (by positivity) ?_ (by omega)
  have hscaled : (m : ℝ) * 2 ^ e / 2 ^ (e - ((e - exponentOf f (m * 2 ^ e)).toNat : ℤ))
      = ((m <<< (e - exponentOf f (m * 2 ^ e)).toNat : ℕ) : ℝ) := by
    rw [zpow_sub₀ two_ne_zero, zpow_natCast, Nat.shiftLeft_eq]
    push_cast
    field_simp
  rw [hscaled]
  exact .exact _

/-! ### Packing -/

theorem minExponent_eq (f : Format) :
    f.minExponent = 1 - (f.exponentBias : ℤ) - f.mantissaBitsWithoutImplicit := by
  have hone : 1 ≤ 2 ^ (f.exponentBits - 1) := Nat.one_le_two_pow
  rw [Format.minExponent, Format.exponentBias, Format.mantissaBits, Nat.cast_sub hone]
  push_cast
  ring

theorem two_pow_exponentBits (f : Format) : 2 ^ f.exponentBits = 2 * f.exponentBias + 2 := by
  have hone : 1 ≤ 2 ^ (f.exponentBits - 1) := Nat.one_le_two_pow
  have hsplit : 2 ^ f.exponentBits = 2 * 2 ^ (f.exponentBits - 1) := by
    rw [← pow_succ', Nat.sub_add_cancel f.he]
  rw [hsplit, Format.exponentBias]
  omega

theorem toNat_neg_one (f : Format) : (-1#f.exponentBits).toNat = 2 * f.exponentBias + 1 := by
  rw [BitVec.neg_one_eq_allOnes, BitVec.toNat_allOnes, two_pow_exponentBits]
  rfl

theorem zero_ne_neg_one (f : Format) : 0#f.exponentBits ≠ -1#f.exponentBits := by
  intro h
  have hvalue := congrArg BitVec.toNat h
  rw [toNat_neg_one, BitVec.toNat_zero] at hvalue
  omega

/-- What is left of a float that has been packed. -/
def packed (f : Format) (u : UnpackedFloat) : UnpackedFloat :=
  UnpackedFloat.unpack f (UnpackedFloat.pack f u)

theorem packed_zero (f : Format) (s : Sign) : packed f (.zero s) = .zero s := by
  change UnpackedFloat.unpack f (packComponents f s 0#_ 0#_) = _
  simp only [UnpackedFloat.unpack, unpackExponent_packComponents, unpackMantissa_packComponents,
    unpackSign_packComponents, Sign.ofBitVec_toBitVec, zero_ne_neg_one, if_false, if_true,
    dite_true]

theorem packed_infinity (f : Format) (s : Sign) : packed f (.infinity s) = .infinity s := by
  change UnpackedFloat.unpack f (packComponents f s (-1#_) 0#_) = _
  simp only [UnpackedFloat.unpack, unpackExponent_packComponents, unpackMantissa_packComponents,
    unpackSign_packComponents, Sign.ofBitVec_toBitVec, if_true]

theorem toNat_biased {k : ℕ} (hk : k < 2 ^ f.exponentBits) :
    (BitVec.ofNat f.exponentBits k).toNat = k := by
  rw [BitVec.toNat_ofNat, Nat.mod_eq_of_lt hk]

theorem toNat_implicit {m : ℕ} (hlow : 2 ^ f.mantissaBitsWithoutImplicit ≤ m)
    (hhigh : m < 2 ^ f.mantissaBits) :
    (1#1 ++ BitVec.ofNat f.mantissaBitsWithoutImplicit m).toNat = m := by
  have hpow := two_pow_mantissaBits f
  have hrest : m % 2 ^ f.mantissaBitsWithoutImplicit < 2 ^ f.mantissaBitsWithoutImplicit :=
    Nat.mod_lt _ (Nat.two_pow_pos _)
  have hquotient : m / 2 ^ f.mantissaBitsWithoutImplicit = 1 :=
    Nat.div_eq_of_lt_le (by omega) (by omega)
  have hsplit := Nat.div_add_mod m (2 ^ f.mantissaBitsWithoutImplicit)
  rw [hquotient] at hsplit
  rw [BitVec.toNat_append, BitVec.toNat_ofNat, BitVec.toNat_ofNat,
    ← Nat.shiftLeft_add_eq_or_of_lt hrest, Nat.shiftLeft_eq]
  omega

/-- Packing loses nothing of a canonical float whose exponent fits. -/
theorem packed_finite {s : Sign} {hm : 0 < m} (h : Canonical f (.finite s m e hm))
    (hfits : e ≤ f.exponentBias - f.mantissaBitsWithoutImplicit) :
    packed f (.finite s m e hm) = .finite s m e hm := by
  obtain ⟨hbits, hleast, hfull⟩ := h
  have hcapacity := two_pow_exponentBits f
  rw [minExponent_eq] at hleast hfull
  generalize hbiased : (e + f.exponentBias + f.mantissaBitsWithoutImplicit).toNat = k
  have hk : ¬ 2 ^ f.exponentBits ≤ k + 1 := by omega
  have htoNat := toNat_biased (f := f) (k := k) (by omega)
  simp only [packed, pack, hbiased, hk, if_false]
  by_cases hnormal : 2 ^ f.mantissaBitsWithoutImplicit ≤ m
  · have hlog : m.log2 + 1 = f.mantissaBits := by
      have hlow := (Nat.le_log2 hm.ne').mpr hnormal
      have hhigh := (Nat.log2_lt hm.ne').mpr hbits
      rw [Format.mantissaBits] at hhigh ⊢
      omega
    have hinfinite : BitVec.ofNat f.exponentBits k ≠ -1#f.exponentBits := by
      intro heq
      have hvalue := congrArg BitVec.toNat heq
      rw [htoNat, toNat_neg_one] at hvalue
      omega
    have hsubnormal : BitVec.ofNat f.exponentBits k ≠ 0#f.exponentBits := by
      intro heq
      have hvalue := congrArg BitVec.toNat heq
      rw [htoNat, BitVec.toNat_zero] at hvalue
      omega
    rw [if_pos hlog]
    simp only [UnpackedFloat.unpack, unpackExponent_packComponents, unpackMantissa_packComponents,
      unpackSign_packComponents, Sign.ofBitVec_toBitVec, hinfinite, hsubnormal, if_false, htoNat,
      toNat_implicit hnormal hbits]
    congr 1
    omega
  · have hsmall : m < 2 ^ f.mantissaBitsWithoutImplicit := Nat.lt_of_not_le hnormal
    have hlog : ¬ m.log2 + 1 = f.mantissaBits := by
      have hhigh := (Nat.log2_lt hm.ne').mpr hsmall
      rw [Format.mantissaBits]
      omega
    have hmantissa : (BitVec.ofNat f.mantissaBitsWithoutImplicit m).toNat = m := by
      rw [BitVec.toNat_ofNat, Nat.mod_eq_of_lt hsmall]
    have hsome : BitVec.ofNat f.mantissaBitsWithoutImplicit m
        ≠ 0#f.mantissaBitsWithoutImplicit := by
      intro heq
      have hvalue := congrArg BitVec.toNat heq
      rw [hmantissa, BitVec.toNat_zero] at hvalue
      omega
    rw [if_neg hlog]
    simp only [UnpackedFloat.unpack, unpackExponent_packComponents, unpackMantissa_packComponents,
      unpackSign_packComponents, Sign.ofBitVec_toBitVec, zero_ne_neg_one, if_false, if_true, hsome,
      dite_false, hmantissa, BitVec.toNat_zero]
    congr 1
    omega

theorem packed_large {s : Sign} {hm : 0 < m}
    (hlarge : f.exponentBias - f.mantissaBitsWithoutImplicit < e) :
    packed f (.finite s m e hm) = .infinity s := by
  have hcapacity := two_pow_exponentBits f
  have hbiased : 2 ^ f.exponentBits
      ≤ (e + f.exponentBias + f.mantissaBitsWithoutImplicit).toNat + 1 := by omega
  rw [← packed_infinity f s]
  simp only [packed, pack, hbiased, if_true]

theorem canonical_unpack (f : Format) (b : BitVec f.numBits) :
    Canonical f (UnpackedFloat.unpack f b) := by
  have hmantissa := (@unpackMantissa f b).isLt
  have hpow := two_pow_mantissaBits f
  have hleast := minExponent_eq f
  unfold UnpackedFloat.unpack
  dsimp only
  split
  · split <;> trivial
  · split
    · next hzero =>
      split
      · trivial
      · rw [hzero]
        exact ⟨by omega, by rw [BitVec.toNat_zero]; omega, .inr (by rw [BitVec.toNat_zero]; omega)⟩
    · next hnonzero =>
      have hfield : (@unpackExponent f b).toNat ≠ 0 := fun h => hnonzero (BitVec.eq_of_toNat_eq h)
      have htoNat : (1#1 ++ @unpackMantissa f b).toNat
          = 2 ^ f.mantissaBitsWithoutImplicit + (@unpackMantissa f b).toNat := by
        rw [BitVec.toNat_append, BitVec.toNat_ofNat, ← Nat.shiftLeft_add_eq_or_of_lt hmantissa,
          Nat.shiftLeft_eq]
        omega
      exact ⟨by omega, by omega, .inl (by omega)⟩

theorem fits_unpack {b : BitVec f.numBits} {s : Sign} {hm : 0 < m}
    (hbias : 0 < f.exponentBias) (h : UnpackedFloat.unpack f b = .finite s m e hm) :
    e ≤ f.exponentBias - f.mantissaBitsWithoutImplicit := by
  have hfield := (@unpackExponent f b).isLt
  have hcapacity := two_pow_exponentBits f
  have hones := toNat_neg_one f
  unfold UnpackedFloat.unpack at h
  dsimp only at h
  split at h
  · split at h
    · cases h
    · cases h
  · next hinfinite =>
    have hneq : (@unpackExponent f b).toNat ≠ 2 * f.exponentBias + 1 := fun heq =>
      hinfinite (BitVec.eq_of_toNat_eq (heq.trans hones.symm))
    split at h
    · next hzero =>
      split at h
      · cases h
      · simp only [UnpackedFloat.finite.injEq] at h
        rw [hzero, BitVec.toNat_zero] at h
        omega
    · simp only [UnpackedFloat.finite.injEq] at h
      omega

/-! ### The order of canonical floats -/

theorem value_lt {m n : ℕ} {e k : ℤ} {s t : Sign} {hm : 0 < m} {hn : 0 < n}
    (hleft : Canonical f (.finite s m e hm)) (hright : Canonical f (.finite t n k hn))
    (h : e < k ∨ e = k ∧ m < n) : (m : ℝ) * 2 ^ e < n * 2 ^ k := by
  rcases h with hlt | ⟨rfl, hlt⟩
  · have hbelow : (m : ℝ) < 2 ^ (f.mantissaBits : ℤ) := by exact_mod_cast hleft.1
    have hfull : 2 ^ f.mantissaBitsWithoutImplicit ≤ n := by
      rcases hright.2.2 with hfull | hleast
      · exact hfull
      · have hmin := hleft.2.1
        omega
    have habove : (2 : ℝ) ^ (f.mantissaBitsWithoutImplicit : ℤ) ≤ n := by exact_mod_cast hfull
    have hexponent : (f.mantissaBits : ℤ) + e ≤ f.mantissaBitsWithoutImplicit + k := by
      rw [Format.mantissaBits]
      omega
    calc (m : ℝ) * 2 ^ e
        < 2 ^ (f.mantissaBits : ℤ) * 2 ^ e := mul_lt_mul_of_pos_right hbelow (by positivity)
      _ = 2 ^ ((f.mantissaBits : ℤ) + e) := (zpow_add₀ two_ne_zero _ _).symm
      _ ≤ 2 ^ ((f.mantissaBitsWithoutImplicit : ℤ) + k) :=
          zpow_le_zpow_right₀ one_le_two hexponent
      _ = 2 ^ (f.mantissaBitsWithoutImplicit : ℤ) * 2 ^ k := zpow_add₀ two_ne_zero _ _
      _ ≤ n * 2 ^ k := mul_le_mul_of_nonneg_right habove (by positivity)
  · exact mul_lt_mul_of_pos_right (by exact_mod_cast hlt) (by positivity)

/-- Exponents are compared first, and that is right of canonical floats. -/
theorem compare_then_eq {m n : ℕ} {e k : ℤ} {s t : Sign} {hm : 0 < m} {hn : 0 < n}
    (hleft : Canonical f (.finite s m e hm)) (hright : Canonical f (.finite t n k hn)) :
    (compare e k).then (compare m n) = compare ((m : ℝ) * 2 ^ e) (n * 2 ^ k) := by
  rcases Int.lt_trichotomy e k with hlt | rfl | hgt
  · rw [Int.compare_eq_lt.mpr hlt, compare_lt_iff_lt.mpr (value_lt hleft hright (.inl hlt))]
    rfl
  · rw [Int.compare_eq_eq.mpr rfl]
    change compare m n = _
    rcases Nat.lt_trichotomy m n with hlt | rfl | hgt
    · rw [Nat.compare_eq_lt.mpr hlt,
        compare_lt_iff_lt.mpr (value_lt hleft hright (.inr ⟨rfl, hlt⟩))]
    · rw [compare_eq_iff_eq.mpr rfl, compare_eq_iff_eq.mpr rfl]
    · rw [Nat.compare_eq_gt.mpr hgt,
        compare_gt_iff_gt.mpr (value_lt hright hleft (.inr ⟨rfl, hgt⟩))]
  · rw [Int.compare_eq_gt.mpr hgt, compare_gt_iff_gt.mpr (value_lt hright hleft (.inl hgt))]
    rfl

/-! ### The largest numbers -/

theorem fits_iff {s : Sign} {hm : 0 < m} (h : Canonical f (.finite s m e hm))
    (hbias : 0 < f.exponentBias) :
    e ≤ f.exponentBias - f.mantissaBitsWithoutImplicit ↔ (m : ℝ) * 2 ^ e < limit f := by
  obtain ⟨hbits, hleast, hfull⟩ := h
  have hmin := minExponent_eq f
  constructor
  · intro hfits
    have hbelow : (m : ℝ) < 2 ^ (f.mantissaBits : ℤ) := by exact_mod_cast hbits
    have hexponent : (f.mantissaBits : ℤ) + e ≤ f.exponentBias + 1 := by
      rw [Format.mantissaBits]
      omega
    calc (m : ℝ) * 2 ^ e
        < 2 ^ (f.mantissaBits : ℤ) * 2 ^ e := mul_lt_mul_of_pos_right hbelow (by positivity)
      _ = 2 ^ ((f.mantissaBits : ℤ) + e) := (zpow_add₀ two_ne_zero _ _).symm
      _ ≤ limit f := zpow_le_zpow_right₀ one_le_two hexponent
  · intro hlimit
    by_contra hlarge
    have habove : (2 : ℝ) ^ (f.mantissaBitsWithoutImplicit : ℤ) ≤ m := by
      have hnormal : 2 ^ f.mantissaBitsWithoutImplicit ≤ m := hfull.resolve_right (by omega)
      exact_mod_cast hnormal
    have hexponent : (f.exponentBias : ℤ) + 1 ≤ f.mantissaBitsWithoutImplicit + e := by omega
    have hle : limit f ≤ m * 2 ^ e :=
      calc limit f
          ≤ 2 ^ ((f.mantissaBitsWithoutImplicit : ℤ) + e) :=
            zpow_le_zpow_right₀ one_le_two hexponent
        _ = 2 ^ (f.mantissaBitsWithoutImplicit : ℤ) * 2 ^ e := zpow_add₀ two_ne_zero _ _
        _ ≤ m * 2 ^ e := mul_le_mul_of_nonneg_right habove (by positivity)
    linarith

/-- The value on the grid of the format. -/
theorem onGrid_of_canonical {s : Sign} {hm : 0 < m} (h : Canonical f (.finite s m e hm)) :
    OnGrid f (m * 2 ^ e) := ⟨m, e, h.1, h.2.1, rfl⟩

/-! ### Whole parts -/

theorem toNat_ofNatClamp (n : ℕ) : (UInt64.ofNatClamp n).toNat = min n (2 ^ 64 - 1) := by
  unfold UInt64.ofNatClamp
  split
  · next hlt =>
    rw [UInt64.toNat_ofNatLT]
    unfold UInt64.size at hlt
    omega
  · next hge =>
    rw [UInt64.toNat_ofNatLT]
    unfold UInt64.size at hge ⊢
    omega

theorem roundToInt_eq (m : ℕ) (e : ℤ) :
    roundToInt .positive m e = ((m <<< e.toNat / 2 ^ (-e).toNat : ℕ) : ℤ) := by
  have hfirst : (e - 0).toNat = e.toNat := by omega
  have hsecond : (0 - (e - (e.toNat : ℤ))).toNat = (-e).toNat := by omega
  simp only [roundToInt, decreaseExponent, shiftToExponent, hfirst, hsecond, Sign.apply]
  rw [mantissa_shiftRight, mantissa_ofMantissaAndAccuracy]

end ImagePipeline.Floating
