import Mathlib

/-!
# Rounding to nearest

A binary format holds the whole multiples of a power of two, which is chosen so that the mantissa
has as many bits as fit, and which does not go below a least one. What a format makes of a real
number is the nearest of its numbers (`rounded`), of two that are equally near the one with an even
mantissa. Rounding keeps the order of numbers and leaves the numbers of the format alone; that is
all that is needed of it later on.
-/

namespace ImagePipeline.Floating

open scoped ENNReal
open Float.Model (Format UnpackedFloat)
open Float.Model.UnpackedFloat

/-! ### Whole numbers -/

/-- The nearest whole number, and the even one of two that are equally near. -/
noncomputable def nearestEven (x : ℝ) : ℕ :=
  if x < ⌊x⌋₊ + 1 / 2 then ⌊x⌋₊
  else if x = ⌊x⌋₊ + 1 / 2 then ⌊x⌋₊ + ⌊x⌋₊ % 2
  else ⌊x⌋₊ + 1

theorem nearestEven_bounds (x : ℝ) : ⌊x⌋₊ ≤ nearestEven x ∧ nearestEven x ≤ ⌊x⌋₊ + 1 := by
  unfold nearestEven
  split
  · omega
  · split
    · omega
    · omega

theorem nearestEven_natCast (n : ℕ) : nearestEven n = n := by
  rw [nearestEven, Nat.floor_natCast, if_pos (by linarith)]

theorem nearestEven_mono {x y : ℝ} (h : x ≤ y) : nearestEven x ≤ nearestEven y := by
  rcases Nat.lt_or_eq_of_le (Nat.floor_mono h) with hlt | heq
  · have hx := nearestEven_bounds x
    have hy := nearestEven_bounds y
    omega
  · unfold nearestEven
    rw [heq]
    generalize ⌊y⌋₊ = n
    by_cases hy : y < n + 1 / 2
    · rw [if_pos hy, if_pos (by linarith)]
    · rw [if_neg hy]
      by_cases htie : y = n + 1 / 2
      · rw [if_pos htie]
        split
        · omega
        · rw [if_pos (by linarith)]
      · rw [if_neg htie]
        split
        · omega
        · split
          · omega
          · omega

theorem nearestEven_eq_zero_iff {x : ℝ} : nearestEven x = 0 ↔ x ≤ 1 / 2 := by
  rcases lt_or_ge x 1 with hx | hx
  · have hfloor : ⌊x⌋₊ = 0 := Nat.floor_eq_zero.mpr hx
    unfold nearestEven
    rw [hfloor, Nat.cast_zero, zero_add]
    rcases lt_trichotomy x (1 / 2) with hless | rfl | hmore
    · rw [if_pos hless]
      exact ⟨fun _ => hless.le, fun _ => rfl⟩
    · rw [if_neg (lt_irrefl _), if_pos rfl]
      exact ⟨fun _ => le_rfl, fun _ => rfl⟩
    · rw [if_neg hmore.not_gt, if_neg hmore.ne']
      exact ⟨nofun, fun hle => absurd hle hmore.not_ge⟩
  · have hone : 1 ≤ nearestEven x :=
      ((Nat.one_le_floor_iff x).mpr hx).trans (nearestEven_bounds x).1
    exact ⟨fun hzero => by omega, fun hle => by linarith⟩

/-! ### The numbers of a format -/

theorem log_eq {v : ℝ} {k : ℤ} (hlow : (2 : ℝ) ^ k ≤ v) (hhigh : v < (2 : ℝ) ^ (k + 1)) :
    Int.log 2 v = k := by
  have hpos : 0 < v := lt_of_lt_of_le (by positivity) hlow
  have hle := (Int.zpow_le_iff_le_log one_lt_two hpos).mp (by exact_mod_cast hlow)
  have hlt := (Int.lt_zpow_iff_log_lt one_lt_two hpos).mp (by exact_mod_cast hhigh)
  omega

/-- The exponent of the numbers among which a number is rounded. -/
noncomputable def exponentOf (f : Format) (v : ℝ) : ℤ := f.targetExponent (Int.log 2 v + 1)

theorem exponentOf_eq (f : Format) (v : ℝ) :
    exponentOf f v = max (Int.log 2 v + 1 - f.mantissaBits) f.minExponent := rfl

theorem minExponent_le (f : Format) (v : ℝ) : f.minExponent ≤ exponentOf f v := le_max_right _ _

theorem exponentOf_mono (f : Format) {v w : ℝ} (hv : 0 < v) (h : v ≤ w) :
    exponentOf f v ≤ exponentOf f w := by
  have hlog : Int.log 2 v ≤ Int.log 2 w := Int.log_mono_right hv h
  rw [exponentOf_eq, exponentOf_eq]
  omega

noncomputable def scaled (f : Format) (v : ℝ) : ℝ := v / 2 ^ exponentOf f v

noncomputable def rounded (f : Format) (v : ℝ) : ℝ :=
  nearestEven (scaled f v) * 2 ^ exponentOf f v

variable {f : Format} {v w : ℝ}

theorem scaled_lt (f : Format) (v : ℝ) : scaled f v < 2 ^ f.mantissaBits := by
  have hlog : v < (2 : ℝ) ^ (Int.log 2 v + 1) := by
    exact_mod_cast Int.lt_zpow_succ_log_self one_lt_two v
  have hexponent : Int.log 2 v + 1 ≤ f.mantissaBits + exponentOf f v := by
    rw [exponentOf_eq]
    omega
  rw [scaled, div_lt_iff₀ (by positivity), ← zpow_natCast, ← zpow_add₀ two_ne_zero]
  exact lt_of_lt_of_le hlog (zpow_le_zpow_right₀ one_le_two hexponent)

/-- Above the least exponent all the bits of the mantissa are in use. -/
theorem le_scaled (hv : 0 < v) (h : f.minExponent < exponentOf f v) :
    (2 : ℝ) ^ f.mantissaBitsWithoutImplicit ≤ scaled f v := by
  have hlog : (2 : ℝ) ^ Int.log 2 v ≤ v := by
    exact_mod_cast Int.zpow_log_le_self one_lt_two hv
  have hexponent : f.mantissaBitsWithoutImplicit + exponentOf f v ≤ Int.log 2 v := by
    rw [exponentOf_eq, Format.mantissaBits] at h ⊢
    omega
  rw [scaled, le_div_iff₀ (by positivity), ← zpow_natCast, ← zpow_add₀ two_ne_zero]
  exact (zpow_le_zpow_right₀ one_le_two hexponent).trans hlog

theorem nearestEven_scaled_le (f : Format) (v : ℝ) :
    nearestEven (scaled f v) ≤ 2 ^ f.mantissaBits := by
  have hle : scaled f v ≤ ((2 ^ f.mantissaBits : ℕ) : ℝ) := by
    push_cast
    exact (scaled_lt f v).le
  exact (nearestEven_mono hle).trans_eq (nearestEven_natCast _)

theorem le_nearestEven_scaled (hv : 0 < v) (h : f.minExponent < exponentOf f v) :
    2 ^ f.mantissaBitsWithoutImplicit ≤ nearestEven (scaled f v) := by
  have hle : ((2 ^ f.mantissaBitsWithoutImplicit : ℕ) : ℝ) ≤ scaled f v := by
    push_cast
    exact le_scaled hv h
  exact (nearestEven_natCast _).symm.trans_le (nearestEven_mono hle)

theorem rounded_zero : rounded f 0 = 0 := by
  have hscaled : scaled f 0 = ((0 : ℕ) : ℝ) := by rw [scaled, zero_div, Nat.cast_zero]
  rw [rounded, hscaled, nearestEven_natCast, Nat.cast_zero, zero_mul]

theorem rounded_nonneg (f : Format) (v : ℝ) : 0 ≤ rounded f v := by
  unfold rounded
  positivity

/-- What is at most half of the least number of the format is rounded to zero. -/
theorem rounded_eq_zero_iff (hv : 0 ≤ v) :
    rounded f v = 0 ↔ v ≤ 2 ^ (f.minExponent - 1) := by
  rcases hv.eq_or_lt with rfl | hv
  · exact ⟨fun _ => by positivity, fun _ => rounded_zero⟩
  · have hhalf : scaled f v ≤ 1 / 2 ↔ v ≤ 2 ^ (exponentOf f v - 1) := by
      rw [scaled, div_le_iff₀ (by positivity), zpow_sub_one₀ two_ne_zero]
      ring_nf
    have hleast : scaled f v ≤ 1 / 2 ↔ v ≤ 2 ^ (f.minExponent - 1) := by
      rcases (minExponent_le f v).eq_or_lt with heq | hlt
      · rw [hhalf, ← heq]
      · have hfull : 1 ≤ scaled f v :=
          (one_le_pow₀ one_le_two).trans (le_scaled hv hlt)
        refine iff_of_false (by linarith) fun hle => ?_
        have hpow : (2 : ℝ) ^ (f.minExponent - 1) ≤ 2 ^ (exponentOf f v - 1) :=
          zpow_le_zpow_right₀ one_le_two (by omega)
        linarith [hhalf.mpr (hle.trans hpow)]
    rw [← hleast, ← nearestEven_eq_zero_iff, rounded, mul_eq_zero, Nat.cast_eq_zero]
    exact or_iff_left (by positivity)

theorem rounded_mono (hv : 0 ≤ v) (h : v ≤ w) : rounded f v ≤ rounded f w := by
  rcases hv.eq_or_lt with rfl | hv
  · rw [rounded_zero]
    exact rounded_nonneg f w
  · rcases (exponentOf_mono f hv h).eq_or_lt with heq | hlt
    · have hscaled : scaled f v ≤ scaled f w := by
        rw [scaled, scaled, heq]
        exact div_le_div_of_nonneg_right h (by positivity)
      have hmantissa : (nearestEven (scaled f v) : ℝ) ≤ nearestEven (scaled f w) := by
        exact_mod_cast nearestEven_mono hscaled
      rw [rounded, rounded, heq]
      exact mul_le_mul_of_nonneg_right hmantissa (by positivity)
    · have hbelow : (nearestEven (scaled f v) : ℝ) ≤ 2 ^ (f.mantissaBits : ℤ) := by
        exact_mod_cast nearestEven_scaled_le f v
      have habove : (2 : ℝ) ^ (f.mantissaBitsWithoutImplicit : ℤ) ≤ nearestEven (scaled f w) := by
        exact_mod_cast le_nearestEven_scaled (hv.trans_le h)
          ((minExponent_le f v).trans_lt hlt)
      have hexponent : (f.mantissaBits : ℤ) + exponentOf f v
          ≤ f.mantissaBitsWithoutImplicit + exponentOf f w := by
        rw [Format.mantissaBits]
        omega
      calc rounded f v
          ≤ 2 ^ (f.mantissaBits : ℤ) * 2 ^ exponentOf f v :=
            mul_le_mul_of_nonneg_right hbelow (by positivity)
        _ = 2 ^ ((f.mantissaBits : ℤ) + exponentOf f v) := (zpow_add₀ two_ne_zero _ _).symm
        _ ≤ 2 ^ ((f.mantissaBitsWithoutImplicit : ℤ) + exponentOf f w) :=
            zpow_le_zpow_right₀ one_le_two hexponent
        _ = 2 ^ (f.mantissaBitsWithoutImplicit : ℤ) * 2 ^ exponentOf f w :=
            zpow_add₀ two_ne_zero _ _
        _ ≤ rounded f w := mul_le_mul_of_nonneg_right habove (by positivity)

/-- The number is one of the format, as far as its mantissa and the least exponent go. -/
def OnGrid (f : Format) (v : ℝ) : Prop :=
  ∃ (m : ℕ) (e : ℤ), m < 2 ^ f.mantissaBits ∧ f.minExponent ≤ e ∧ v = m * 2 ^ e

theorem rounded_of_onGrid (h : OnGrid f v) : rounded f v = v := by
  obtain ⟨m, e, hm, he, rfl⟩ := h
  rcases Nat.eq_zero_or_pos m with rfl | hpos
  · rw [Nat.cast_zero, zero_mul, rounded_zero]
  · have hexponent : exponentOf f (m * 2 ^ e) ≤ e := by
      have hlt : (m : ℝ) * 2 ^ e < 2 ^ ((f.mantissaBits : ℤ) + e) := by
        rw [zpow_add₀ two_ne_zero, zpow_natCast]
        exact mul_lt_mul_of_pos_right (by exact_mod_cast hm) (by positivity)
      have hlog := (Int.lt_zpow_iff_log_lt one_lt_two (r := (m : ℝ) * 2 ^ e) (by positivity)).mp
        (by exact_mod_cast hlt)
      rw [exponentOf_eq]
      omega
    have hscaled : scaled f (m * 2 ^ e)
        = ((m * 2 ^ (e - exponentOf f (m * 2 ^ e)).toNat : ℕ) : ℝ) := by
      rw [scaled, mul_div_assoc, ← zpow_sub₀ two_ne_zero]
      push_cast
      rw [← zpow_natCast, Int.toNat_of_nonneg (by omega)]
    rw [rounded, hscaled, nearestEven_natCast, ← hscaled, scaled,
      div_mul_cancel₀ _ (by positivity)]

/-- The least power of two that the format is too small for. -/
noncomputable def limit (f : Format) : ℝ := 2 ^ ((f.exponentBias : ℤ) + 1)

/-! ### Mantissas with two more bits -/

/-- What a mantissa, its round bit and its sticky bit say about a number. -/
def Represents : ExtendedMantissa → ℝ → Prop
  | ⟨m, false, false⟩, x => x = m
  | ⟨m, false, true⟩, x => m < x ∧ x < m + 1 / 2
  | ⟨m, true, false⟩, x => x = m + 1 / 2
  | ⟨m, true, true⟩, x => m + 1 / 2 < x ∧ x < m + 1

namespace Represents

variable {em : ExtendedMantissa} {x : ℝ}

theorem bounds (h : Represents em x) : (em.mantissa : ℝ) ≤ x ∧ x < em.mantissa + 1 := by
  obtain ⟨m, round, sticky⟩ := em
  cases round with
  | false =>
    cases sticky with
    | false =>
      have hx : x = m := h
      exact ⟨hx.ge, by linarith⟩
    | true =>
      have hx : (m : ℝ) < x ∧ x < m + 1 / 2 := h
      exact ⟨hx.1.le, by linarith⟩
  | true =>
    cases sticky with
    | false =>
      have hx : x = m + 1 / 2 := h
      exact ⟨by linarith, by linarith⟩
    | true =>
      have hx : (m : ℝ) + 1 / 2 < x ∧ x < m + 1 := h
      exact ⟨by linarith, hx.2⟩

theorem lt_of_round {m : ℕ} {sticky : Bool} (h : Represents ⟨m, true, sticky⟩ x) : (m : ℝ) < x := by
  cases sticky with
  | false =>
    have hx : x = m + 1 / 2 := h
    linarith
  | true =>
    have hx : (m : ℝ) + 1 / 2 < x := h.1
    linarith

theorem floor_eq (h : Represents em x) : ⌊x⌋₊ = em.mantissa := by
  obtain ⟨hlow, hhigh⟩ := h.bounds
  exact (Nat.floor_eq_iff ((Nat.cast_nonneg _).trans hlow)).mpr ⟨hlow, hhigh⟩

theorem roundedMantissa_eq (h : Represents em x) : em.roundedMantissa = nearestEven x := by
  have hfloor := h.floor_eq
  obtain ⟨m, round, sticky⟩ := em
  dsimp only at hfloor
  unfold nearestEven
  rw [hfloor]
  cases round with
  | false =>
    have hx : x < m + 1 / 2 := by
      cases sticky with
      | false =>
        have heq : x = m := h
        linarith
      | true => exact h.2
    rw [if_pos hx]
    cases sticky <;> rfl
  | true =>
    cases sticky with
    | false =>
      have hx : x = m + 1 / 2 := h
      rw [if_neg (by linarith), if_pos hx]
      rfl
    | true =>
      have hx : (m : ℝ) + 1 / 2 < x := h.1
      rw [if_neg (by linarith), if_neg (by linarith)]
      rfl

theorem shiftRightOne (h : Represents em x) : Represents em.shiftRightOne (x / 2) := by
  obtain ⟨m, round, sticky⟩ := em
  have hsplit : ((m / 2 : ℕ) : ℝ) * 2 + ((m % 2 : ℕ) : ℝ) = m := by
    exact_mod_cast Nat.div_add_mod' m 2
  have hbounds := h.bounds
  dsimp only at hbounds
  unfold ExtendedMantissa.shiftRightOne
  rcases Nat.mod_two_eq_zero_or_one m with heven | hodd
  · rw [heven, Nat.cast_zero] at hsplit
    simp only [heven]
    cases round with
    | false =>
      cases sticky with
      | false =>
        have hx : x = m := h
        change x / 2 = _
        linarith
      | true =>
        have hx : (m : ℝ) < x := h.1
        change ((m / 2 : ℕ) : ℝ) < x / 2 ∧ x / 2 < ((m / 2 : ℕ) : ℝ) + 1 / 2
        constructor <;> linarith
    | true =>
      have hx : (m : ℝ) < x := h.lt_of_round
      change ((m / 2 : ℕ) : ℝ) < x / 2 ∧ x / 2 < ((m / 2 : ℕ) : ℝ) + 1 / 2
      constructor <;> linarith
  · rw [hodd, Nat.cast_one] at hsplit
    simp only [hodd]
    cases round with
    | false =>
      cases sticky with
      | false =>
        have hx : x = m := h
        change x / 2 = ((m / 2 : ℕ) : ℝ) + 1 / 2
        linarith
      | true =>
        have hx : (m : ℝ) < x := h.1
        change ((m / 2 : ℕ) : ℝ) + 1 / 2 < x / 2 ∧ x / 2 < ((m / 2 : ℕ) : ℝ) + 1
        constructor <;> linarith
    | true =>
      have hx : (m : ℝ) < x := h.lt_of_round
      change ((m / 2 : ℕ) : ℝ) + 1 / 2 < x / 2 ∧ x / 2 < ((m / 2 : ℕ) : ℝ) + 1
      constructor <;> linarith

theorem shiftRight (h : Represents em x) (n : ℕ) : Represents (em >>> n) (x / 2 ^ n) := by
  change Represents (n.repeat ExtendedMantissa.shiftRightOne em) _
  induction n with
  | zero =>
    rw [pow_zero, div_one]
    exact h
  | succ n ih =>
    rw [pow_succ, ← div_div]
    exact ih.shiftRightOne

theorem exact (m : ℕ) : Represents (.ofMantissaAndAccuracy m .exact) m := rfl

end Represents

/-! ### Signs and magnitudes -/

/-- The float is finite, and this is its sign and its magnitude. -/
def Denotes : UnpackedFloat → Sign → ℝ → Prop
  | .zero s, s', v => s = s' ∧ v = 0
  | .finite s m e _, s', v => s = s' ∧ v = m * 2 ^ e
  | _, _, _ => False

/-- The float has this sign and this magnitude; the sign of a zero does not count. -/
def Holds : UnpackedFloat → Sign → ℝ≥0∞ → Prop
  | .zero _, _, v => v = 0
  | .infinity s, s', v => s = s' ∧ v = ⊤
  | .finite s m e _, s', v => s = s' ∧ v = .ofReal (m * 2 ^ e)
  | .notANumber, _, _ => False

end ImagePipeline.Floating
