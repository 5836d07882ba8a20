import ImagePipeline.Proofs.Number.Magnitude

/-!
# What doubles do

A positive double that is not too small is a mantissa of 53 bits times a power of two. Every
operation rounds the exact result to such a number, and errs by no more than one part in `2 ^ 52`.
This is coarser than what is true of rounding to nearest, but it is all that sides of pictures
need, and it does not look at the way in which ties are broken.
-/

namespace ImagePipeline.Double

open Floating (Canonical mantissa_ofMantissaAndAccuracy mantissa_shiftRight roundToInt_eq
  toNat_ofNatClamp)
open Float.Model (Format totalExponent UnpackedFloat)
open Float.Model.UnpackedFloat

/-! ### Rounding a mantissa -/

/-- A mantissa of exactly 53 bits. -/
structure Full (m : Nat) : Prop where
  low : 2 ^ 52 ≤ m
  high : m < 2 ^ 53

theorem Full.pos {m : Nat} (h : Full m) : 0 < m := Nat.lt_of_lt_of_le (by decide) h.low

theorem Full.log2_eq {m : Nat} (h : Full m) : m.log2 = 52 := by
  have hlow := (Nat.le_log2 h.pos.ne').mpr h.low
  have hhigh := (Nat.log2_lt h.pos.ne').mpr h.high
  omega

theorem targetExponent_eq (m : Nat) (e : Int) :
    Format.binary64.targetExponent (totalExponent m e) = max ((m.log2 : Int) + e - 52) (-1074) := by
  change max ((m.log2 : Int) + 1 + e - 53) (-1074) = _
  omega

theorem roundedMantissa_bounds (em : ExtendedMantissa) :
    em.mantissa ≤ em.roundedMantissa ∧ em.roundedMantissa ≤ em.mantissa + 1 := by
  unfold ExtendedMantissa.roundedMantissa
  cases em.accuracy with
  | exact =>
    simp only [Accuracy.roundToNearestEven]
    omega
  | inexact order =>
    cases order with
    | lt | eq | gt =>
      simp only [Accuracy.roundToNearestEven]
      omega

/-- A mantissa is cut down to the 53 bits in front of the rest. -/
theorem shiftToTargetExponent_eq {m : Nat} {e : Int} (hm : 2 ^ 52 ≤ m) (he : -1074 ≤ e)
    (acc : Accuracy) :
    (shiftToTargetExponent Format.binary64 m e acc).1.mantissa = m / 2 ^ (m.log2 - 52) ∧
      (shiftToTargetExponent Format.binary64 m e acc).2 = e + (m.log2 - 52 : Nat) := by
  have hpos : m ≠ 0 := by omega
  have hlog : 52 ≤ m.log2 := (Nat.le_log2 hpos).mpr hm
  have hshift : (Format.binary64.targetExponent (totalExponent m e) - e).toNat = m.log2 - 52 := by
    rw [targetExponent_eq]
    omega
  simp only [shiftToTargetExponent, shiftToExponent, hshift]
  exact ⟨by rw [mantissa_shiftRight, mantissa_ofMantissaAndAccuracy], trivial⟩

theorem full_div_log2 {m : Nat} (hm : 2 ^ 52 ≤ m) : Full (m / 2 ^ (m.log2 - 52)) := by
  have hpos : m ≠ 0 := by omega
  have hlog : 52 ≤ m.log2 := (Nat.le_log2 hpos).mpr hm
  have hle : 2 ^ m.log2 ≤ m := Nat.log2_self_le hpos
  have hlt : m < 2 ^ (m.log2 + 1) := Nat.lt_log2_self
  constructor
  · rw [Nat.le_div_iff_mul_le (Nat.two_pow_pos _), ← pow_add]
    rwa [Nat.add_sub_cancel' hlog]
  · rw [Nat.div_lt_iff_lt_mul (Nat.two_pow_pos _), ← pow_add]
    rwa [show 53 + (m.log2 - 52) = m.log2 + 1 by omega]

/-- A rounded mantissa may have one bit too many; dropping it loses nothing. -/
theorem carry_eq {r : Nat} {e : Int} (hlow : 2 ^ 52 ≤ r) (hhigh : r ≤ 2 ^ 53) (he : -1074 ≤ e) :
    ∃ n c : Nat, Full n ∧ n * 2 ^ c = r ∧
      (shiftToTargetExponent Format.binary64 r e .exact).1.mantissa = n ∧
      (shiftToTargetExponent Format.binary64 r e .exact).2 = e + c := by
  obtain ⟨hmantissa, hexponent⟩ := shiftToTargetExponent_eq hlow he .exact
  refine ⟨r / 2 ^ (r.log2 - 52), r.log2 - 52, full_div_log2 hlow, ?_, hmantissa, hexponent⟩
  rcases Nat.lt_or_eq_of_le hhigh with hlt | rfl
  · rw [Full.log2_eq ⟨hlow, hlt⟩, Nat.sub_self, pow_zero, Nat.div_one, Nat.mul_one]
  · rw [Nat.log2_two_pow]
    rfl

/-- Rounding changes a long mantissa by less than its share of one part in `2 ^ 52`. -/
theorem roundWithAccuracy_eq (s : Sign) {m : Nat} {e : Int} (hm : 2 ^ 52 ≤ m) (he : -1074 ≤ e)
    (acc : Accuracy) :
    ∃ (n d : Nat) (hn : 0 < n), Full n ∧
      roundWithAccuracy Format.binary64 s m e acc = .finite s n (e + d) hn ∧
      (m + 1) * 2 ^ 52 ≤ n * 2 ^ d * 2 ^ 52 + m ∧ n * 2 ^ d * 2 ^ 52 ≤ m * 2 ^ 52 + m := by
  have hfull := full_div_log2 hm
  obtain ⟨hmantissa, hexponent⟩ := shiftToTargetExponent_eq hm he acc
  have hround := roundedMantissa_bounds (shiftToTargetExponent Format.binary64 m e acc).1
  rw [hmantissa] at hround
  obtain ⟨n, c, hn, hcarry, hfinal, hfinalExponent⟩ :=
    carry_eq (r := (shiftToTargetExponent Format.binary64 m e acc).1.roundedMantissa)
      (e := e + (m.log2 - 52 : Nat)) (by have := hfull.low; omega) (by have := hfull.high; omega)
      (by omega)
  refine ⟨n, (m.log2 - 52) + c, hn.pos, hn, ?_, ?_⟩
  · unfold roundWithAccuracy
    simp only [hexponent]
    rw [dif_neg (by rw [hfinal]; exact hn.pos.ne')]
    simp only [hfinal, hfinalExponent]
    congr 1
    omega
  · have hk : 2 ^ (m.log2 - 52) * 2 ^ 52 ≤ m := by
      rw [← pow_add, Nat.sub_add_cancel ((Nat.le_log2 (by omega)).mpr hm)]
      exact Nat.log2_self_le (by omega)
    have hcut : m < (m / 2 ^ (m.log2 - 52) + 1) * 2 ^ (m.log2 - 52) :=
      Nat.lt_mul_of_div_lt (Nat.lt_succ_self _) (Nat.two_pow_pos _)
    have hle : m / 2 ^ (m.log2 - 52) * 2 ^ (m.log2 - 52) ≤ m := Nat.div_mul_le_self _ _
    rw [show n * 2 ^ (m.log2 - 52 + c) = n * 2 ^ c * 2 ^ (m.log2 - 52) by ring, hcarry]
    have hbelow := Nat.mul_le_mul_right (2 ^ (m.log2 - 52)) hround.1
    have habove := Nat.mul_le_mul_right (2 ^ (m.log2 - 52)) hround.2
    rw [Nat.add_mul] at hcut habove
    omega

/-! ### Packing -/

/-- Packing loses nothing of a full mantissa whose exponent fits. -/
theorem unpack_pack (s : Sign) {m : Nat} {e : Int} (hm : Full m) (hlow : -1074 ≤ e)
    (hhigh : e ≤ 971) :
    unpack Format.binary64 (pack Format.binary64 (.finite s m e hm.pos))
      = .finite s m e hm.pos :=
  Floating.packed_finite (f := .binary64) ⟨hm.high, hlow, .inl hm.low⟩ hhigh

/-! ### Values -/

/-- The double is a full mantissa times a power of two, and this is its value. -/
def Reads (x : Float) (v : Rat) : Prop :=
  ∃ (m : Nat) (e : Int) (hm : Full m), -1074 ≤ e ∧
    x.toModel.unpack = .finite .positive m e hm.pos ∧ v = (m : Rat) * 2 ^ e

structure Near (w v : Rat) : Prop where
  low : v * (2 ^ 52 - 1) ≤ w * 2 ^ 52
  high : w * 2 ^ 52 ≤ v * (2 ^ 52 + 1)

theorem Full.bounds {m : Nat} (hm : Full m) :
    (2 : Rat) ^ (52 : Int) ≤ (m : Rat) ∧ (m : Rat) < (2 : Rat) ^ (53 : Int) := by
  have hlow := hm.low
  have hhigh := hm.high
  constructor
  · exact_mod_cast hlow
  · exact_mod_cast hhigh

/-- The value of a full mantissa lies between the powers of two that its exponent says. -/
theorem Full.value_bounds {m : Nat} (hm : Full m) (e : Int) :
    (2 : Rat) ^ (52 + e) ≤ (m : Rat) * 2 ^ e ∧ (m : Rat) * 2 ^ e < (2 : Rat) ^ (53 + e) := by
  obtain ⟨hlow, hhigh⟩ := hm.bounds
  have hpos : (0 : Rat) < 2 ^ e := by positivity
  rw [zpow_add₀ two_ne_zero, zpow_add₀ two_ne_zero]
  exact ⟨mul_le_mul_of_nonneg_right hlow hpos.le, mul_lt_mul_of_pos_right hhigh hpos⟩

theorem Full.exponent_le {m : Nat} (hm : Full m) {e k : Int}
    (h : (m : Rat) * 2 ^ e < (2 : Rat) ^ (52 + k)) : e < k := by
  have hlt := lt_of_le_of_lt (hm.value_bounds e).1 h
  have hexp := (zpow_lt_zpow_iff_right₀ (by norm_num : (1 : Rat) < 2)).mp hlt
  omega

/-- A rounded mantissa reads as something near to the exact value. -/
theorem reads_roundWithAccuracy {m : Nat} {e : Int} {v : Rat} (hm : 2 ^ 52 ≤ m) (he : -1074 ≤ e)
    (acc : Accuracy) (hlow : (m : Rat) * 2 ^ e ≤ v) (hhigh : v < ((m : Rat) + 1) * 2 ^ e)
    (hlimit : v ≤ 2 ^ 100) :
    ∃ w, Near w v ∧ Reads (.ofModel (.pack (roundWithAccuracy .binary64 .positive m e acc))) w := by
  obtain ⟨n, d, hn, hfull, hround, hbelow, habove⟩ := roundWithAccuracy_eq .positive hm he acc
  have hpos : (0 : Rat) < 2 ^ e := by positivity
  have hvalue : (n : Rat) * 2 ^ (e + d : Int) = ((n * 2 ^ d : Nat) : Rat) * 2 ^ e := by
    rw [zpow_add₀ two_ne_zero, zpow_natCast]
    push_cast
    ring
  have hbelow' : ((m : Rat) + 1) * 2 ^ 52 ≤ ((n * 2 ^ d : Nat) : Rat) * 2 ^ 52 + m := by
    exact_mod_cast hbelow
  have habove' : ((n * 2 ^ d : Nat) : Rat) * 2 ^ 52 ≤ (m : Rat) * 2 ^ 52 + m := by
    exact_mod_cast habove
  have hnear : Near ((n : Rat) * 2 ^ (e + d : Int)) v := by
    rw [hvalue]
    constructor
    · nlinarith [mul_le_mul_of_nonneg_right hbelow' hpos.le]
    · nlinarith [mul_le_mul_of_nonneg_right habove' hpos.le]
  have hexponent : e + d < 50 := by
    refine hfull.exponent_le ?_
    have hhigh' := hnear.high
    norm_num at hhigh' ⊢
    norm_num at hlimit
    linarith
  refine ⟨_, hnear, n, e + d, hfull, by omega, ?_, rfl⟩
  rw [hround]
  exact unpack_pack .positive hfull (by omega) (by omega)

/-! ### Whole numbers -/

theorem shiftToTargetExponent_full {m : Nat} {e : Int} (hm : Full m) (he : -1074 ≤ e) :
    shiftToTargetExponent .binary64 m e .exact = (⟨m, false, false⟩, e) := by
  have hshift : (Format.binary64.targetExponent (totalExponent m e) - e).toNat = 0 := by
    rw [targetExponent_eq, hm.log2_eq]
    omega
  simp only [shiftToTargetExponent, shiftToExponent, hshift]
  exact congrArg (Prod.mk _) (Int.add_zero e)

theorem roundWithAccuracy_full (s : Sign) {m : Nat} {e : Int} (hm : Full m) (he : -1074 ≤ e) :
    roundWithAccuracy .binary64 s m e .exact = .finite s m e hm.pos := by
  have hfirst := shiftToTargetExponent_full hm he
  have hsecond : (⟨m, false, false⟩ : ExtendedMantissa).roundedMantissa = m := rfl
  simp only [roundWithAccuracy, hfirst, hsecond]
  exact dif_neg hm.pos.ne'

theorem full_shiftLeft {n : Nat} (hpos : 0 < n) (hn : n < 2 ^ 53) :
    Full (n <<< (52 - n.log2)) := by
  have hlog : n.log2 < 53 := (Nat.log2_lt hpos.ne').mpr hn
  have hlow := Nat.mul_le_mul_right (2 ^ (52 - n.log2)) (Nat.log2_self_le hpos.ne')
  have hhigh := Nat.mul_lt_mul_of_pos_right (Nat.lt_log2_self (n := n))
    (Nat.two_pow_pos (52 - n.log2))
  rw [← pow_add] at hlow hhigh
  rw [Nat.shiftLeft_eq]
  constructor
  · rwa [show n.log2 + (52 - n.log2) = 52 by omega] at hlow
  · rwa [show n.log2 + 1 + (52 - n.log2) = 53 by omega] at hhigh

/-- A whole number of at most 53 bits is read exactly. -/
theorem reads_ofNat {n : Nat} (hpos : 0 < n) (hn : n < 2 ^ 53) :
    Reads (.ofModel (.pack (UnpackedFloat.ofNat .binary64 n))) n := by
  have hlog : n.log2 < 53 := (Nat.log2_lt hpos.ne').mpr hn
  have hfull := full_shiftLeft hpos hn
  have hround : UnpackedFloat.ofNat .binary64 n
      = .finite .positive (n <<< (52 - n.log2)) (0 - (52 - n.log2 : Nat)) hfull.pos := by
    have hcompare : compare (n : Int) 0 = .gt := Int.compare_eq_gt.mpr (by omega)
    have hshift : (0 - Format.binary64.targetExponent (totalExponent n 0)).toNat = 52 - n.log2 := by
      rw [targetExponent_eq]
      omega
    simp only [UnpackedFloat.ofNat, UnpackedFloat.ofInt, UnpackedFloat.normalize, hcompare,
      UnpackedFloat.round, decreaseExponent, Int.toNat_natCast, hshift]
    exact roundWithAccuracy_full .positive hfull (by omega)
  refine ⟨_, 0 - (52 - n.log2 : Nat), hfull, by omega, ?_, ?_⟩
  · rw [hround]
    exact unpack_pack .positive hfull (by omega) (by omega)
  · rw [Nat.shiftLeft_eq, zero_sub, zpow_neg, zpow_natCast]
    push_cast
    field_simp

/-! ### Operations -/

theorem lt_succ_mul (m : Nat) (e : Int) : (m : Rat) * 2 ^ e < ((m : Rat) + 1) * 2 ^ e :=
  mul_lt_mul_of_pos_right (lt_add_one _) (by positivity)

theorem reads_mul {x y : Float} {a b : Rat} (hx : Reads x a) (hy : Reads y b)
    (hlow : (2 : Rat) ^ (-100 : Int) ≤ a * b) (hhigh : a * b ≤ 2 ^ 100) :
    ∃ w, Near w (a * b) ∧ Reads (x * y) w := by
  obtain ⟨m₁, e₁, hm₁, -, hunpack₁, rfl⟩ := hx
  obtain ⟨m₂, e₂, hm₂, -, hunpack₂, rfl⟩ := hy
  have hvalue : (m₁ : Rat) * 2 ^ e₁ * ((m₂ : Rat) * 2 ^ e₂)
      = ((m₁ * m₂ : Nat) : Rat) * 2 ^ (e₁ + e₂) := by
    rw [zpow_add₀ two_ne_zero]
    push_cast
    ring
  have hproduct : x * y = .ofModel (.pack (roundWithAccuracy .binary64 .positive (m₁ * m₂)
      (e₁ + e₂) .exact)) := by
    change Float.ofModel (.pack (mul .binary64 x.toModel.unpack y.toModel.unpack)) = _
    rw [hunpack₁, hunpack₂]
    rfl
  have hmantissa : 2 ^ 52 ≤ m₁ * m₂ :=
    hm₁.low.trans (Nat.le_mul_of_pos_right m₁ hm₂.pos)
  have hexponent : -1074 ≤ e₁ + e₂ := by
    have hupper : (m₁ : Rat) * 2 ^ e₁ * ((m₂ : Rat) * 2 ^ e₂) < 2 ^ (53 + e₁ + (53 + e₂)) := by
      rw [zpow_add₀ two_ne_zero]
      exact mul_lt_mul'' (hm₁.value_bounds e₁).2 (hm₂.value_bounds e₂).2 (by positivity)
        (by positivity)
    have hlt := (zpow_lt_zpow_iff_right₀ (by norm_num : (1 : Rat) < 2)).mp
      (lt_of_le_of_lt hlow hupper)
    omega
  rw [hproduct, hvalue]
  rw [hvalue] at hhigh
  exact reads_roundWithAccuracy hmantissa hexponent .exact le_rfl (lt_succ_mul _ _) hhigh

theorem reads_div {x y : Float} {a b : Rat} (hx : Reads x a) (hy : Reads y b)
    (hlow : (2 : Rat) ^ (-100 : Int) ≤ a / b) (hhigh : a / b ≤ 2 ^ 100) :
    ∃ w, Near w (a / b) ∧ Reads (x / y) w := by
  obtain ⟨m₁, e₁, hm₁, -, hunpack₁, rfl⟩ := hx
  obtain ⟨m₂, e₂, hm₂, -, hunpack₂, rfl⟩ := hy
  have hpos₂ : (0 : Rat) < m₂ := by exact_mod_cast hm₂.pos
  have hvalue : (m₁ : Rat) * 2 ^ e₁ / ((m₂ : Rat) * 2 ^ e₂)
      = ((m₁ * 2 ^ 53 : Nat) : Rat) / m₂ * 2 ^ (e₁ - e₂ - 53) := by
    rw [zpow_sub₀ two_ne_zero, zpow_sub₀ two_ne_zero]
    push_cast
    field_simp
  have hexponent : -1074 ≤ e₁ - e₂ - 53 := by
    have hupper : (m₁ : Rat) * 2 ^ e₁ / ((m₂ : Rat) * 2 ^ e₂) < 2 ^ (53 + e₁ - (52 + e₂)) := by
      rw [zpow_sub₀ two_ne_zero]
      exact div_lt_div₀ (hm₁.value_bounds e₁).2 (hm₂.value_bounds e₂).1 (by positivity)
        (by positivity)
    have hlt := (zpow_lt_zpow_iff_right₀ (by norm_num : (1 : Rat) < 2)).mp
      (lt_of_le_of_lt hlow hupper)
    omega
  have hquotient : x / y = .ofModel (.pack (roundWithAccuracy .binary64 .positive
      (m₁ * 2 ^ 53 / m₂) (e₁ - e₂ - 53) (accuracyOfFraction (m₁ * 2 ^ 53 % m₂) m₂))) := by
    change Float.ofModel (.pack (div .binary64 x.toModel.unpack y.toModel.unpack)) = _
    have htarget : min (e₁ - e₂) (Format.binary64.targetExponent
        (totalExponent m₁ e₁ - totalExponent m₂ e₂)) = e₁ - e₂ - 53 := by
      change min (e₁ - e₂)
        (max ((m₁.log2 : Int) + 1 + e₁ - ((m₂.log2 : Int) + 1 + e₂) - 53) (-1074)) = _
      rw [hm₁.log2_eq, hm₂.log2_eq]
      omega
    have hshift : (e₁ - e₂ - (e₁ - e₂ - 53)).toNat = 53 := by omega
    rw [hunpack₁, hunpack₂]
    simp only [div, divCore, htarget, hshift, Nat.shiftLeft_eq]
    rfl
  have hmantissa : 2 ^ 52 ≤ m₁ * 2 ^ 53 / m₂ := by
    rw [Nat.le_div_iff_mul_le hm₂.pos]
    have hlow₁ := hm₁.low
    have hhigh₂ := hm₂.high
    omega
  have hpow : (0 : Rat) < 2 ^ (e₁ - e₂ - 53) := by positivity
  rw [hquotient]
  refine reads_roundWithAccuracy hmantissa hexponent _ ?_ ?_ hhigh
  · rw [hvalue]
    exact mul_le_mul_of_nonneg_right Nat.cast_div_le hpow.le
  · rw [hvalue]
    refine mul_lt_mul_of_pos_right ?_ hpow
    rw [div_lt_iff₀ hpos₂]
    exact_mod_cast Nat.lt_mul_of_div_lt (Nat.lt_succ_self _) hm₂.pos

theorem reads_round {m : Nat} {e : Int} (hm : 0 < m) (he : -1074 ≤ e)
    (hlow : (2 : Rat) ^ (-100 : Int) ≤ (m : Rat) * 2 ^ e) (hhigh : (m : Rat) * 2 ^ e ≤ 2 ^ 100) :
    ∃ w, Near w ((m : Rat) * 2 ^ e) ∧
      Reads (.ofModel (.pack (UnpackedFloat.round .binary64 .positive m e))) w := by
  have hpow : (0 : Rat) < 2 ^ e := by positivity
  have hlog : (m : Rat) < 2 ^ ((m.log2 : Int) + 1) := by
    exact_mod_cast (Nat.lt_log2_self (n := m))
  have hexponent : -100 < (m.log2 : Int) + 1 + e := by
    have hupper : (m : Rat) * 2 ^ e < 2 ^ ((m.log2 : Int) + 1 + e) := by
      rw [zpow_add₀ two_ne_zero]
      exact mul_lt_mul_of_pos_right hlog hpow
    exact (zpow_lt_zpow_iff_right₀ (by norm_num : (1 : Rat) < 2)).mp (lt_of_le_of_lt hlow hupper)
  have htarget : Format.binary64.targetExponent (totalExponent m e) = (m.log2 : Int) + e - 52 := by
    rw [targetExponent_eq]
    omega
  unfold UnpackedFloat.round
  simp only [htarget, decreaseExponent]
  rcases Nat.lt_or_ge m.log2 52 with hshort | hlong
  · have hshift : (e - ((m.log2 : Int) + e - 52)).toNat = 52 - m.log2 := by omega
    have hsmall : m < 2 ^ 53 := (Nat.log2_lt hm.ne').mp (show m.log2 < 53 by omega)
    have hvalue : ((m <<< (52 - m.log2) : Nat) : Rat) * 2 ^ (e - (52 - m.log2 : Nat))
        = (m : Rat) * 2 ^ e := by
      rw [Nat.shiftLeft_eq, zpow_sub₀ two_ne_zero, zpow_natCast]
      push_cast
      field_simp
    rw [hshift, ← hvalue]
    rw [← hvalue] at hhigh
    exact reads_roundWithAccuracy (full_shiftLeft hm hsmall).low (by omega) .exact le_rfl
      (lt_succ_mul _ _) hhigh
  · have hshift : (e - ((m.log2 : Int) + e - 52)).toNat = 0 := by omega
    have hsame : e - ((0 : Nat) : Int) = e := Int.sub_zero e
    rw [hshift, hsame]
    exact reads_roundWithAccuracy ((Nat.le_log2 hm.ne').mp hlong) he .exact le_rfl
      (lt_succ_mul _ _) hhigh

theorem reads_sub {x y : Float} {a b : Rat} (hx : Reads x a) (hy : Reads y b)
    (hlow : (2 : Rat) ^ (-100 : Int) ≤ a - b) (hhigh : a - b ≤ 2 ^ 100) :
    ∃ w, Near w (a - b) ∧ Reads (x - y) w := by
  obtain ⟨m₁, e₁, hm₁, he₁, hunpack₁, rfl⟩ := hx
  obtain ⟨m₂, e₂, hm₂, he₂, hunpack₂, rfl⟩ := hy
  have haligned (m : Nat) (e : Int) (h : min e₁ e₂ ≤ e) :
      (m : Rat) * 2 ^ e = ((m <<< (e - min e₁ e₂).toNat : Nat) : Rat) * 2 ^ min e₁ e₂ := by
    rw [Nat.shiftLeft_eq]
    push_cast
    rw [mul_assoc, ← zpow_natCast, ← zpow_add₀ two_ne_zero]
    congr 2
    omega
  have hpow : (0 : Rat) < 2 ^ min e₁ e₂ := by positivity
  rw [haligned m₁ e₁ (min_le_left _ _), haligned m₂ e₂ (min_le_right _ _), ← sub_mul]
    at hlow hhigh ⊢
  generalize hn₁ : m₁ <<< (e₁ - min e₁ e₂).toNat = n₁ at *
  generalize hn₂ : m₂ <<< (e₂ - min e₁ e₂).toNat = n₂ at *
  have hlt : n₂ < n₁ := by
    have hpos : (0 : Rat) < ((n₁ : Rat) - n₂) * 2 ^ min e₁ e₂ :=
      lt_of_lt_of_le (by positivity) hlow
    have hdifference := (mul_pos_iff_of_pos_right hpow).mp hpos
    have hcast : (n₂ : Rat) < n₁ := by linarith
    exact_mod_cast hcast
  have hcast : ((n₁ - n₂ : Nat) : Rat) = (n₁ : Rat) - n₂ := Nat.cast_sub hlt.le
  have hdifference : x - y
      = .ofModel (.pack (UnpackedFloat.round .binary64 .positive (n₁ - n₂) (min e₁ e₂))) := by
    change Float.ofModel (.pack (sub .binary64 x.toModel.unpack y.toModel.unpack)) = _
    have hcompare : compare ((n₁ : Int) - (n₂ : Int)) 0 = .gt := Int.compare_eq_gt.mpr (by omega)
    have htoNat : ((n₁ : Int) - (n₂ : Int)).toNat = n₁ - n₂ := by omega
    rw [hunpack₁, hunpack₂]
    simp only [sub, decreaseExponent, hn₁, hn₂, Sign.apply, UnpackedFloat.normalize, hcompare,
      htoNat]
  rw [hdifference, ← hcast]
  rw [← hcast] at hlow hhigh
  exact reads_round (by omega) (by omega) hlow hhigh

/-! ### Comparisons and whole parts -/

theorem le_iff (x y : Float) :
    x ≤ y ↔ UnpackedFloat.le x.toModel.unpack y.toModel.unpack = true := by
  change decide (x.toModel ≤ y.toModel) = true ↔ _
  exact decide_eq_true_iff

theorem lt_iff (x y : Float) :
    x < y ↔ UnpackedFloat.lt x.toModel.unpack y.toModel.unpack = true := by
  change decide (x.toModel < y.toModel) = true ↔ _
  exact decide_eq_true_iff

theorem le_of_reads {x y : Float} {a b : Rat} (hx : Reads x a) (hy : Reads y b) (h : a ≤ b) :
    x ≤ y := by
  obtain ⟨m₁, e₁, hm₁, -, hunpack₁, rfl⟩ := hx
  obtain ⟨m₂, e₂, hm₂, -, hunpack₂, rfl⟩ := hy
  rw [le_iff, hunpack₁, hunpack₂]
  rcases Int.lt_trichotomy e₁ e₂ with hlt | heq | hgt
  · simp only [UnpackedFloat.le, UnpackedFloat.compare, Int.compare_eq_lt.mpr hlt]
    rfl
  · subst heq
    have hle : m₁ ≤ m₂ := by
      exact_mod_cast le_of_mul_le_mul_right h (by positivity : (0 : Rat) < 2 ^ e₁)
    simp only [UnpackedFloat.le, UnpackedFloat.compare, Int.compare_eq_eq.mpr rfl]
    exact Nat.isLE_compare.mpr hle
  · have hbound := lt_of_le_of_lt ((hm₁.value_bounds e₁).1.trans h) (hm₂.value_bounds e₂).2
    have hlt := (zpow_lt_zpow_iff_right₀ (by norm_num : (1 : Rat) < 2)).mp hbound
    omega

theorem Reads.isFinite {x : Float} {v : Rat} (h : Reads x v) : x.isFinite = true := by
  obtain ⟨m, e, hm, -, hunpack, -⟩ := h
  change UnpackedFloat.isFinite x.toModel.unpack = true
  rw [hunpack]
  rfl

theorem Reads.isNaN {x : Float} {v : Rat} (h : Reads x v) : x.isNaN = false := by
  obtain ⟨m, e, hm, -, hunpack, -⟩ := h
  change UnpackedFloat.isNaN x.toModel.unpack = false
  rw [hunpack]
  rfl

theorem Reads.not_le_zero {x : Float} {v : Rat} (h : Reads x v) : ¬ x ≤ 0 := by
  obtain ⟨m, e, hm, -, hunpack, -⟩ := h
  rw [le_iff, hunpack]
  exact Bool.false_ne_true

/-- The whole part of a double is that of its value. -/
theorem toNat_toUInt64 {x : Float} {v : Rat} (h : Reads x v) :
    ∃ n : Nat, (n : Rat) ≤ v ∧ v < (n : Rat) + 1 ∧
      x.toUInt64.toNat = min n (2 ^ 64 - 1) := by
  obtain ⟨m, e, hm, -, hunpack, rfl⟩ := h
  have hvalue : (m : Rat) * 2 ^ e
      = ((m <<< e.toNat : Nat) : Rat) / ((2 ^ (-e).toNat : Nat) : Rat) := by
    rw [Nat.shiftLeft_eq]
    push_cast
    rw [mul_div_assoc, ← zpow_natCast, ← zpow_natCast, ← zpow_sub₀ two_ne_zero]
    congr 2
    omega
  refine ⟨m <<< e.toNat / 2 ^ (-e).toNat, ?_, ?_, ?_⟩
  · rw [hvalue]
    exact Nat.cast_div_le
  · rw [hvalue, div_lt_iff₀ (by positivity)]
    exact_mod_cast Nat.lt_mul_of_div_lt (Nat.lt_succ_self _) (Nat.two_pow_pos _)
  · change (UInt64.ofNatClamp (x.toModel.unpack.toInt 0 (UInt64.size - 1)).toNat).toNat = _
    rw [toNat_ofNatClamp, hunpack]
    simp only [UnpackedFloat.toInt, roundToInt_eq, Int.toNat_natCast]

/-! ### Differences -/

def Positive : UnpackedFloat → Prop
  | .infinity .positive => True
  | .finite .positive _ _ _ => True
  | _ => False

theorem positive_round {s : Sign} {m : Nat} {e : Int}
    (h : Positive (UnpackedFloat.round .binary64 s m e)) :
    s = .positive := by
  simp only [UnpackedFloat.round, roundWithAccuracy] at h
  split at h
  · cases h
  · cases s with
    | negative => cases h
    | positive => rfl

theorem positive_normalize {m : Int} {e : Int}
    (h : Positive (UnpackedFloat.normalize .binary64 m e .positive)) :
    0 < m := by
  unfold UnpackedFloat.normalize at h
  split at h
  · cases positive_round h
  · cases h
  · rename_i hcompare
    exact Int.compare_eq_gt.mp hcompare

theorem lt_of_positive_sub {u v : UnpackedFloat} (hu : Canonical .binary64 u)
    (hv : Canonical .binary64 v) (h : Positive (sub .binary64 u v)) :
    UnpackedFloat.lt v u = true := by
  cases u with
  | notANumber => cases h
  | infinity s =>
    cases v with
    | notANumber => cases h
    | infinity s' => cases s <;> cases s' <;> first | rfl | cases h
    | zero s' => cases s <;> first | rfl | cases h
    | finite s' m e hm => cases s <;> first | rfl | cases h
  | zero s =>
    cases v with
    | notANumber => cases h
    | infinity s' => cases s' <;> first | rfl | cases h
    | zero s' => cases s <;> cases s' <;> cases h
    | finite s' m e hm => cases s' <;> first | rfl | cases h
  | finite s₁ m₁ e₁ hm₁ =>
    cases v with
    | notANumber => cases h
    | infinity s => cases s <;> first | rfl | cases h
    | zero s => cases s₁ <;> first | rfl | cases h
    | finite s₂ m₂ e₂ hm₂ =>
      have hpositive := positive_normalize h
      cases s₁ with
      | positive =>
        cases s₂ with
        | negative => rfl
        | positive =>
          have hless : m₂ <<< (e₂ - min e₂ e₁).toNat < m₁ <<< (e₁ - min e₂ e₁).toNat := by
            rw [min_comm]
            simp only [Sign.apply] at hpositive
            omega
          have horder := (Floating.compare_then_aligned hv hu).trans (Nat.compare_eq_lt.mpr hless)
          simp only [UnpackedFloat.lt, UnpackedFloat.compare, horder]
          rfl
      | negative =>
        cases s₂ with
        | positive =>
          have hfirst := Int.natCast_nonneg (m₁ <<< (e₁ - min e₁ e₂).toNat)
          have hsecond := Int.natCast_nonneg (m₂ <<< (e₂ - min e₁ e₂).toNat)
          simp only [Sign.apply] at hpositive
          omega
        | negative =>
          have hmore : m₁ <<< (e₁ - min e₂ e₁).toNat < m₂ <<< (e₂ - min e₂ e₁).toNat := by
            rw [min_comm]
            simp only [Sign.apply] at hpositive
            omega
          have horder := (Floating.compare_then_aligned hv hu).trans (Nat.compare_eq_gt.mpr hmore)
          simp only [UnpackedFloat.lt, UnpackedFloat.compare, horder]
          rfl

theorem unpackSign_pack_negative {m : Nat} {e : Int} (hm : 0 < m) :
    unpackSign (UnpackedFloat.pack .binary64 (.finite .negative m e hm)) = 1#1 := by
  unfold UnpackedFloat.pack
  dsimp only
  split
  · exact unpackSign_packComponents .negative _ _
  · split
    · exact unpackSign_packComponents .negative _ _
    · exact unpackSign_packComponents .negative _ _

theorem not_le_unpack {b : BitVec 64} (hb : @unpackSign .binary64 b = 1#1) {m : Nat}
    {e : Int} (hm : 0 < m) :
    ¬ UnpackedFloat.le (.finite .positive m e hm) (UnpackedFloat.unpack .binary64 b) = true := by
  have hsign : Sign.ofBitVec 1#1 = .negative := rfl
  unfold UnpackedFloat.unpack
  simp only [hb, hsign]
  split
  · split
    · exact Bool.false_ne_true
    · exact Bool.false_ne_true
  · split
    · split
      · exact Bool.false_ne_true
      · exact Bool.false_ne_true
    · exact Bool.false_ne_true

/-- What is packed from zero or below is not above zero when it is unpacked again. -/
theorem positive_of_half_le {u : UnpackedFloat} (h : (0.5 : Float) ≤ .ofModel (.pack u)) :
    Positive u := by
  have hhalf : (0.5 : Float).toModel.unpack = .finite .positive (2 ^ 52) (-53) (by decide) := rfl
  rw [le_iff, hhalf] at h
  cases u with
  | notANumber => cases h
  | infinity s =>
    cases s with
    | positive => trivial
    | negative => cases h
  | zero s => cases s <;> cases h
  | finite s m e hm =>
    cases s with
    | positive => trivial
    | negative => exact absurd h (not_le_unpack (unpackSign_pack_negative hm) _)

/-- A difference of a half needs a difference. -/
theorem lt_of_half_le_sub {x y : Float} (h : (0.5 : Float) ≤ x - y) : y < x := by
  rw [lt_iff]
  exact lt_of_positive_sub (Floating.canonical_unpack .binary64 _)
    (Floating.canonical_unpack .binary64 _) (positive_of_half_le h)

end ImagePipeline.Double
