import ImagePipeline.Proofs.Number.Unpacked

/-!
# Magnitudes of floats

A float that is a number has a sign and a magnitude, which may be infinite. An operation gives what
its format stores of the exact magnitude (`stored`): the rounded one, or an infinite one when that
is too large. So the order of results follows from that of the exact ones, infinite or not.
-/

namespace ImagePipeline.Floating

open scoped ENNReal
open Float.Model (Format totalExponent UnpackedFloat)
open Float.Model.UnpackedFloat

/-! ### What a format stores -/

noncomputable def stored (f : Format) (v : ℝ≥0∞) : ℝ≥0∞ :=
  if v ≠ ⊤ ∧ rounded f v.toReal < limit f then ENNReal.ofReal (rounded f v.toReal) else ⊤

section

variable {f : Format}

theorem stored_top (f : Format) : stored f ⊤ = ⊤ := if_neg fun h => h.1 rfl

theorem limit_pos (f : Format) : 0 < limit f := by
  unfold limit
  positivity

theorem stored_zero (f : Format) : stored f 0 = 0 := by
  rw [stored, ENNReal.toReal_zero, rounded_zero, if_pos ⟨ENNReal.zero_ne_top, limit_pos f⟩,
    ENNReal.ofReal_zero]

theorem stored_ofReal {v : ℝ} (hv : 0 ≤ v) :
    stored f (.ofReal v) = if rounded f v < limit f then .ofReal (rounded f v) else ⊤ := by
  simp only [stored, ENNReal.ofReal_ne_top, ne_eq, not_false_eq_true, true_and,
    ENNReal.toReal_ofReal hv]

theorem stored_mono {v w : ℝ≥0∞} (h : v ≤ w) : stored f v ≤ stored f w := by
  by_cases hw : w ≠ ⊤ ∧ rounded f w.toReal < limit f
  · have hle : rounded f v.toReal ≤ rounded f w.toReal :=
      rounded_mono ENNReal.toReal_nonneg (ENNReal.toReal_mono hw.1 h)
    rw [stored, stored, if_pos hw, if_pos ⟨ne_top_of_le_ne_top hw.1 h, hle.trans_lt hw.2⟩]
    exact ENNReal.ofReal_le_ofReal hle
  · have htop : stored f w = ⊤ := if_neg hw
    rw [htop]
    exact le_top

theorem stored_of_onGrid {v : ℝ} (hv : 0 ≤ v) (h : OnGrid f v) (hlimit : v < limit f) :
    stored f (.ofReal v) = .ofReal v := by
  rw [stored_ofReal hv, rounded_of_onGrid h, if_pos hlimit]

theorem stored_eq_zero_iff {v : ℝ≥0∞} :
    stored f v = 0 ↔ v ≤ .ofReal (2 ^ (f.minExponent - 1)) := by
  by_cases hv : v = ⊤
  · rw [hv, stored_top]
    exact iff_of_false ENNReal.top_ne_zero fun hle => ENNReal.ofReal_ne_top (top_le_iff.mp hle)
  · have hvalue : v ≤ .ofReal (2 ^ (f.minExponent - 1)) ↔ v.toReal ≤ 2 ^ (f.minExponent - 1) :=
      ENNReal.le_ofReal_iff_toReal_le hv (by positivity)
    rw [hvalue, ← rounded_eq_zero_iff ENNReal.toReal_nonneg, stored]
    split
    · rw [ENNReal.ofReal_eq_zero]
      exact (rounded_nonneg f _).ge_iff_eq'
    · next hlarge =>
      refine iff_of_false ENNReal.top_ne_zero fun hzero => hlarge ⟨hv, ?_⟩
      rw [hzero]
      exact limit_pos f

end

/-! ### Packed results -/

section

variable {f : Format} {u : UnpackedFloat} {s : Sign}

theorem holds_packed_infinity (f : Format) (s : Sign) :
    Holds (packed f (.infinity s)) s (stored f ⊤) := by
  rw [packed_infinity, stored_top]
  exact ⟨rfl, rfl⟩

/-- A zero has either sign. -/
theorem holds_packed_zero (f : Format) (r s : Sign) :
    Holds (packed f (.zero r)) s (stored f 0) := by
  rw [packed_zero, stored_zero]
  rfl

theorem holds_packed (hbias : 0 < f.exponentBias) (hcanonical : Canonical f u) {v : ℝ} (hv : 0 ≤ v)
    (h : Denotes u s (rounded f v)) : Holds (packed f u) s (stored f (.ofReal v)) := by
  rw [stored_ofReal hv]
  cases u with
  | notANumber => cases h
  | infinity s' => cases h
  | zero s' =>
    rw [packed_zero, h.2, if_pos (limit_pos f), ENNReal.ofReal_zero]
    rfl
  | finite s' m e hm =>
    obtain ⟨rfl, hvalue⟩ := h
    rw [hvalue]
    by_cases hfits : e ≤ f.exponentBias - f.mantissaBitsWithoutImplicit
    · rw [packed_finite hcanonical hfits, if_pos ((fits_iff hcanonical hbias).mp hfits)]
      exact ⟨rfl, rfl⟩
    · rw [packed_large (Int.lt_of_not_ge hfits), if_neg (mt (fits_iff hcanonical hbias).mpr hfits)]
      exact ⟨rfl, rfl⟩

/-- A number of the format is what the format stores of it. -/
theorem holds_packed_self (hbias : 0 < f.exponentBias) (hcanonical : Canonical f u) {v : ℝ≥0∞}
    (h : Holds u s v) : Holds (packed f u) s (stored f v) := by
  cases u with
  | notANumber => cases h
  | infinity s' =>
    obtain ⟨rfl, rfl⟩ := h
    exact holds_packed_infinity f s'
  | zero s' =>
    cases h
    exact holds_packed_zero f s' s
  | finite s' m e hm =>
    obtain ⟨hs, rfl⟩ := h
    have hvalue : rounded f (m * 2 ^ e) = m * 2 ^ e :=
      rounded_of_onGrid (onGrid_of_canonical hcanonical)
    exact holds_packed hbias hcanonical (by positivity) ⟨hs, hvalue⟩

/-- Nothing is lost of what the format has already. -/
theorem Holds.stored_eq (hbias : 0 < f.exponentBias) {b : BitVec f.numBits} {v : ℝ≥0∞}
    (h : Holds (UnpackedFloat.unpack f b) s v) : stored f v = v := by
  have hcanonical := canonical_unpack f b
  cases hu : UnpackedFloat.unpack f b with
  | notANumber =>
    rw [hu] at h
    cases h
  | infinity s' =>
    rw [hu] at h
    obtain ⟨-, rfl⟩ := h
    exact stored_top _
  | zero s' =>
    rw [hu] at h
    cases h
    exact stored_zero _
  | finite s' m e hm =>
    rw [hu] at h hcanonical
    obtain ⟨-, rfl⟩ := h
    exact stored_of_onGrid (by positivity) (onGrid_of_canonical hcanonical)
      ((fits_iff hcanonical hbias).mp (fits_unpack hbias hu))

end

/-! ### Doubles -/

theorem bias_pos : 0 < Format.binary64.exponentBias := by decide

section

variable {u u' : UnpackedFloat} {s t : Sign} {v w : ℝ≥0∞}

/-- An operation on doubles whose exact result is in the mantissa. -/
theorem holds_roundWithAccuracy (s : Sign) {m : ℕ} {e : ℤ} {acc : Accuracy} {v : ℝ} (hv : 0 < v)
    (hx : Represents (.ofMantissaAndAccuracy m acc) (v / 2 ^ e))
    (he : e ≤ exponentOf .binary64 v) :
    Holds (packed .binary64 (roundWithAccuracy .binary64 s m e acc)) s
      (stored .binary64 (.ofReal v)) := by
  obtain ⟨hcanonical, hdenotes⟩ := denotes_roundWithAccuracy (f := .binary64) s hv hx he
  exact holds_packed bias_pos hcanonical hv.le hdenotes

theorem holds_round (s : Sign) {m : ℕ} (hm : 0 < m) (e : ℤ) :
    Holds (packed .binary64 (UnpackedFloat.round .binary64 s m e)) s
      (stored .binary64 (.ofReal (m * 2 ^ e))) := by
  obtain ⟨hcanonical, hdenotes⟩ := denotes_round .binary64 s hm e
  exact holds_packed bias_pos hcanonical (by positivity) hdenotes

theorem exponent_le_of_full {m : ℕ} {e k : ℤ} (hm : 0 < m)
    (h : k ≤ m.log2 + 1 + e - 53 ∨ k ≤ -1074) : k ≤ exponentOf .binary64 (m * 2 ^ e) := by
  have hvalue : (m : ℝ) * 2 ^ e / 2 ^ e = m := mul_div_cancel_right₀ _ (by positivity)
  rw [exponentOf_eq, log_of_bounds hm hvalue.ge (by rw [hvalue]; exact lt_add_one _)]
  change k ≤ max ((m.log2 : ℤ) + e + 1 - (53 : ℕ)) (-1074)
  omega

theorem holds_mul_finite (s : Sign) {m n : ℕ} {e k : ℤ} {t t' : Sign} {hm : 0 < m} {hn : 0 < n}
    (hleft : Canonical .binary64 (.finite t m e hm))
    (hright : Canonical .binary64 (.finite t' n k hn)) :
    Holds (packed .binary64 (roundWithAccuracy .binary64 s (m * n) (e + k) .exact)) s
      (stored .binary64 (.ofReal (m * 2 ^ e) * .ofReal (n * 2 ^ k))) := by
  have hvalue : (m : ℝ) * 2 ^ e * (n * 2 ^ k) = ((m * n : ℕ) : ℝ) * 2 ^ (e + k) := by
    rw [zpow_add₀ two_ne_zero]
    push_cast
    ring
  have hpos : 0 < m * n := Nat.mul_pos hm hn
  rw [← ENNReal.ofReal_mul (by positivity), hvalue]
  refine holds_roundWithAccuracy s (by positivity) ?_ (exponent_le_of_full hpos ?_)
  · rw [mul_div_cancel_right₀ _ (by positivity)]
    exact .exact _
  · obtain ⟨-, hleast, hfull⟩ := hleft
    obtain ⟨-, hleast', hfull'⟩ := hright
    change -1074 ≤ e at hleast
    change -1074 ≤ k at hleast'
    change 2 ^ 52 ≤ m ∨ e = -1074 at hfull
    change 2 ^ 52 ≤ n ∨ k = -1074 at hfull'
    have hlog : 2 ^ 52 ≤ m * n → 52 ≤ (m * n).log2 := (Nat.le_log2 hpos.ne').mpr
    rcases hfull with hm' | rfl
    · have hlog := hlog (hm'.trans (Nat.le_mul_of_pos_right m hn))
      omega
    · rcases hfull' with hn' | rfl
      · have hlog := hlog (hn'.trans (Nat.le_mul_of_pos_left n hm))
        omega
      · omega

theorem holds_mul (hu : Canonical .binary64 u) (hu' : Canonical .binary64 u') (h : Holds u s v)
    (h' : Holds u' t w) (hleft : v ≠ 0 ∨ w ≠ ⊤) (hright : v ≠ ⊤ ∨ w ≠ 0) :
    Holds (packed .binary64 (mul .binary64 u u')) (s * t) (stored .binary64 (v * w)) := by
  cases u with
  | notANumber => cases h
  | infinity s' =>
    obtain ⟨rfl, rfl⟩ := h
    cases u' with
    | notANumber => cases h'
    | infinity t' =>
      obtain ⟨rfl, rfl⟩ := h'
      rw [ENNReal.top_mul_top]
      exact holds_packed_infinity _ _
    | zero t' => exact absurd h' (hright.resolve_left fun h => h rfl)
    | finite t' n k hn =>
      obtain ⟨rfl, rfl⟩ := h'
      rw [ENNReal.top_mul (by positivity)]
      exact holds_packed_infinity _ _
  | zero s' =>
    cases h
    rw [zero_mul]
    cases u' with
    | notANumber => cases h'
    | infinity t' => exact absurd h'.2 (hleft.resolve_left fun h => h rfl)
    | zero t' => exact holds_packed_zero _ _ _
    | finite t' n k hn => exact holds_packed_zero _ _ _
  | finite s' m e hm =>
    obtain ⟨rfl, rfl⟩ := h
    cases u' with
    | notANumber => cases h'
    | infinity t' =>
      obtain ⟨rfl, rfl⟩ := h'
      rw [ENNReal.mul_top (by positivity)]
      exact holds_packed_infinity _ _
    | zero t' =>
      cases h'
      rw [mul_zero]
      exact holds_packed_zero _ _ _
    | finite t' n k hn =>
      obtain ⟨rfl, rfl⟩ := h'
      exact holds_mul_finite _ hu hu'

/-- A quotient of whole numbers is cut off to its whole part, and the rest says how far it is. -/
theorem represents_quotient {a b : ℕ} (hb : 0 < b) :
    Represents (.ofMantissaAndAccuracy (a / b) (accuracyOfFraction (a % b) b))
      ((a : ℝ) / b) := by
  have hpos : (0 : ℝ) < b := by exact_mod_cast hb
  have hlt : ((a % b : ℕ) : ℝ) < b := by exact_mod_cast Nat.mod_lt a hb
  have hsplit : (a : ℝ) / b = ((a / b : ℕ) : ℝ) + ((a % b : ℕ) : ℝ) / b := by
    have hcast : (b : ℝ) * ((a / b : ℕ) : ℝ) + ((a % b : ℕ) : ℝ) = a := by
      exact_mod_cast Nat.div_add_mod a b
    field_simp
    linarith
  rw [hsplit]
  unfold accuracyOfFraction
  split
  · next hzero =>
    rw [hzero, Nat.cast_zero, zero_div, add_zero]
    rfl
  · next hsome =>
    have hrest : 0 < ((a % b : ℕ) : ℝ) / b :=
      div_pos (by exact_mod_cast Nat.pos_of_ne_zero hsome) hpos
    have hone : ((a % b : ℕ) : ℝ) / b < 1 := (div_lt_one hpos).mpr hlt
    rcases Nat.lt_trichotomy (2 * (a % b)) b with hless | heq | hmore
    · have hhalf : ((a % b : ℕ) : ℝ) / b < 1 / 2 := by
        rw [div_lt_div_iff₀ hpos two_pos]
        have hcast : (2 : ℝ) * ((a % b : ℕ) : ℝ) < b := by exact_mod_cast hless
        linarith
      rw [Nat.compare_eq_lt.mpr hless]
      exact ⟨by linarith, by linarith⟩
    · have hhalf : ((a % b : ℕ) : ℝ) / b = 1 / 2 := by
        rw [div_eq_div_iff hpos.ne' two_ne_zero]
        have hcast : (2 : ℝ) * ((a % b : ℕ) : ℝ) = b := by exact_mod_cast heq
        linarith
      rw [Nat.compare_eq_eq.mpr heq, hhalf]
      rfl
    · have hhalf : 1 / 2 < ((a % b : ℕ) : ℝ) / b := by
        rw [div_lt_div_iff₀ two_pos hpos]
        have hcast : (b : ℝ) < 2 * ((a % b : ℕ) : ℝ) := by exact_mod_cast hmore
        linarith
      rw [Nat.compare_eq_gt.mpr hmore]
      exact ⟨by linarith, by linarith⟩

/-- The quotient is at least the power of two that is told from the first bits. -/
theorem log_quotient {m n : ℕ} {e k : ℤ} (hm : 0 < m) (hn : 0 < n) :
    totalExponent m e - totalExponent n k
      ≤ Int.log 2 ((m : ℝ) * 2 ^ e / (n * 2 ^ k)) + 1 := by
  have hlow : (2 : ℝ) ^ (m.log2 : ℤ) ≤ m := by exact_mod_cast Nat.log2_self_le hm.ne'
  have hhigh : (n : ℝ) ≤ 2 ^ ((n.log2 : ℤ) + 1) := by
    exact_mod_cast (Nat.lt_log2_self (n := n)).le
  have hbound : (2 : ℝ) ^ ((m.log2 : ℤ) + e - (n.log2 + 1 + k)) ≤ m * 2 ^ e / (n * 2 ^ k) := by
    rw [zpow_sub₀ two_ne_zero, zpow_add₀ two_ne_zero, zpow_add₀ two_ne_zero (_ + 1)]
    gcongr
  have hlog := (Int.zpow_le_iff_le_log one_lt_two
    (r := (m : ℝ) * 2 ^ e / (n * 2 ^ k)) (by positivity)).mp (by exact_mod_cast hbound)
  simp only [totalExponent]
  omega

theorem holds_div_finite (s : Sign) {m n : ℕ} (e k : ℤ) (hm : 0 < m) (hn : 0 < n) :
    Holds (packed .binary64 (roundWithAccuracy .binary64 s (divCore .binary64 m e n k).1
      (divCore .binary64 m e n k).2.1 (divCore .binary64 m e n k).2.2)) s
      (stored .binary64 (.ofReal (m * 2 ^ e) / .ofReal (n * 2 ^ k))) := by
  have hn' : (0 : ℝ) < n := by exact_mod_cast hn
  rw [← ENNReal.ofReal_div_of_pos (by positivity)]
  simp only [divCore]
  generalize htarget : min (e - k) (Format.binary64.targetExponent
    (totalExponent m e - totalExponent n k)) = target
  refine holds_roundWithAccuracy s (by positivity) ?_ ?_
  · have hvalue : (m : ℝ) * 2 ^ e / (n * 2 ^ k) / 2 ^ target
        = ((m <<< (e - k - target).toNat : ℕ) : ℝ) / n := by
      have hshift : (2 : ℝ) ^ (e - k - target).toNat = 2 ^ e / 2 ^ k / 2 ^ target := by
        rw [← zpow_natCast, ← zpow_sub₀ two_ne_zero, ← zpow_sub₀ two_ne_zero,
          Int.toNat_of_nonneg (by omega)]
      rw [Nat.shiftLeft_eq]
      push_cast
      rw [hshift]
      field_simp
    rw [hvalue]
    exact represents_quotient hn
  · have hlog := log_quotient (e := e) (k := k) hm hn
    have htarget' : target ≤ Format.binary64.targetExponent
        (totalExponent m e - totalExponent n k) := by omega
    refine htarget'.trans ?_
    rw [exponentOf]
    unfold Format.targetExponent
    omega

theorem holds_div (h : Holds u s v) (h' : Holds u' t w) (hzero : w ≠ 0) (htop : v ≠ ⊤ ∨ w ≠ ⊤) :
    Holds (packed .binary64 (div .binary64 u u')) (s / t) (stored .binary64 (v / w)) := by
  cases u with
  | notANumber => cases h
  | infinity s' =>
    obtain ⟨rfl, rfl⟩ := h
    cases u' with
    | notANumber => cases h'
    | infinity t' => exact absurd h'.2 (htop.resolve_left fun h => h rfl)
    | zero t' => exact absurd h' hzero
    | finite t' n k hn =>
      obtain ⟨rfl, rfl⟩ := h'
      rw [ENNReal.top_div_of_ne_top ENNReal.ofReal_ne_top]
      exact holds_packed_infinity _ _
  | zero s' =>
    cases h
    rw [ENNReal.zero_div]
    cases u' with
    | notANumber => cases h'
    | infinity t' => exact holds_packed_zero _ _ _
    | zero t' => exact absurd h' hzero
    | finite t' n k hn => exact holds_packed_zero _ _ _
  | finite s' m e hm =>
    obtain ⟨rfl, rfl⟩ := h
    cases u' with
    | notANumber => cases h'
    | infinity t' =>
      obtain ⟨rfl, rfl⟩ := h'
      rw [ENNReal.div_top]
      exact holds_packed_zero _ _ _
    | zero t' => exact absurd h' hzero
    | finite t' n k hn =>
      obtain ⟨rfl, rfl⟩ := h'
      exact holds_div_finite _ e k hm hn

/-- Both mantissas at the smaller of the two exponents. -/
theorem aligned (m : ℕ) {e k : ℤ} (h : k ≤ e) :
    (m : ℝ) * 2 ^ e = ((m <<< (e - k).toNat : ℕ) : ℝ) * 2 ^ k := by
  have hshift : (2 : ℝ) ^ (e - k).toNat * 2 ^ k = 2 ^ e := by
    rw [← zpow_natCast, ← zpow_add₀ two_ne_zero, Int.toNat_of_nonneg (by omega),
      Int.sub_add_cancel]
  rw [Nat.shiftLeft_eq]
  push_cast
  rw [mul_assoc, hshift]

/-- Numbers that are told apart by their exponents first are in the order of their mantissas at one
exponent. -/
theorem compare_then_aligned {f : Format} {m n : ℕ} {e k : ℤ} {hm : 0 < m} {hn : 0 < n}
    (hleft : Canonical f (.finite s m e hm)) (hright : Canonical f (.finite t n k hn)) :
    (compare e k).then (compare m n)
      = compare (m <<< (e - min e k).toNat) (n <<< (k - min e k).toNat) := by
  have hpow : (0 : ℝ) < 2 ^ min e k := by positivity
  rw [compare_then_eq hleft hright, aligned m (min_le_left e k), aligned n (min_le_right e k)]
  generalize m <<< (e - min e k).toNat = a, n <<< (k - min e k).toNat = b
  rcases Nat.lt_trichotomy a b with hlt | rfl | hgt
  · have hcast : (a : ℝ) < b := by exact_mod_cast hlt
    rw [Nat.compare_eq_lt.mpr hlt, compare_lt_iff_lt]
    exact mul_lt_mul_of_pos_right hcast hpow
  · rw [Nat.compare_eq_eq.mpr rfl, compare_eq_iff_eq]
  · have hcast : (b : ℝ) < a := by exact_mod_cast hgt
    rw [Nat.compare_eq_gt.mpr hgt, compare_gt_iff_gt]
    exact mul_lt_mul_of_pos_right hcast hpow

theorem holds_normalize_pos {n : ℕ} (hn : 0 < n) (e : ℤ) :
    Holds (packed .binary64 (UnpackedFloat.normalize .binary64 n e .positive)) .positive
      (stored .binary64 (.ofReal (n * 2 ^ e))) := by
  have hcompare : compare (n : ℤ) 0 = .gt := Int.compare_eq_gt.mpr (by omega)
  simp only [UnpackedFloat.normalize, hcompare, Int.toNat_natCast]
  exact holds_round .positive hn e

theorem holds_normalize_neg {n : ℕ} (hn : 0 < n) (e : ℤ) :
    Holds (packed .binary64 (UnpackedFloat.normalize .binary64 (-(n : ℤ)) e .positive)) .negative
      (stored .binary64 (.ofReal (n * 2 ^ e))) := by
  have hcompare : compare (-(n : ℤ)) 0 = .lt := Int.compare_eq_lt.mpr (by omega)
  simp only [UnpackedFloat.normalize, hcompare, neg_neg, Int.toNat_natCast]
  exact holds_round .negative hn e

theorem holds_add (hu : Canonical .binary64 u) (hu' : Canonical .binary64 u')
    (h : Holds u .positive v) (h' : Holds u' .positive w) :
    Holds (packed .binary64 (add .binary64 u u')) .positive (stored .binary64 (v + w)) := by
  cases u with
  | notANumber => cases h
  | infinity s =>
    obtain ⟨rfl, rfl⟩ := h
    rw [top_add]
    cases u' with
    | notANumber => cases h'
    | infinity t =>
      obtain ⟨rfl, -⟩ := h'
      exact holds_packed_infinity _ _
    | zero t => exact holds_packed_infinity _ _
    | finite t n k hn => exact holds_packed_infinity _ _
  | zero s =>
    cases h
    rw [zero_add]
    cases u' with
    | notANumber => cases h'
    | infinity t => exact holds_packed_self bias_pos hu' h'
    | zero t =>
      cases h'
      simp only [add]
      split
      · exact holds_packed_zero _ _ _
      · exact holds_packed_zero _ _ _
    | finite t n k hn => exact holds_packed_self bias_pos hu' h'
  | finite s m e hm =>
    obtain ⟨rfl, rfl⟩ := h
    cases u' with
    | notANumber => cases h'
    | infinity t =>
      obtain ⟨rfl, rfl⟩ := h'
      rw [add_top]
      exact holds_packed_infinity _ _
    | zero t =>
      cases h'
      rw [add_zero]
      exact holds_packed_self bias_pos hu ⟨rfl, rfl⟩
    | finite t n k hn =>
      obtain ⟨rfl, rfl⟩ := h'
      have hpos : 0 < m <<< (e - min e k).toNat := by
        rw [Nat.shiftLeft_eq]
        exact Nat.mul_pos hm (Nat.two_pow_pos _)
      rw [← ENNReal.ofReal_add (by positivity) (by positivity), aligned m (min_le_left e k),
        aligned n (min_le_right e k), ← add_mul, ← Nat.cast_add]
      exact holds_normalize_pos (Nat.add_pos_left hpos _) (min e k)

theorem holds_neg (h : Holds u s v) : Holds (neg u) (-s) v := by
  cases u with
  | notANumber => cases h
  | infinity s' =>
    obtain ⟨rfl, rfl⟩ := h
    exact ⟨rfl, rfl⟩
  | zero s' => exact h
  | finite s' m e hm =>
    obtain ⟨rfl, rfl⟩ := h
    exact ⟨rfl, rfl⟩

theorem canonical_neg {f : Format} (h : Canonical f u) : Canonical f (neg u) := by
  cases u with
  | notANumber | infinity | zero | finite => exact h

theorem holds_normalize_zero (s : Sign) (e : ℤ) :
    Holds (packed .binary64 (UnpackedFloat.normalize .binary64 0 e .positive)) s
      (stored .binary64 0) := by
  have hzero : UnpackedFloat.normalize .binary64 0 e .positive = .zero .positive := rfl
  rw [hzero]
  exact holds_packed_zero _ _ _

theorem ofReal_sub_aligned {a b : ℕ} (h : b ≤ a) (e : ℤ) :
    ENNReal.ofReal (a * 2 ^ e) - .ofReal (b * 2 ^ e)
      = .ofReal (((a - b : ℕ) : ℝ) * 2 ^ e) := by
  rw [← ENNReal.ofReal_sub _ (by positivity), ← sub_mul, Nat.cast_sub h]

theorem holds_normalize_sub (a b : ℕ) (e : ℤ) :
    (b ≤ a → Holds (packed .binary64 (UnpackedFloat.normalize .binary64 ((a : ℤ) - b) e .positive))
      .positive (stored .binary64 (.ofReal (a * 2 ^ e) - .ofReal (b * 2 ^ e)))) ∧
    (a ≤ b → Holds (packed .binary64 (UnpackedFloat.normalize .binary64 ((a : ℤ) - b) e .positive))
      .negative (stored .binary64 (.ofReal (b * 2 ^ e) - .ofReal (a * 2 ^ e)))) := by
  constructor
  · intro hle
    rw [ofReal_sub_aligned hle, ← Nat.cast_sub hle]
    rcases Nat.eq_zero_or_pos (a - b) with hzero | hpos
    · simp only [hzero, Nat.cast_zero, zero_mul, ENNReal.ofReal_zero]
      exact holds_normalize_zero .positive e
    · exact holds_normalize_pos hpos e
  · intro hle
    have hneg : (a : ℤ) - b = -((b - a : ℕ) : ℤ) := by omega
    rw [ofReal_sub_aligned hle, hneg]
    rcases Nat.eq_zero_or_pos (b - a) with hzero | hpos
    · simp only [hzero, Nat.cast_zero, zero_mul, ENNReal.ofReal_zero, neg_zero]
      exact holds_normalize_zero .negative e
    · exact holds_normalize_neg hpos e

theorem holds_sub_finite {m n : ℕ} (e k : ℤ) (hm : 0 < m) (hn : 0 < n) :
    (ENNReal.ofReal (n * 2 ^ k) ≤ .ofReal (m * 2 ^ e) →
      Holds (packed .binary64 (sub .binary64 (.finite .positive m e hm) (.finite .positive n k hn)))
        .positive (stored .binary64 (.ofReal (m * 2 ^ e) - .ofReal (n * 2 ^ k)))) ∧
    (ENNReal.ofReal (m * 2 ^ e) ≤ .ofReal (n * 2 ^ k) →
      Holds (packed .binary64 (sub .binary64 (.finite .positive m e hm) (.finite .positive n k hn)))
        .negative (stored .binary64 (.ofReal (n * 2 ^ k) - .ofReal (m * 2 ^ e)))) := by
  have hpow : (0 : ℝ) < 2 ^ min e k := by positivity
  have hle (a b : ℕ) : ENNReal.ofReal (a * 2 ^ min e k) ≤ .ofReal (b * 2 ^ min e k) → a ≤ b := by
    intro h
    have hreal := (ENNReal.ofReal_le_ofReal_iff (by positivity)).mp h
    exact_mod_cast le_of_mul_le_mul_right hreal hpow
  rw [aligned m (min_le_left e k), aligned n (min_le_right e k)]
  obtain ⟨hpos, hneg⟩ := holds_normalize_sub (m <<< (e - min e k).toNat) (n <<< (k - min e k).toNat)
    (min e k)
  exact ⟨fun h => hpos (hle _ _ h), fun h => hneg (hle _ _ h)⟩

/-- A difference has the sign that the order of its terms says. -/
theorem holds_sub (hu : Canonical .binary64 u) (hu' : Canonical .binary64 u')
    (h : Holds u .positive v) (h' : Holds u' .positive w) (htop : v ≠ ⊤ ∨ w ≠ ⊤) :
    (w ≤ v → Holds (packed .binary64 (sub .binary64 u u')) .positive (stored .binary64 (v - w))) ∧
    (v ≤ w → Holds (packed .binary64 (sub .binary64 u u')) .negative
      (stored .binary64 (w - v))) := by
  cases u with
  | notANumber => cases h
  | infinity s =>
    obtain ⟨rfl, rfl⟩ := h
    have hw : w ≠ ⊤ := htop.resolve_left fun h => h rfl
    rw [ENNReal.top_sub hw]
    refine ⟨fun _ => ?_, fun hle => absurd (top_le_iff.mp hle) hw⟩
    cases u' with
    | notANumber => cases h'
    | infinity t => exact absurd h'.2 hw
    | zero t => exact holds_packed_infinity _ .positive
    | finite t n k hn => exact holds_packed_infinity _ .positive
  | zero s =>
    cases h
    have hneg := holds_packed_self bias_pos (canonical_neg hu') (holds_neg h')
    rw [tsub_zero, zero_tsub]
    cases u' with
    | notANumber => cases h'
    | infinity t =>
      obtain ⟨rfl, rfl⟩ := h'
      exact ⟨fun hle => absurd (le_zero_iff.mp hle) ENNReal.top_ne_zero, fun _ => hneg⟩
    | zero t =>
      cases h'
      have hzero (r : Sign) :
          Holds (packed .binary64 (sub .binary64 (.zero s) (.zero t))) r (stored .binary64 0) := by
        simp only [sub]
        split
        · exact holds_packed_zero _ _ r
        · exact holds_packed_zero _ _ r
      exact ⟨fun _ => hzero .positive, fun _ => hzero .negative⟩
    | finite t n k hn =>
      obtain ⟨rfl, rfl⟩ := h'
      refine ⟨fun hle => ?_, fun _ => hneg⟩
      have hpos : (0 : ℝ) < n * 2 ^ k := by positivity
      exact absurd (le_zero_iff.mp hle) (ENNReal.ofReal_pos.mpr hpos).ne'
  | finite s m e hm =>
    obtain ⟨rfl, rfl⟩ := h
    cases u' with
    | notANumber => cases h'
    | infinity t =>
      obtain ⟨rfl, rfl⟩ := h'
      rw [ENNReal.top_sub ENNReal.ofReal_ne_top]
      refine ⟨fun hle => absurd (top_le_iff.mp hle) ENNReal.ofReal_ne_top, fun _ => ?_⟩
      exact holds_packed_infinity _ .negative
    | zero t =>
      cases h'
      rw [tsub_zero]
      refine ⟨fun _ => holds_packed_self bias_pos hu ⟨rfl, rfl⟩, fun hle => ?_⟩
      have hpos : (0 : ℝ) < m * 2 ^ e := by positivity
      exact absurd (le_zero_iff.mp hle) (ENNReal.ofReal_pos.mpr hpos).ne'
    | finite t n k hn =>
      obtain ⟨rfl, rfl⟩ := h'
      exact holds_sub_finite e k hm hn

/-- The square root of a whole number is cut off to its whole part, and lies in the middle of two
whole numbers never. -/
theorem represents_sqrt (a : ℕ) :
    Represents (.ofMantissaAndAccuracy (Nat.sqrt a)
      (if a - Nat.sqrt a * Nat.sqrt a = 0 then .exact
        else .inexact (if a - Nat.sqrt a * Nat.sqrt a ≤ Nat.sqrt a then .lt else .gt)))
      (√(a : ℝ)) := by
  have hlow := Nat.sqrt_le a
  have hhigh := Nat.lt_succ_sqrt a
  generalize Nat.sqrt a = r at hlow hhigh ⊢
  have hroot : (0 : ℝ) ≤ r := Nat.cast_nonneg r
  split
  · next hzero =>
    have hsquare : (a : ℝ) = r * r := by
      exact_mod_cast (show a = r * r by omega)
    change √(a : ℝ) = r
    rw [hsquare, Real.sqrt_mul_self hroot]
  · next hsome =>
    split
    · next hless =>
      have hbelow : (r : ℝ) * r < a := by exact_mod_cast (show r * r < a by omega)
      have habove : (a : ℝ) ≤ r * r + r := by exact_mod_cast (show a ≤ r * r + r by omega)
      exact ⟨Real.lt_sqrt_of_sq_lt (by linarith [sq (r : ℝ)]),
        (Real.sqrt_lt' (by linarith)).mpr (by nlinarith)⟩
    · next hmore =>
      have hbelow : (r : ℝ) * r + r + 1 ≤ a := by exact_mod_cast (show r * r + r + 1 ≤ a by omega)
      have habove : (a : ℝ) < (r + 1) * (r + 1) := by exact_mod_cast hhigh
      exact ⟨Real.lt_sqrt_of_sq_lt (by nlinarith),
        (Real.sqrt_lt' (by linarith)).mpr (by linarith [sq ((r : ℝ) + 1)])⟩

/-- The square root is at least the power of two that is told from the first bit. -/
theorem log_sqrt {m : ℕ} (e : ℤ) (hm : 0 < m) :
    (totalExponent m e + 1).ediv 2 ≤ Int.log 2 √((m : ℝ) * 2 ^ e) + 1 := by
  generalize hhalf : (totalExponent m e + 1).ediv 2 = k
  have hle : 2 * k ≤ m.log2 + e + 2 := by
    change (m.log2 + 1 + e + 1) / 2 = k at hhalf
    omega
  have hlow : (2 : ℝ) ^ (m.log2 : ℤ) ≤ m := by exact_mod_cast Nat.log2_self_le hm.ne'
  have hsquare : ((2 : ℝ) ^ (k - 1)) ^ 2 ≤ m * 2 ^ e :=
    calc ((2 : ℝ) ^ (k - 1)) ^ 2
        = 2 ^ ((k - 1) * 2) := by rw [zpow_mul]; rfl
      _ ≤ 2 ^ ((m.log2 : ℤ) + e) := zpow_le_zpow_right₀ one_le_two (by omega)
      _ = 2 ^ (m.log2 : ℤ) * 2 ^ e := zpow_add₀ two_ne_zero _ _
      _ ≤ m * 2 ^ e := mul_le_mul_of_nonneg_right hlow (by positivity)
  have hroot : (2 : ℝ) ^ (k - 1) ≤ √((m : ℝ) * 2 ^ e) := Real.le_sqrt_of_sq_le hsquare
  have hlog := (Int.zpow_le_iff_le_log one_lt_two (r := √((m : ℝ) * 2 ^ e)) (by positivity)).mp
    (by exact_mod_cast hroot)
  omega

theorem holds_sqrt (h : Holds u .positive v) (htop : v ≠ ⊤) :
    Holds (packed .binary64 (sqrt .binary64 u)) .positive
      (stored .binary64 (.ofReal √v.toReal)) := by
  cases u with
  | notANumber => cases h
  | infinity s => exact absurd h.2 htop
  | zero s =>
    cases h
    rw [ENNReal.toReal_zero, Real.sqrt_zero, ENNReal.ofReal_zero]
    exact holds_packed_zero _ s .positive
  | finite s m e hm =>
    obtain ⟨rfl, rfl⟩ := h
    rw [ENNReal.toReal_ofReal (by positivity)]
    simp only [sqrt, sqrtCore]
    generalize htarget : min (e.ediv 2) (Format.binary64.targetExponent
      ((totalExponent m e + 1).ediv 2)) = target
    have hleft : target ≤ e / 2 := htarget.symm.trans_le (min_le_left _ _)
    have hright := htarget.symm.trans_le (min_le_right _ _)
    refine holds_roundWithAccuracy .positive (by positivity) ?_ ?_
    · have hvalue : √((m : ℝ) * 2 ^ e) / 2 ^ target
          = √((m <<< (e - 2 * target).toNat : ℕ) : ℝ) := by
        have hsquare : (2 : ℝ) ^ target = √(2 ^ (2 * target)) := by
          rw [mul_comm, zpow_mul, zpow_ofNat, Real.sqrt_sq (by positivity)]
        rw [hsquare, ← Real.sqrt_div (by positivity), aligned m (show 2 * target ≤ e by omega),
          mul_div_cancel_right₀ _ (by positivity)]
      rw [hvalue]
      exact represents_sqrt _
    · have hlog := log_sqrt e hm
      refine hright.trans ?_
      rw [exponentOf]
      unfold Format.targetExponent
      omega

end

end ImagePipeline.Floating
