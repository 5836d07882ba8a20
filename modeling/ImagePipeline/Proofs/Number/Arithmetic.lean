import ImagePipeline.Number.Rounding
import ImagePipeline.Proofs.Number.Double
import ImagePipeline.Proofs.Number.Magnitude

/-!
# Arithmetic of doubles

What a double shows is its sign and its magnitude (`Shows`). Comparisons agree with the order of
magnitudes, operations show what is stored of the exact result, and conversions to whole numbers
cut off. So everything that is made of a double by rounding grows with it (`nearest_mono`).
-/

namespace ImagePipeline.Floating

open scoped ENNReal
open Float.Model (Format UnpackedFloat)
open Float.Model.UnpackedFloat

/-! ### Comparing -/

section

variable {f : Format} {u u' : UnpackedFloat} {v w : ℝ≥0∞}

theorem compare_ofReal {a b : ℝ} (ha : 0 ≤ a) (hb : 0 ≤ b) :
    compare (ENNReal.ofReal a) (.ofReal b) = compare a b := by
  rcases lt_trichotomy a b with hlt | rfl | hgt
  · rw [compare_lt_iff_lt.mpr hlt,
      compare_lt_iff_lt.mpr ((ENNReal.ofReal_lt_ofReal_iff_of_nonneg ha).mpr hlt)]
  · rw [compare_eq_iff_eq.mpr rfl, compare_eq_iff_eq.mpr rfl]
  · rw [compare_gt_iff_gt.mpr hgt,
      compare_gt_iff_gt.mpr ((ENNReal.ofReal_lt_ofReal_iff_of_nonneg hb).mpr hgt)]

theorem compare_eq (hu : Canonical f u) (hu' : Canonical f u') (h : Holds u .positive v)
    (h' : Holds u' .positive w) : UnpackedFloat.compare u u' = some (compare v w) := by
  cases u with
  | notANumber => cases h
  | infinity s =>
    obtain ⟨rfl, rfl⟩ := h
    cases u' with
    | notANumber => cases h'
    | infinity t =>
      obtain ⟨rfl, rfl⟩ := h'
      rw [compare_eq_iff_eq.mpr rfl]
      rfl
    | zero t =>
      cases h'
      rw [compare_gt_iff_gt.mpr ENNReal.zero_lt_top]
      rfl
    | finite t n k hn =>
      obtain ⟨rfl, rfl⟩ := h'
      rw [compare_gt_iff_gt.mpr ENNReal.ofReal_lt_top]
      rfl
  | zero s =>
    cases h
    cases u' with
    | notANumber => cases h'
    | infinity t =>
      obtain ⟨rfl, rfl⟩ := h'
      rw [compare_lt_iff_lt.mpr ENNReal.zero_lt_top]
      rfl
    | zero t =>
      cases h'
      rw [compare_eq_iff_eq.mpr rfl]
      rfl
    | finite t n k hn =>
      obtain ⟨rfl, rfl⟩ := h'
      rw [compare_lt_iff_lt.mpr (ENNReal.ofReal_pos.mpr (by positivity))]
      rfl
  | finite s m e hm =>
    obtain ⟨rfl, rfl⟩ := h
    cases u' with
    | notANumber => cases h'
    | infinity t =>
      obtain ⟨rfl, rfl⟩ := h'
      rw [compare_lt_iff_lt.mpr ENNReal.ofReal_lt_top]
      rfl
    | zero t =>
      cases h'
      rw [compare_gt_iff_gt.mpr (ENNReal.ofReal_pos.mpr (by positivity))]
      rfl
    | finite t n k hn =>
      obtain ⟨rfl, rfl⟩ := h'
      rw [compare_ofReal (by positivity) (by positivity), ← compare_then_eq hu hu']
      rfl

theorem unpacked_le_iff (hu : Canonical f u) (hu' : Canonical f u') (h : Holds u .positive v)
    (h' : Holds u' .positive w) : UnpackedFloat.le u u' = true ↔ v ≤ w := by
  rw [UnpackedFloat.le, compare_eq hu hu' h h', Option.any_some, Ordering.isLE_iff_ne_gt]
  exact compare_le_iff_le

theorem unpacked_lt_iff (hu : Canonical f u) (hu' : Canonical f u') (h : Holds u .positive v)
    (h' : Holds u' .positive w) : UnpackedFloat.lt u u' = true ↔ v < w := by
  rw [UnpackedFloat.lt, compare_eq hu hu' h h', beq_iff_eq, Option.some_inj]
  exact compare_lt_iff_lt

/-- What is not positive comes before what is not negative. -/
theorem unpacked_le_of_negative (h : Holds u .negative v) (h' : Holds u' .positive w) :
    UnpackedFloat.le u u' = true := by
  cases u with
  | notANumber => cases h
  | infinity s =>
    cases h.1
    cases u' with
    | notANumber => cases h'
    | infinity t =>
      cases h'.1
      rfl
    | zero t => rfl
    | finite t n k hn => rfl
  | zero s =>
    cases u' with
    | notANumber => cases h'
    | infinity t =>
      cases h'.1
      rfl
    | zero t => rfl
    | finite t n k hn =>
      cases h'.1
      rfl
  | finite s m e hm =>
    cases h.1
    cases u' with
    | notANumber => cases h'
    | infinity t =>
      cases h'.1
      rfl
    | zero t => rfl
    | finite t n k hn =>
      cases h'.1
      rfl

end

/-! ### Doubles -/

def Shows (x : Float) (s : Sign) (v : ℝ≥0∞) : Prop := Holds x.toModel.unpack s v

theorem canonical_double (x : Float) : Canonical .binary64 x.toModel.unpack :=
  canonical_unpack .binary64 _

section

variable {x y : Float} {s t : Sign} {v w : ℝ≥0∞}

theorem le_iff (hx : Shows x .positive v) (hy : Shows y .positive w) : x ≤ y ↔ v ≤ w := by
  rw [Double.le_iff]
  exact unpacked_le_iff (canonical_double x) (canonical_double y) hx hy

theorem lt_iff (hx : Shows x .positive v) (hy : Shows y .positive w) : x < y ↔ v < w := by
  rw [Double.lt_iff]
  exact unpacked_lt_iff (canonical_double x) (canonical_double y) hx hy

theorem le_of_negative (hx : Shows x .negative v) (hy : Shows y .positive w) : x ≤ y := by
  rw [Double.le_iff]
  exact unpacked_le_of_negative hx hy

theorem shows_zero : Shows 0 .positive 0 := rfl

theorem Holds.isNaN {u : UnpackedFloat} (h : Holds u s v) : UnpackedFloat.isNaN u = false := by
  cases u with
  | notANumber => cases h
  | infinity | zero | finite => rfl

theorem Shows.isNaN (hx : Shows x s v) : x.isNaN = false := Holds.isNaN hx

theorem exists_of_nonneg (h : 0 ≤ x) : ∃ v, Shows x .positive v := by
  rw [Double.le_iff] at h
  have hzero : (0 : Float).toModel.unpack = .zero .positive := rfl
  rw [hzero] at h
  unfold Shows
  cases hu : x.toModel.unpack with
  | notANumber =>
    rw [hu] at h
    cases h
  | infinity s =>
    rw [hu] at h
    cases s with
    | negative => cases h
    | positive => exact ⟨⊤, rfl, rfl⟩
  | zero s => exact ⟨0, rfl⟩
  | finite s m e hm =>
    rw [hu] at h
    cases s with
    | negative => cases h
    | positive => exact ⟨.ofReal (m * 2 ^ e), rfl, rfl⟩

theorem exists_of_nonpos (h : x ≤ 0) : ∃ v, Shows x .negative v := by
  rw [Double.le_iff] at h
  have hzero : (0 : Float).toModel.unpack = .zero .positive := rfl
  rw [hzero] at h
  unfold Shows
  cases hu : x.toModel.unpack with
  | notANumber =>
    rw [hu] at h
    cases h
  | infinity s =>
    rw [hu] at h
    cases s with
    | negative => exact ⟨⊤, rfl, rfl⟩
    | positive => cases h
  | zero s => exact ⟨0, rfl⟩
  | finite s m e hm =>
    rw [hu] at h
    cases s with
    | negative => exact ⟨.ofReal (m * 2 ^ e), rfl, rfl⟩
    | positive => cases h

/-- A double that is a number and not zero or less has a positive magnitude. -/
theorem exists_of_not_nonpos (hnumber : x.isNaN = false) (h : ¬ x ≤ 0) :
    ∃ v, v ≠ 0 ∧ Shows x .positive v := by
  rw [Double.le_iff] at h
  have hzero : (0 : Float).toModel.unpack = .zero .positive := rfl
  rw [hzero] at h
  change UnpackedFloat.isNaN x.toModel.unpack = false at hnumber
  unfold Shows
  cases hu : x.toModel.unpack with
  | notANumber =>
    rw [hu] at hnumber
    cases hnumber
  | infinity s =>
    rw [hu] at h
    cases s with
    | negative => exact absurd rfl h
    | positive => exact ⟨⊤, ENNReal.top_ne_zero, rfl, rfl⟩
  | zero s =>
    rw [hu] at h
    cases s <;> exact absurd rfl h
  | finite s m e hm =>
    rw [hu] at h
    cases s with
    | negative => exact absurd rfl h
    | positive =>
      exact ⟨.ofReal (m * 2 ^ e), (ENNReal.ofReal_pos.mpr (by positivity)).ne', rfl, rfl⟩

/-! ### Operations -/

theorem shows_mul (hx : Shows x s v) (hy : Shows y t w) (hleft : v ≠ 0 ∨ w ≠ ⊤)
    (hright : v ≠ ⊤ ∨ w ≠ 0) : Shows (x * y) (s * t) (stored .binary64 (v * w)) :=
  holds_mul (canonical_double x) (canonical_double y) hx hy hleft hright

theorem shows_div (hx : Shows x s v) (hy : Shows y t w) (hzero : w ≠ 0) (htop : v ≠ ⊤ ∨ w ≠ ⊤) :
    Shows (x / y) (s / t) (stored .binary64 (v / w)) :=
  holds_div hx hy hzero htop

theorem shows_add (hx : Shows x .positive v) (hy : Shows y .positive w) :
    Shows (x + y) .positive (stored .binary64 (v + w)) :=
  holds_add (canonical_double x) (canonical_double y) hx hy

theorem shows_sub (hx : Shows x .positive v) (hy : Shows y .positive w) (htop : v ≠ ⊤ ∨ w ≠ ⊤)
    (hle : w ≤ v) : Shows (x - y) .positive (stored .binary64 (v - w)) :=
  (holds_sub (canonical_double x) (canonical_double y) hx hy htop).1 hle

theorem shows_sub_negative (hx : Shows x .positive v) (hy : Shows y .positive w)
    (htop : v ≠ ⊤ ∨ w ≠ ⊤) (hle : v ≤ w) :
    Shows (x - y) .negative (stored .binary64 (w - v)) :=
  (holds_sub (canonical_double x) (canonical_double y) hx hy htop).2 hle

theorem shows_sqrt (hx : Shows x .positive v) (htop : v ≠ ⊤) :
    Shows x.sqrt .positive (stored .binary64 (.ofReal √v.toReal)) :=
  holds_sqrt hx htop

theorem Shows.stored_eq (hx : Shows x s v) : stored .binary64 v = v := Holds.stored_eq bias_pos hx

/-- The largest double below 1 is so far away from it. -/
theorem Shows.add_le_one (hx : Shows x s v) (h : v < 1) : v + .ofReal (2 ^ (-53 : ℤ)) ≤ 1 := by
  have hcanonical := canonical_double x
  unfold Shows at hx
  cases hu : x.toModel.unpack with
  | notANumber =>
    rw [hu] at hx
    cases hx
  | infinity s' =>
    rw [hu] at hx
    obtain ⟨-, rfl⟩ := hx
    exact absurd h not_top_lt
  | zero s' =>
    rw [hu] at hx
    cases hx
    rw [zero_add, ENNReal.ofReal_le_one]
    exact zpow_le_one_of_nonpos₀ one_le_two (by decide)
  | finite s' m e hm =>
    rw [hu] at hx hcanonical
    obtain ⟨-, rfl⟩ := hx
    obtain ⟨hbits, hleast, hfull⟩ := hcanonical
    rw [ENNReal.ofReal_lt_one] at h
    have hexponent : e ≤ -53 := by
      rcases hfull with hfull | rfl
      · by_contra hlarge
        have hpow : (2 : ℝ) ^ (-52 : ℤ) ≤ 2 ^ e := zpow_le_zpow_right₀ one_le_two (by omega)
        have hbelow : (2 : ℝ) ^ 52 * 2 ^ (-52 : ℤ) ≤ m * 2 ^ e :=
          mul_le_mul (by exact_mod_cast hfull) hpow (by positivity) (by positivity)
        norm_num [zpow_neg] at hbelow
        linarith
      · decide
    have hpow : (2 : ℝ) ^ e ≤ 2 ^ (-53 : ℤ) := zpow_le_zpow_right₀ one_le_two hexponent
    have hmantissa : (m : ℝ) + 1 ≤ 2 ^ 53 := by exact_mod_cast hbits
    rw [← ENNReal.ofReal_add (by positivity) (by positivity), ENNReal.ofReal_le_one]
    calc (m : ℝ) * 2 ^ e + 2 ^ (-53 : ℤ)
        ≤ m * 2 ^ (-53 : ℤ) + 2 ^ (-53 : ℤ) := by gcongr
      _ = (m + 1) * 2 ^ (-53 : ℤ) := by ring
      _ ≤ 2 ^ 53 * 2 ^ (-53 : ℤ) := by gcongr
      _ = 1 := by norm_num [zpow_neg]

theorem shows_neg (hx : Shows x s v) : Shows (-x) (-s) v := by
  rw [← hx.stored_eq]
  exact holds_packed_self bias_pos (canonical_neg (canonical_double x)) (holds_neg hx)

/-! ### Whole numbers -/

theorem shows_ofNat (n : ℕ) :
    Shows (.ofModel (.pack (UnpackedFloat.ofNat .binary64 n))) .positive
      (stored .binary64 n) := by
  rcases Nat.eq_zero_or_pos n with rfl | hpos
  · rw [Nat.cast_zero]
    exact holds_normalize_zero .positive 0
  · have hvalue : ENNReal.ofReal ((n : ℝ) * 2 ^ (0 : ℤ)) = n := by
      rw [zpow_zero, mul_one, ENNReal.ofReal_natCast]
    rw [← hvalue]
    exact holds_normalize_pos hpos 0

theorem stored_natCast_mul {m n : ℕ} (hm : m < 2 ^ 53) (hn : n ≤ 971) :
    stored .binary64 (m * 2 ^ n) = m * 2 ^ n := by
  have hvalue : ENNReal.ofReal ((m : ℝ) * 2 ^ (n : ℤ)) = m * 2 ^ n := by
    rw [zpow_natCast, ENNReal.ofReal_mul m.cast_nonneg, ENNReal.ofReal_natCast,
      ENNReal.ofReal_pow zero_le_two, ENNReal.ofReal_ofNat]
  have hgrid : OnGrid .binary64 ((m : ℝ) * 2 ^ (n : ℤ)) :=
    ⟨m, n, hm, le_trans (by decide) (Int.natCast_nonneg n), rfl⟩
  have hlimit : (m : ℝ) * 2 ^ (n : ℤ) < limit .binary64 :=
    calc (m : ℝ) * 2 ^ (n : ℤ)
        < 2 ^ (53 : ℤ) * 2 ^ (n : ℤ) :=
          mul_lt_mul_of_pos_right (by exact_mod_cast hm) (by positivity)
      _ = 2 ^ (53 + n : ℤ) := (zpow_add₀ two_ne_zero _ _).symm
      _ ≤ limit .binary64 := by
          refine zpow_le_zpow_right₀ one_le_two ?_
          change (53 : ℤ) + n ≤ 1024
          omega
  rw [← hvalue]
  exact stored_of_onGrid (by positivity) hgrid hlimit

theorem stored_two_pow {n : ℕ} (hn : n ≤ 971) : stored .binary64 (2 ^ n) = 2 ^ n := by
  have hstored := stored_natCast_mul (m := 1) (by decide) hn
  rwa [Nat.cast_one, one_mul] at hstored

theorem stored_natCast {n : ℕ} (hn : n < 2 ^ 53) : stored .binary64 n = n := by
  have hstored := stored_natCast_mul (n := 0) hn (by omega)
  rwa [pow_zero, mul_one] at hstored

/-- The powers of two down to the least double. -/
theorem stored_two_zpow {k : ℤ} (hlow : -1074 ≤ k) (hhigh : k ≤ 1023) :
    stored .binary64 (.ofReal (2 ^ k)) = .ofReal (2 ^ k) := by
  refine stored_of_onGrid (by positivity) ⟨1, k, by decide, hlow, by rw [Nat.cast_one, one_mul]⟩ ?_
  refine zpow_lt_zpow_right₀ one_lt_two ?_
  change k < 1024
  omega

/-- The whole part of a magnitude as a 64-bit number, the largest one if it is too large. -/
noncomputable def wholePart (v : ℝ≥0∞) : ℕ :=
  if v = ⊤ then 2 ^ 64 - 1 else min ⌊v.toReal⌋₊ (2 ^ 64 - 1)

theorem wholePart_mono (h : v ≤ w) : wholePart v ≤ wholePart w := by
  unfold wholePart
  by_cases hw : w = ⊤
  · rw [if_pos hw]
    split
    · exact le_rfl
    · exact min_le_right _ _
  · rw [if_neg hw, if_neg (ne_top_of_le_ne_top hw h)]
    exact min_le_min_right _ (Nat.floor_mono (ENNReal.toReal_mono hw h))

theorem wholePart_le {n : ℕ} (h : v ≤ n) : wholePart v ≤ n := by
  have htop : v ≠ ⊤ := ne_top_of_le_ne_top (ENNReal.natCast_ne_top n) h
  have hreal : v.toReal ≤ n := ENNReal.toReal_le_of_le_ofReal n.cast_nonneg
    (by rwa [ENNReal.ofReal_natCast])
  rw [wholePart, if_neg htop]
  exact (min_le_left _ _).trans (Nat.floor_le_of_le hreal)

theorem floor_value (m : ℕ) (e : ℤ) :
    ⌊(m : ℝ) * 2 ^ e⌋₊ = m <<< e.toNat / 2 ^ (-e).toNat := by
  have hvalue : (m : ℝ) * 2 ^ e
      = ((m <<< e.toNat : ℕ) : ℝ) / ((2 ^ (-e).toNat : ℕ) : ℝ) := by
    rw [Nat.shiftLeft_eq]
    push_cast
    rw [mul_div_assoc, ← zpow_natCast, ← zpow_natCast, ← zpow_sub₀ two_ne_zero]
    congr 2
    omega
  rw [hvalue, Nat.floor_div_eq_div]

theorem toNat_toUInt64 (hx : Shows x .positive v) : x.toUInt64.toNat = wholePart v := by
  change (UInt64.ofNatClamp (x.toModel.unpack.toInt 0 (UInt64.size - 1)).toNat).toNat = _
  rw [toNat_ofNatClamp]
  unfold Shows at hx
  unfold wholePart
  cases hu : x.toModel.unpack with
  | notANumber =>
    rw [hu] at hx
    cases hx
  | infinity s =>
    rw [hu] at hx
    obtain ⟨rfl, rfl⟩ := hx
    rw [if_pos rfl]
    rfl
  | zero s =>
    rw [hu] at hx
    cases hx
    rw [if_neg ENNReal.zero_ne_top, ENNReal.toReal_zero, Nat.floor_zero]
    rfl
  | finite s m e hm =>
    rw [hu] at hx
    obtain ⟨rfl, rfl⟩ := hx
    rw [if_neg ENNReal.ofReal_ne_top, ENNReal.toReal_ofReal (by positivity), floor_value]
    simp only [toInt, roundToInt_eq, Int.toNat_natCast]

/-! ### Rounding to whole numbers -/

theorem shows_half : Shows 0.5 .positive (.ofReal (1 / 2)) := by
  have hhalf : (0.5 : Float).toModel.unpack = .finite .positive (2 ^ 52) (-53) (by decide) := rfl
  unfold Shows
  rw [hhalf]
  refine ⟨rfl, ?_⟩
  norm_num [zpow_neg]

theorem shows_uint64 (n : UInt64) : Shows n.toFloat .positive (stored .binary64 n.toNat) :=
  shows_ofNat n.toNat

theorem shows_uint32 (n : UInt32) : Shows n.toFloat .positive n.toNat := by
  have hlt := n.toNat_lt
  have hstored := stored_natCast (n := n.toNat) (by omega)
  rw [← hstored]
  exact shows_ofNat n.toNat

/-- A larger double is not rounded to a smaller number. -/
theorem nearest_mono (hx : Shows x .positive v) (hy : Shows y .positive w) (h : v ≤ w) :
    Number.nearest x ≤ Number.nearest y := by
  have hwholeX := toNat_toUInt64 hx
  have hwholeY := toNat_toUInt64 hy
  have hmono := wholePart_mono h
  have hboundX := x.toUInt64.toNat_lt
  have hboundY := y.toUInt64.toNat_lt
  unfold Number.nearest Number.maxUInt64
  rcases hmono.lt_or_eq with hlt | heq
  · dsimp only
    split
    · split <;> omega
    · split <;> omega
  · have hsame : x.toUInt64 = y.toUInt64 := by
      apply UInt64.toNat_inj.mp
      omega
    rw [hsame]
    by_cases hhalf : x - y.toUInt64.toFloat ≥ 0.5
    · have hup : y - y.toUInt64.toFloat ≥ 0.5 := by
        have hbelow := (lt_iff (shows_uint64 _) hx).mp (Double.lt_of_half_le_sub hhalf)
        have hshown := shows_sub hx (shows_uint64 _) (.inr hbelow.ne_top) hbelow.le
        have hshown' := shows_sub hy (shows_uint64 _) (.inr hbelow.ne_top) (hbelow.le.trans h)
        have hle := (le_iff shows_half hshown).mp hhalf
        exact (le_iff shows_half hshown').mpr (hle.trans (stored_mono (tsub_le_tsub_right h _)))
      simp only [hhalf, hup, if_true]
      exact le_rfl
    · simp only [hhalf, if_false]
      split <;> omega

end

end ImagePipeline.Floating
