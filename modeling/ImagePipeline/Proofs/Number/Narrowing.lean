import ImagePipeline.Number.Conversion
import ImagePipeline.Proofs.Number.Arithmetic

/-!
# Conversions, and what is not a number

Whole numbers become doubles (`shows_literal`, `shows_ofInt64`), and doubles become single-precision
numbers (`shows_toSingle`): the magnitude is stored in the new format and the sign stays. What is
not a number goes through every operation, and zero over zero is where it comes from.
-/

namespace ImagePipeline.Floating

open scoped ENNReal
open Float.Model (Format UnpackedFloat)
open Float.Model.UnpackedFloat

variable {x y : Float} {s t : Sign} {v w : ℝ≥0∞}

/-! ### Whole numbers -/

theorem shows_of_unpack {m : ℕ} {e : ℤ} {hm : 0 < m} {a : ℝ}
    (h : x.toModel.unpack = .finite s m e hm) (ha : (m : ℝ) * 2 ^ e = a) :
    Shows x s (.ofReal a) := by
  unfold Shows
  rw [h, ← ha]
  exact ⟨rfl, rfl⟩

theorem shows_one : Shows 1 .positive 1 := by
  have hone : (1 : Float).toModel.unpack = .finite .positive (2 ^ 52) (-52) (by decide) := rfl
  rw [← ENNReal.ofReal_one]
  exact shows_of_unpack hone (by norm_num [zpow_neg])

/-- A literal that is exact stands for its number. -/
theorem shows_literal (n : ℕ) [n.AtLeastTwo] (hn : n < 2 ^ 53) :
    Shows (no_index (OfNat.ofNat n)) .positive (OfNat.ofNat n) := by
  have hliteral : (OfNat.ofNat n : Float) = n.toUInt64.toFloat * 1 := by
    change Float.ofScientific n false 0 = _
    unfold Float.ofScientific
    rw [dif_pos ⟨hn, by decide⟩]
    rfl
  have hwhole : n.toUInt64.toNat = n := by
    rw [Nat.toUInt64, UInt64.toNat_ofNat', Nat.mod_eq_of_lt (by omega)]
  have hshown : Shows n.toUInt64.toFloat .positive n := by
    have hnumber := shows_uint64 n.toUInt64
    rwa [hwhole, stored_natCast hn] at hnumber
  have hproduct := shows_mul hshown shows_one (.inr ENNReal.one_ne_top) (.inr one_ne_zero)
  rw [mul_one, stored_natCast hn] at hproduct
  rw [hliteral, ← Nat.cast_ofNat]
  exact hproduct

theorem shows_ofInt64 {n : Int64} {k : ℕ} (h : n.toInt = k) :
    Shows (Number.ofInt64 n) .positive (stored .binary64 k) := by
  have hmodel : Number.ofInt64 n = .ofModel (.pack (UnpackedFloat.ofNat .binary64 k)) := by
    change Float.ofModel (.pack (UnpackedFloat.ofInt .binary64 n.toInt)) = _
    rw [h]
    rfl
  rw [hmodel]
  exact shows_ofNat k

theorem shows_ofInt64_negative {n : Int64} {k : ℕ} (h : n.toInt = -k) :
    Shows (Number.ofInt64 n) .negative (stored .binary64 k) := by
  change Holds (packed .binary64 (UnpackedFloat.normalize .binary64 n.toInt 0 .positive)) _ _
  rw [h]
  rcases Nat.eq_zero_or_pos k with rfl | hpos
  · rw [Nat.cast_zero, Nat.cast_zero, neg_zero]
    exact holds_normalize_zero .negative 0
  · have hvalue : ENNReal.ofReal ((k : ℝ) * 2 ^ (0 : ℤ)) = k := by
      rw [zpow_zero, mul_one, ENNReal.ofReal_natCast]
    rw [← hvalue]
    exact holds_normalize_neg hpos 0

/-! ### Not a number -/

theorem unpack_of_isNaN (h : x.isNaN = true) : x.toModel.unpack = .notANumber := by
  change UnpackedFloat.isNaN x.toModel.unpack = true at h
  cases hu : x.toModel.unpack with
  | notANumber => rfl
  | infinity | zero | finite =>
    rw [hu] at h
    cases h

theorem isNaN_of_le (h : x ≤ y) : x.isNaN = false := by
  rw [Double.le_iff] at h
  change UnpackedFloat.isNaN x.toModel.unpack = false
  cases hu : x.toModel.unpack with
  | notANumber =>
    rw [hu] at h
    cases h
  | infinity | zero | finite => rfl

theorem isNaN_packed : UnpackedFloat.isNaN (packed .binary64 .notANumber) = true := rfl

theorem isNaN_add_left (h : x.isNaN = true) : (x + y).isNaN = true := by
  have hsum : add .binary64 x.toModel.unpack y.toModel.unpack = .notANumber := by
    rw [unpack_of_isNaN h]
    rfl
  change UnpackedFloat.isNaN (packed .binary64 (add .binary64 _ _)) = true
  rw [hsum, isNaN_packed]

theorem isNaN_add_right (h : y.isNaN = true) : (x + y).isNaN = true := by
  have hsum : add .binary64 x.toModel.unpack y.toModel.unpack = .notANumber := by
    rw [unpack_of_isNaN h]
    cases x.toModel.unpack with
    | notANumber | infinity | zero | finite => rfl
  change UnpackedFloat.isNaN (packed .binary64 (add .binary64 _ _)) = true
  rw [hsum, isNaN_packed]

theorem isNaN_div_right (h : y.isNaN = true) : (x / y).isNaN = true := by
  have hquotient : div .binary64 x.toModel.unpack y.toModel.unpack = .notANumber := by
    rw [unpack_of_isNaN h]
    cases x.toModel.unpack with
    | notANumber | infinity | zero | finite => rfl
  change UnpackedFloat.isNaN (packed .binary64 (div .binary64 _ _)) = true
  rw [hquotient, isNaN_packed]

theorem unpack_zero (h : Shows x s 0) : ∃ t, x.toModel.unpack = .zero t := by
  unfold Shows at h
  cases hu : x.toModel.unpack with
  | notANumber =>
    rw [hu] at h
    cases h
  | infinity t =>
    rw [hu] at h
    exact absurd h.2 ENNReal.zero_ne_top
  | zero t => exact ⟨t, rfl⟩
  | finite t m e hm =>
    rw [hu] at h
    have hpos : (0 : ℝ) < m * 2 ^ e := by positivity
    exact absurd h.2.symm (ENNReal.ofReal_pos.mpr hpos).ne'

theorem isNaN_zero_div_zero (hx : Shows x s 0) (hy : Shows y t 0) : (x / y).isNaN = true := by
  have hquotient : div .binary64 x.toModel.unpack y.toModel.unpack = .notANumber := by
    obtain ⟨s', hx⟩ := unpack_zero hx
    obtain ⟨t', hy⟩ := unpack_zero hy
    rw [hx, hy]
    rfl
  change UnpackedFloat.isNaN (packed .binary64 (div .binary64 _ _)) = true
  rw [hquotient, isNaN_packed]

/-- A zero counts as positive and as negative. -/
theorem Shows.of_zero (h : Shows x s 0) : Shows x t 0 := by
  obtain ⟨t', hx⟩ := unpack_zero h
  unfold Shows
  rw [hx]
  rfl

/-! ### Single-precision numbers -/

def ShowsSingle (x : Float32) (s : Sign) (v : ℝ≥0∞) : Prop := Holds x.toModel.unpack s v

theorem single_bias_pos : 0 < Format.binary32.exponentBias := by decide

theorem shows_toSingle (h : Shows x s v) :
    ShowsSingle (Number.toSingle x) s (stored .binary32 v) := by
  unfold Shows at h
  unfold Number.toSingle
  cases hu : x.toModel.unpack with
  | notANumber =>
    rw [hu] at h
    cases h
  | infinity t =>
    rw [hu] at h
    obtain ⟨rfl, rfl⟩ := h
    exact holds_packed_infinity .binary32 t
  | zero t =>
    rw [hu] at h
    cases h
    exact holds_packed_zero .binary32 t s
  | finite t m e hm =>
    rw [hu] at h
    obtain ⟨rfl, rfl⟩ := h
    obtain ⟨hcanonical, hdenotes⟩ := denotes_round .binary32 t hm e
    exact holds_packed single_bias_pos hcanonical (by positivity) hdenotes

theorem isNaN_toSingle (h : x.isNaN = true) : (Number.toSingle x).isNaN = true := by
  unfold Number.toSingle
  rw [unpack_of_isNaN h]
  rfl

theorem ShowsSingle.isNaN {x : Float32} (h : ShowsSingle x s v) : x.isNaN = false :=
  Holds.isNaN h

theorem ShowsSingle.stored_eq {x : Float32} (h : ShowsSingle x s v) : stored .binary32 v = v :=
  Holds.stored_eq single_bias_pos h

theorem showsSingle_zero : ShowsSingle 0 .positive 0 := rfl

theorem showsSingle_one : ShowsSingle 1 .positive 1 := by
  have hone : (1 : Float32).toModel.unpack = .finite .positive (2 ^ 23) (-23) (by decide) := rfl
  unfold ShowsSingle
  rw [hone, ← ENNReal.ofReal_one]
  exact ⟨rfl, by norm_num [zpow_neg]⟩

theorem single_le_iff {x y : Float32} (hx : ShowsSingle x .positive v)
    (hy : ShowsSingle y .positive w) : x ≤ y ↔ v ≤ w := by
  rw [← unpacked_le_iff (canonical_unpack .binary32 _) (canonical_unpack .binary32 _) hx hy]
  change decide (x.toModel ≤ y.toModel) = true ↔ _
  exact decide_eq_true_iff

end ImagePipeline.Floating
