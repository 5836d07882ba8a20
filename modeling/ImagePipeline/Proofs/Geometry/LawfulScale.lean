import Mathlib.Tactic.FieldSimp
import Mathlib.Tactic.Linarith
import Mathlib.Algebra.Order.Field.Rat
import Mathlib.Data.Rat.Cast.Order
import ImagePipeline.Geometry.Scale
import ImagePipeline.Geometry.Shape

/-!
# Lawful scale factors

What has to hold of the rounding in a reading of scale factors so that canvases come out with
pixels and within their bounds (`LawfulScale`), so that an image that is made to cover a box covers
it on both sides (`CoveringScale`), and so that there is one way only to read a side
(`FiniteScale`). Exact fractions round lawfully.
-/

namespace ImagePipeline

/-- A reading of scale factors whose roundings keep what planning relies on. -/
class LawfulScale (σ : Type) [Scale σ] : Prop where
  isPositive_ofRatio {a b : Nat} : 0 < a → 0 < b → a < 2 ^ 32 → b < 2 ^ 32 →
    Scale.isPositive (Scale.ofRatio ((a : Rat) / (b : Rat)) : σ) = true
  one_le_side (x : σ) (n : UInt32) : 1 ≤ (Scale.side x n).toNat
  side_le_cover (x : σ) (n : UInt32) : (Scale.side x n).toNat ≤ Scale.cover x n
  le_side_ofRatio (target source : UInt32) : source ≠ 0 →
    target.toNat ≤ (Scale.side (Scale.ofRatio (Scale.ratio target source) : σ) source).toNat

/-- No larger factor than the ratio to a side makes a shorter side of it. -/
class CoveringScale (σ : Type) [Scale σ] : Prop where
  le_side {target source a b : UInt32} : source ≠ 0 → b ≠ 0 →
    Scale.ratio target source ≤ Scale.ratio a b →
      target.toNat ≤ (Scale.side (Scale.ofRatio (Scale.ratio a b) : σ) source).toNat

/-- No product of a factor and a side is beyond all numbers. -/
class FiniteScale (σ : Type) [Scale σ] : Prop where
  saturating_eq (x : σ) (n : UInt32) : Scale.saturating x n = Scale.side x n

/-! ### Numbers pressed into the range of sides -/

namespace Number

theorem toNat_le_maxUInt32 (n : UInt32) : n.toNat ≤ maxUInt32 := Nat.le_of_lt_succ n.toNat_lt

theorem le_toNat_clampSide {n : UInt32} {m : Nat} (h : n.toNat ≤ m) :
    n.toNat ≤ (clampSide m).toNat := by
  have hmax := toNat_le_maxUInt32 n
  rw [toNat_clampSide]
  omega

theorem pos_of_ne_zero {n : UInt32} (h : n ≠ 0) : 0 < n.toNat :=
  Nat.pos_of_ne_zero fun hzero => h (UInt32.toNat_inj.mp hzero)

end Number

/-! ### Shapes with pixels -/

/-- A shape with pixels. -/
structure Shape.Pixelled (shape : Shape) : Prop where
  width_ne : shape.width ≠ 0
  height_ne : shape.height ≠ 0

theorem Shape.pixelled_of_one_le {shape : Shape}
    (h : 1 ≤ shape.width.toNat ∧ 1 ≤ shape.height.toNat) : shape.Pixelled := by
  constructor
  · intro hzero
    rw [hzero] at h
    exact absurd h.1 (by decide)
  · intro hzero
    rw [hzero] at h
    exact absurd h.2 (by decide)

theorem Shape.Pixelled.isEmpty_eq {shape : Shape} (h : shape.Pixelled) : shape.isEmpty = false := by
  simp only [isEmpty, h.width_ne, h.height_ne, decide_false, Bool.or_self]

/-! ### Exact fractions -/

namespace Scale

theorem le_roundRat {x : Rat} {n : Nat} (h : (n : Rat) - 1 / 2 ≤ x) : n ≤ roundRat x := by
  have hfloor : (n : Int) ≤ (x + 1 / 2).floor := by
    rw [Rat.le_floor_iff]
    push_cast
    linarith
  unfold roundRat
  omega

theorem roundRat_le {x : Rat} {n : Nat} (h : x < (n : Rat) + 1 / 2) : roundRat x ≤ n := by
  have hfloor : (x + 1 / 2).floor < (n : Int) + 1 := by
    rw [Rat.floor_lt_iff]
    push_cast
    linarith
  unfold roundRat
  omega

theorem roundRat_natCast (n : Nat) : roundRat (n : Rat) = n :=
  Nat.le_antisymm (roundRat_le (by linarith)) (le_roundRat (by linarith))

theorem roundRat_mono {x y : Rat} (h : x ≤ y) : roundRat x ≤ roundRat y :=
  Int.toNat_le_toNat (Rat.floor_monotone (by linarith))

theorem roundRat_le_ceil (x : Rat) : roundRat x ≤ x.ceil.toNat := by
  refine roundRat_le ?_
  have hceil : x ≤ (x.ceil : Rat) := Rat.le_ceil
  have htoNat : (x.ceil : Rat) ≤ ((x.ceil.toNat : Int) : Rat) := by
    exact_mod_cast Int.self_le_toNat x.ceil
  push_cast at htoNat
  linarith

theorem product_ratio {target source : UInt32} (h : source ≠ 0) :
    product (ratio target source) source = (target.toNat : Rat) := by
  have hpos : (source.toNat : Rat) ≠ 0 := by
    exact_mod_cast (Number.pos_of_ne_zero h).ne'
  unfold product ratio
  field_simp

/-- A factor that is no smaller than the ratio to a side makes a product that is no smaller. -/
theorem le_product_of_ratio_le {target source : UInt32} {r : Rat} (h : source ≠ 0)
    (hle : ratio target source ≤ r) : (target.toNat : Rat) ≤ product r source := by
  have hself : product (ratio target source) source = target.toNat := product_ratio h
  rw [← hself]
  exact mul_le_mul_of_nonneg_left hle (Nat.cast_nonneg _)

theorem le_larger_left (a b : Rat) : a ≤ larger a b := by
  unfold larger
  split
  · assumption
  · exact le_refl a

theorem le_larger_right (a b : Rat) : b ≤ larger a b := by
  unfold larger
  split
  · exact le_refl b
  · rename_i h
    exact (lt_of_not_ge h).le

theorem ratio_self {n : UInt32} (h : n ≠ 0) : ratio n n = 1 := by
  have hne : (n.toNat : Rat) ≠ 0 := by
    exact_mod_cast (Number.pos_of_ne_zero h).ne'
  exact div_self hne

end Scale

instance : LawfulScale Rat where
  isPositive_ofRatio := by
    intro a b ha hb _ _
    have ha' : (0 : Rat) < a := by exact_mod_cast ha
    have hb' : (0 : Rat) < b := by exact_mod_cast hb
    exact decide_eq_true (div_pos ha' hb')
  one_le_side _ _ := Number.one_le_clampSide _
  side_le_cover := by
    intro r n
    have hceil := Scale.roundRat_le_ceil (Scale.product r n)
    have hclamp := Number.toNat_clampSide (Scale.roundRat (Scale.product r n))
    change (Number.clampSide (Scale.roundRat (Scale.product r n))).toNat
      ≤ max 1 (Scale.product r n).ceil.toNat
    omega
  le_side_ofRatio := by
    intro target source h
    change _ ≤ (Number.clampSide
      (Scale.roundRat (Scale.product (Scale.ratio target source) source))).toNat
    rw [Scale.product_ratio h, Scale.roundRat_natCast]
    exact Number.le_toNat_clampSide (Nat.le_refl _)

instance : CoveringScale Rat where
  le_side := by
    intro target source a b hsource _ hle
    have hproduct := Scale.le_product_of_ratio_le hsource hle
    refine Number.le_toNat_clampSide (Scale.le_roundRat ?_)
    change (target.toNat : Rat) - 1 / 2 ≤ Scale.product (Scale.ratio a b) source
    linarith

instance : FiniteScale Rat where
  saturating_eq _ _ := rfl

end ImagePipeline
