import ImagePipeline.Proofs.Geometry.Scaling

/-!
# Shapes beside their boxes

A factor leaves a shape inside a box or around it, and makes one of its sides (`encloses_smaller`,
`coveredBy_larger`, `leads_coalesced`).
-/

namespace ImagePipeline

/-! ### Sides in proportion -/

namespace Scale

theorem roundRat_div (a : Nat) {b : Nat} (hb : 0 < b) :
    roundRat ((a : Rat) / (b : Rat)) = (2 * a + b) / (2 * b) := by
  have hb' : (0 : Rat) < b := by exact_mod_cast hb
  have hlow : 2 * b * ((2 * a + b) / (2 * b)) ≤ 2 * a + b := Nat.mul_div_le _ _
  have hhigh : 2 * a + b < 2 * b * ((2 * a + b) / (2 * b) + 1) :=
    Nat.lt_mul_div_succ _ (Nat.mul_pos Nat.two_pos hb)
  generalize (2 * a + b) / (2 * b) = q at hlow hhigh
  have hlow' : (2 : Rat) * b * q ≤ 2 * a + b := by exact_mod_cast hlow
  have hhigh' : (2 : Rat) * a + b < 2 * b * (q + 1) := by exact_mod_cast hhigh
  refine Nat.le_antisymm (roundRat_le ?_) (le_roundRat ?_)
  · rw [div_lt_iff₀ hb']
    linarith
  · rw [le_div_iff₀ hb']
    linarith

/-- What a side becomes when another one is brought to a target: the nearest whole number, a half
going up, in the range of sides. -/
def proportional (side target other : UInt32) : Nat :=
  max 1 (min ((2 * (side.toNat * target.toNat) + other.toNat) / (2 * other.toNat))
    Number.maxUInt32)

theorem toNat_side_ratio (n target : UInt32) {source : UInt32} (hs : source ≠ 0) :
    (side (ratio target source) n).toNat = proportional n target source := by
  have hproduct : product (ratio target source) n
      = ((n.toNat * target.toNat : Nat) : Rat) / (source.toNat : Rat) := by
    unfold product ratio
    rw [Nat.cast_mul]
    exact (mul_div_assoc _ _ _).symm
  rw [toNat_side, hproduct, roundRat_div _ (Number.pos_of_ne_zero hs), proportional]

theorem smaller_cases (a b : Rat) : smaller a b = a ∨ smaller a b = b := ite_eq_or_eq _ a b

theorem side_ne_zero (r : Rat) (n : UInt32) : side r n ≠ 0 := by
  intro hzero
  have hone := LawfulScale.one_le_side r n
  rw [hzero] at hone
  exact absurd hone (by decide)

end Scale

/-! ### Boxes and shapes -/

namespace TargetBox

/-- The shape lies inside the box and reaches it on one side. -/
structure Encloses (b : TargetBox) (shape : Shape) : Prop where
  width_le : shape.width ≤ b.w
  height_le : shape.height ≤ b.h
  reaches : shape.width = b.w ∨ shape.height = b.h

/-- The shape covers the box, and is as long on a side that is known. -/
structure CoveredBy (b : TargetBox) (shape : Shape) : Prop where
  le_width : b.w ≤ shape.width
  le_height : b.h ≤ shape.height
  reached : b.w ≠ 0 ∧ shape.width = b.w ∨ b.h ≠ 0 ∧ shape.height = b.h

/-- The one side of the box that is known is made, and the other side goes with it. -/
structure Leads (b : TargetBox) (source shape : Shape) : Prop where
  across : b.h = 0 → shape.width = b.w ∧
    shape.height.toNat = Scale.proportional source.height b.w source.width
  down : b.w = 0 → shape.height = b.h ∧
    shape.width.toNat = Scale.proportional source.width b.h source.height

variable {b : TargetBox} {source : Shape} (hsource : source.Pixelled)
include hsource

theorem encloses_smaller (hw : b.w ≠ 0) (hh : b.h ≠ 0) :
    let scale := Scale.smaller (b.wscale source) (b.hscale source)
    b.Encloses (source.scaled scale scale) := by
  intro scale
  constructor
  · exact Scale.side_le_target hw hsource.width_ne (Scale.smaller_le_left _ _)
  · exact Scale.side_le_target hh hsource.height_ne (Scale.smaller_le_right _ _)
  · rcases Scale.smaller_cases (b.wscale source) (b.hscale source) with hleft | hright
    · left
      rw [show scale = _ from hleft]
      exact Scale.side_ratio hw hsource.width_ne
    · right
      rw [show scale = _ from hright]
      exact Scale.side_ratio hh hsource.height_ne

theorem coveredBy_larger (hknown : b.Known) :
    let scale := Scale.larger (b.wscale source) (b.hscale source)
    b.CoveredBy (source.scaled scale scale) := by
  intro scale
  have hmade : (source.scaled scale scale).width = b.w ∨ (source.scaled scale scale).height = b.h :=
    scaled_larger hknown hsource
  constructor
  · exact Scale.le_side hsource.width_ne (Scale.le_larger_left _ _)
  · exact Scale.le_side hsource.height_ne (Scale.le_larger_right _ _)
  · -- a side is never zero, so one that the scaling has made is known
    rcases hmade with hwidth | hheight
    · exact .inl ⟨hwidth ▸ Scale.side_ne_zero scale source.width, hwidth⟩
    · exact .inr ⟨hheight ▸ Scale.side_ne_zero scale source.height, hheight⟩

theorem leads_coalesced (hknown : b.Known) :
    let factors := coalesce (b.wscale source) (b.hscale source)
    let scale := Scale.smaller factors.1 factors.2
    b.Leads source (source.scaled scale scale) := by
  intro factors scale
  constructor
  · intro hh
    have hw : b.w ≠ 0 := hknown.resolve_right (not_not_intro hh)
    rw [show scale = _ from factor_across hh source]
    exact ⟨Scale.side_ratio hw hsource.width_ne,
      Scale.toNat_side_ratio source.height b.w hsource.width_ne⟩
  · intro hw
    have hh : b.h ≠ 0 := hknown.resolve_left (not_not_intro hw)
    rw [show scale = _ from factor_down hw source]
    exact ⟨Scale.side_ratio hh hsource.height_ne,
      Scale.toNat_side_ratio source.width b.h hsource.height_ne⟩

end TargetBox

end ImagePipeline
