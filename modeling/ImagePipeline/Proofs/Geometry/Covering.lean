import ImagePipeline.Geometry.Thumbnail
import ImagePipeline.Picture.Raster
import ImagePipeline.Proofs.Geometry.LawfulScale

/-!
# The sides of thumbnails

A thumbnail never has a longer side than the bound that is looked at before it is made, and it
always has pixels. The second is a matter of the crop: the scaled image covers the box on one side
at least, so the corner of the box lies inside of it. Where larger factors make no shorter sides, it
covers the box on both, and what is cut out is exactly the box (`Thumbnail.reshape_centre`).
-/

namespace ImagePipeline

/-! ### Cutting out -/

namespace Raster

theorem toNat_inside_snd (start length side : UInt32) :
    (inside start length side).2.toNat
      = min length.toNat (side.toNat - min start.toNat side.toNat) := by
  have htoNat (a b : UInt32) : (shorter a b).toNat = min a.toNat b.toNat := by
    unfold shorter
    split
    · rename_i hle
      rw [UInt32.le_iff_toNat_le] at hle
      omega
    · rename_i hle
      rw [UInt32.le_iff_toNat_le] at hle
      omega
  simp only [inside]
  rw [htoNat, UInt32.toNat_sub_of_le _ _ (shorter_le start side), htoNat]

theorem inside_snd_le (start length side : UInt32) :
    (inside start length side).2.toNat ≤ side.toNat := by
  rw [toNat_inside_snd]
  omega

theorem inside_snd_eq {start length side : UInt32}
    (h : start.toNat + length.toNat ≤ side.toNat) : (inside start length side).2 = length := by
  rw [← UInt32.toNat_inj, toNat_inside_snd]
  omega

theorem one_le_inside_snd {start length side : UInt32} (hlength : 1 ≤ length.toNat)
    (hstart : start.toNat < side.toNat) : 1 ≤ (inside start length side).2.toNat := by
  rw [toNat_inside_snd]
  omega

end Raster

namespace Thumbnail

theorem toNat_half_sub {a b : UInt32} (h : b.toNat ≤ a.toNat) :
    ((a - b) / 2).toNat = (a.toNat - b.toNat) / 2 := by
  rw [UInt32.toNat_div, UInt32.toNat_sub_of_le _ _ (UInt32.le_iff_toNat_le.mpr h)]
  rfl

/-- The corner of the box lies inside of an image that is no shorter than the box on one side. -/
theorem corner_lt {covering : UInt32 × UInt32} {width height : UInt32}
    (hpixels : 1 ≤ covering.1.toNat ∧ 1 ≤ covering.2.toNat) (hbox : 1 ≤ height.toNat)
    (hcovers : width.toNat ≤ covering.1.toNat ∨ height.toNat ≤ covering.2.toNat) :
    (corner covering width height).1.toNat < covering.1.toNat ∧
      (corner covering width height).2.toNat < covering.2.toNat := by
  obtain ⟨hacross, hdown⟩ := hpixels
  unfold corner
  split
  · rename_i hwider
    have hheight : height.toNat ≤ covering.2.toNat := by
      rcases hcovers with hwidth | hheight
      · by_contra hshort
        have hfirst := Nat.mul_le_mul_right covering.2.toNat hwidth
        have hsecond : covering.1.toNat * covering.2.toNat ≤ covering.1.toNat * height.toNat :=
          Nat.mul_le_mul_left _ (by omega)
        omega
      · exact hheight
    refine ⟨hacross, ?_⟩
    rw [toNat_half_sub hheight]
    omega
  · rename_i hwider
    have hwidth : width.toNat ≤ covering.1.toNat := by
      rcases hcovers with hwidth | hheight
      · exact hwidth
      · by_contra hshort
        have hfirst := Nat.mul_le_mul_left width.toNat hheight
        have hsecond : (covering.1.toNat + 1) * height.toNat ≤ width.toNat * height.toNat :=
          Nat.mul_le_mul_right _ (by omega)
        rw [Nat.add_mul] at hsecond
        omega
    refine ⟨?_, hdown⟩
    rw [toNat_half_sub hwidth]
    omega

/-! ### Shapes -/

def reshape (σ : Type) [Scale σ] (shape : Shape) (width height : UInt32) (interest : Interest)
    (sizing : Sizing) : Shape :=
  let covering := sides σ shape width height interest
  match sizing, interest with
  | .force, _ => { shape with width := width, height := height }
  | .both, .all =>
    if shape.width = width ∧ shape.height = height then shape
    else { shape with width := covering.1, height := covering.2 }
  | .both, .centre =>
    let corner := corner covering width height
    { shape with
      width := (Raster.inside corner.1 width covering.1).2
      height := (Raster.inside corner.2 height covering.2).2 }

section

variable {σ : Type} [Scale σ] {shape : Shape} (hwidth : shape.width ≠ 0)
  (hheight : shape.height ≠ 0)
include hwidth hheight

theorem sides_eq (width height : UInt32) (interest : Interest) :
    sides σ shape width height interest
      = (Scale.side (Scale.ofRatio (factor interest shape width height) : σ) shape.width,
          Scale.side (Scale.ofRatio (factor interest shape width height) : σ) shape.height) := by
  unfold sides
  rw [factor?_eq_factor hwidth hheight]
  rfl

/-- The factor is the ratio of one of the two sides. -/
theorem factor_cases (width height : UInt32) (interest : Interest) :
    factor interest shape width height = Scale.ratio width shape.width ∨
      factor interest shape width height = Scale.ratio height shape.height := by
  simp only [factor, ratio, hwidth, hheight, if_false, Scale.larger, Scale.smaller]
  cases interest with
  | centre =>
    dsimp only
    split
    · exact .inr rfl
    · exact .inl rfl
  | all =>
    dsimp only
    split
    · exact .inl rfl
    · exact .inr rfl

theorem factor_self (interest : Interest) :
    factor interest shape shape.width shape.height = 1 := by
  rcases factor_cases hwidth hheight shape.width shape.height interest with hfactor | hfactor
  · rw [hfactor, Scale.ratio_self hwidth]
  · rw [hfactor, Scale.ratio_self hheight]

/-- An image that covers a box is scaled by neither ratio less. -/
theorem ratio_le_factor (width height : UInt32) :
    Scale.ratio width shape.width ≤ factor .centre shape width height ∧
      Scale.ratio height shape.height ≤ factor .centre shape width height := by
  simp only [factor, ratio, hwidth, hheight, if_false]
  exact ⟨Scale.le_larger_left _ _, Scale.le_larger_right _ _⟩

variable [LawfulScale σ]

theorem one_le_sides (width height : UInt32) (interest : Interest) :
    1 ≤ (sides σ shape width height interest).1.toNat ∧
      1 ≤ (sides σ shape width height interest).2.toNat := by
  rw [sides_eq hwidth hheight]
  exact ⟨LawfulScale.one_le_side _ _, LawfulScale.one_le_side _ _⟩

theorem sides_le_bound (width height : UInt32) (interest : Interest) :
    (sides σ shape width height interest).1.toNat
        ≤ (bound σ shape width height interest .both).1 ∧
      (sides σ shape width height interest).2.toNat
        ≤ (bound σ shape width height interest .both).2 := by
  rw [sides_eq hwidth hheight]
  exact ⟨LawfulScale.side_le_cover _ _, LawfulScale.side_le_cover _ _⟩

theorem le_sides (width height : UInt32) (interest : Interest) :
    width.toNat ≤ (sides σ shape width height interest).1.toNat ∨
      height.toNat ≤ (sides σ shape width height interest).2.toNat := by
  rw [sides_eq hwidth hheight]
  rcases factor_cases hwidth hheight width height interest with hfactor | hfactor
  · rw [hfactor]
    exact .inl (LawfulScale.le_side_ofRatio width shape.width hwidth)
  · rw [hfactor]
    exact .inr (LawfulScale.le_side_ofRatio height shape.height hheight)

/-- An image that is its own box is not longer than the bound either. -/
theorem shape_le_bound (interest : Interest) :
    shape.width.toNat ≤ (bound σ shape shape.width shape.height interest .both).1 ∧
      shape.height.toNat ≤ (bound σ shape shape.width shape.height interest .both).2 := by
  have hcover {n : UInt32} (hn : n ≠ 0) :
      n.toNat ≤ Scale.cover (Scale.ofRatio (1 : Rat) : σ) n := by
    have hside := LawfulScale.le_side_ofRatio (σ := σ) n n hn
    rw [Scale.ratio_self hn] at hside
    exact hside.trans (LawfulScale.side_le_cover _ _)
  simp only [bound, factor_self hwidth hheight]
  exact ⟨hcover hwidth, hcover hheight⟩

/-- A thumbnail has pixels and keeps to the bound. -/
theorem reshape_sides {width height : UInt32} (hbox : width ≠ 0 ∧ height ≠ 0) (interest : Interest)
    (sizing : Sizing) :
    let result := reshape σ shape width height interest sizing
    let limit := bound σ shape width height interest sizing
    (1 ≤ result.width.toNat ∧ 1 ≤ result.height.toNat) ∧
      result.width.toNat ≤ limit.1 ∧ result.height.toNat ≤ limit.2 := by
  have hacross := Number.pos_of_ne_zero hbox.1
  have hdown := Number.pos_of_ne_zero hbox.2
  have hone := one_le_sides (σ := σ) hwidth hheight width height interest
  have hle := sides_le_bound (σ := σ) hwidth hheight width height interest
  cases sizing with
  | force => exact ⟨⟨hacross, hdown⟩, Nat.le_refl _, Nat.le_refl _⟩
  | both =>
    cases interest with
    | all =>
      simp only [reshape]
      split
      · rename_i hsame
        rw [← hsame.1, ← hsame.2]
        exact ⟨⟨Number.pos_of_ne_zero hwidth, Number.pos_of_ne_zero hheight⟩,
          shape_le_bound hwidth hheight .all⟩
      · exact ⟨hone, hle⟩
    | centre =>
      have hcovers := le_sides (σ := σ) hwidth hheight width height .centre
      have hcorner := corner_lt hone hdown hcovers
      exact ⟨⟨Raster.one_le_inside_snd hacross hcorner.1, Raster.one_le_inside_snd hdown hcorner.2⟩,
        (Raster.inside_snd_le _ _ _).trans hle.1, (Raster.inside_snd_le _ _ _).trans hle.2⟩

end

/-! ### Exact covers -/

section

variable {σ : Type} [Scale σ] [CoveringScale σ] {shape : Shape} (hpixelled : shape.Pixelled)
  (width height : UInt32)
include hpixelled

/-- The larger factor makes no side shorter than the box. -/
theorem le_sides_centre :
    width.toNat ≤ (sides σ shape width height .centre).1.toNat ∧
      height.toNat ≤ (sides σ shape width height .centre).2.toNat := by
  obtain ⟨hacross, hdown⟩ := ratio_le_factor hpixelled.width_ne hpixelled.height_ne width height
  rw [sides_eq hpixelled.width_ne hpixelled.height_ne]
  rcases factor_cases hpixelled.width_ne hpixelled.height_ne width height .centre with
    hfactor | hfactor
  · rw [hfactor] at hacross hdown ⊢
    exact ⟨CoveringScale.le_side hpixelled.width_ne hpixelled.width_ne hacross,
      CoveringScale.le_side hpixelled.height_ne hpixelled.width_ne hdown⟩
  · rw [hfactor] at hacross hdown ⊢
    exact ⟨CoveringScale.le_side hpixelled.width_ne hpixelled.height_ne hacross,
      CoveringScale.le_side hpixelled.height_ne hpixelled.height_ne hdown⟩

/-- The box that is cut out of the middle lies inside. -/
theorem corner_add_le :
    (corner (sides σ shape width height .centre) width height).1.toNat + width.toNat
        ≤ (sides σ shape width height .centre).1.toNat ∧
      (corner (sides σ shape width height .centre) width height).2.toNat + height.toNat
        ≤ (sides σ shape width height .centre).2.toNat := by
  obtain ⟨hwidth, hheight⟩ := le_sides_centre (σ := σ) hpixelled width height
  have hzero : (0 : UInt32).toNat = 0 := rfl
  unfold corner
  split
  · simp only [toNat_half_sub hheight, hzero]
    omega
  · simp only [toNat_half_sub hwidth, hzero]
    omega

theorem reshape_centre :
    reshape σ shape width height .centre .both
      = { shape with width := width, height := height } := by
  have hcorner := corner_add_le (σ := σ) hpixelled width height
  simp only [reshape, Raster.inside_snd_eq hcorner.1, Raster.inside_snd_eq hcorner.2]

end

end Thumbnail

end ImagePipeline
