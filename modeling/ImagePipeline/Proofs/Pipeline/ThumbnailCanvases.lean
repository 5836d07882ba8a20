import ImagePipeline.Proofs.Geometry.CoverBound
import ImagePipeline.Proofs.Pipeline.WorkingCanvas

/-!
# The canvases of a thumbnail

A thumbnail whose bound passes the limit is made, and neither the canvas to which the image is
scaled nor what is left of it after the crop is above the limit: both are no longer than the bound
(`Photo.thumbnail_bounded`).
-/

namespace ImagePipeline.Photo

variable {σ : Type} [Scale σ]

/-- The change was made, and neither the canvas to which it scaled the picture nor the picture that
came of it has more pixels than the limit allows. -/
structure MadeWithin (limits : Limits) (change : Edit σ) (photo changed : Photo) : Prop where
  made : photo.edit limits change = .ok changed
  scaled_holds : ∃ sides, change.resampled? photo.picture.shape = some sides ∧ limits.Holds sides
  result_holds : limits.Holds (changed.picture.width, changed.picture.height)

theorem exists_resampled? (width height : UInt32) (interest : Interest) (sizing : Sizing)
    (shape : Shape) :
    ∃ sides, (.thumbnail width height interest sizing : Edit σ).resampled? shape = some sides := by
  cases sizing with
  | force => exact ⟨_, rfl⟩
  | both =>
    cases interest with
    | centre => exact ⟨_, rfl⟩
    | all =>
      rw [Edit.resampled?]
      split
      · exact ⟨_, rfl⟩
      · exact ⟨_, rfl⟩

theorem madeWithin_of_check [LawfulScale σ] {limits : Limits} {photo : Photo}
    (hpixelled : photo.picture.shape.Pixelled) {width height : UInt32}
    (hbox : width ≠ 0 ∧ height ≠ 0) {interest : Interest} {sizing : Sizing}
    (hcheck : limits.check "thumbnail"
      (Thumbnail.bound σ photo.picture.shape width height interest sizing).1
      (Thumbnail.bound σ photo.picture.shape width height interest sizing).2 = .ok ()) :
    ∃ changed, MadeWithin limits (.thumbnail width height interest sizing : Edit σ) photo
      changed := by
  have hallows := limits.allows_of_check hcheck
  have hmade := edit_thumbnail_of_check hbox hcheck
  have hfits : (.thumbnail width height interest sizing : Edit σ).Fits limits
      photo.picture.shape := by
    intro sides hsides
    cases hsides
    exact hallows
  obtain ⟨sides, hsides⟩ := exists_resampled? (σ := σ) width height interest sizing
    photo.picture.shape
  refine ⟨_, hmade, ⟨sides, hsides, Edit.holds_resampled hpixelled hfits hsides⟩, ?_⟩
  -- the result is no longer than the bound either
  have hreshaped : (photo.picture.thumbnailed σ width height interest sizing).shape
      = Thumbnail.reshape σ photo.picture.shape width height interest sizing :=
    edit_reshape hmade
  obtain ⟨-, hwidth, hheight⟩ := Thumbnail.reshape_sides (σ := σ) hpixelled.width_ne
    hpixelled.height_ne hbox interest sizing
  rw [← hreshaped] at hwidth hheight
  exact hallows.holds hwidth hheight

/-- The bound of a thumbnail of any image with pixels, for any box: with an exact factor it is never
below the sides that the image is scaled to, which cover the box or fit into it. Whatever numbers
the factor is read as, a thumbnail whose bound passes is made without a canvas above the limit. -/
theorem thumbnail_bounded [LawfulScale σ] {shape : Shape} (hpixelled : shape.Pixelled)
    {width height : UInt32} (hbox : width ≠ 0 ∧ height ≠ 0) :
    Thumbnail.CoversBox shape width height ∧ Thumbnail.FitsBox shape width height ∧
      ∀ (limits : Limits) (photo : Photo) (interest : Interest) (sizing : Sizing),
        photo.picture.shape = shape →
        limits.check "thumbnail" (Thumbnail.bound σ shape width height interest sizing).1
          (Thumbnail.bound σ shape width height interest sizing).2 = .ok () →
        ∃ changed, MadeWithin limits (.thumbnail width height interest sizing : Edit σ) photo
          changed := by
  refine ⟨Thumbnail.coversBox hpixelled hbox, Thumbnail.fitsBox hpixelled hbox, ?_⟩
  rintro limits photo interest sizing rfl hcheck
  exact madeWithin_of_check hpixelled hbox hcheck

/-- Four pixels by two. -/
def slab : Photo :=
  ⟨⟨.whole .grey .eight, Raster.uniform 4 2 (Vector.replicate 1 (128 : UInt8))⟩, .png⟩

/-- To cover a square of nine pixels the slab needs eighteen, and no more are allowed. -/
theorem thumbnail_bounded_of_slab :
    (slab.picture.shape.Pixelled ∧ (3 : UInt32) ≠ 0) ∧
      Thumbnail.nearestSides .centre slab.picture.shape 3 3 = (6, 3) ∧
      Thumbnail.CoversBox slab.picture.shape 3 3 ∧ Thumbnail.FitsBox slab.picture.shape 3 3 ∧
      ∃ changed, MadeWithin { maxOutputPixels := 18 } (.thumbnail 3 3 .centre .both : Edit Float)
        slab changed := by
  have hpixelled : slab.picture.shape.Pixelled := ⟨by decide, by decide⟩
  have hbox : (3 : UInt32) ≠ 0 := by decide
  obtain ⟨hcovers, hfits, hmade⟩ := thumbnail_bounded (σ := Float) hpixelled ⟨hbox, hbox⟩
  refine ⟨⟨hpixelled, hbox⟩, ?_, hcovers, hfits, ?_⟩
  · decide +kernel
  · exact hmade { maxOutputPixels := 18 } slab .centre .both rfl (by decide +kernel)

end ImagePipeline.Photo
