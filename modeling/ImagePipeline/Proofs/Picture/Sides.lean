import ImagePipeline.Picture.Blur
import ImagePipeline.Picture.Canvas
import ImagePipeline.Picture.Resample
import ImagePipeline.Watermark.Tile

/-!
# The shapes of changed pictures

Every operation on pictures makes a picture whose shape depends on the shape of the old one alone,
never on its pixels. There is one equation for each operation.
-/

namespace ImagePipeline

/-! ### Rasters -/

namespace Raster

variable {α β : Type}

def SameSides (r : Raster α) (s : Raster β) : Prop := r.width = s.width ∧ r.height = s.height

theorem sameSides_modify (f : α → α) (r : Raster α) (x y : Nat) : SameSides (r.modify f x y) r := by
  rcases r with ⟨width, height, pixels, hsize⟩
  by_cases hin : x < width.toNat ∧ y < height.toNat
  · simp only [SameSides, modify, hin, and_self, if_true]
  · simp only [SameSides, modify, hin, if_false, and_self]

theorem sameSides_foldl {ι : Type} {f : Raster α → ι → Raster α} {items : List ι} (r : Raster α)
    (hstep : ∀ s i, SameSides (f s i) s) : SameSides (items.foldl f r) r := by
  refine List.foldlRecOn (motive := fun s => SameSides s r) items f ⟨rfl, rfl⟩ ?_
  intro s hs i _
  have hnext := hstep s i
  exact ⟨hnext.1.trans hs.1, hnext.2.trans hs.2⟩

theorem sameSides_stamp (f : α → β → α) (canvas : Raster α) (tile : Raster β) (x y : Int) :
    SameSides (canvas.stamp f tile x y) canvas := by
  refine sameSides_foldl canvas ?_
  intro row j
  refine sameSides_foldl row ?_
  intro r i
  split
  · exact sameSides_modify _ r _ _
  · exact ⟨rfl, rfl⟩

end Raster

theorem Watermark.sameSides_composite (canvas tile : Raster Rgba) (replicate : Bool) :
    Raster.SameSides (composite canvas tile replicate) canvas := by
  unfold composite
  split
  · refine Raster.sameSides_foldl canvas ?_
    intro r corner
    exact Raster.sameSides_stamp blend r tile _ _
  · exact Raster.sameSides_stamp blend canvas tile 0 0

theorem Resample.raster_sides {α : Type} [Sample α] {n : Nat} (kernel : Kernel)
    (width height : UInt32) (r : Raster (Vector α n)) :
    (raster kernel width height r).width = width ∧
      (raster kernel width height r).height = height := by
  unfold raster
  split
  · exact ⟨rfl, rfl⟩
  · split
    · assumption
    · exact ⟨rfl, rfl⟩

/-! ### Pictures -/

namespace Picture

@[simp]
theorem shape_width (p : Picture) : p.shape.width = p.width := rfl

@[simp]
theorem shape_height (p : Picture) : p.shape.height = p.height := rfl

@[simp]
theorem shape_hasAlpha (p : Picture) : p.shape.hasAlpha = p.hasAlpha := rfl

theorem shape_eq (p : Picture) : p.shape = ⟨p.width, p.height, p.hasAlpha⟩ := rfl

theorem shape_ofRgba {r : Raster Rgba} {width height : UInt32}
    (h : r.width = width ∧ r.height = height) : (ofRgba r).shape = ⟨width, height, true⟩ := by
  rw [← h.1, ← h.2]
  rfl

theorem shape_ofRgb {r : Raster Rgb} {width height : UInt32}
    (h : r.width = width ∧ r.height = height) : (ofRgb r).shape = ⟨width, height, false⟩ := by
  rw [← h.1, ← h.2]
  rfl

theorem shape_resized (p : Picture) (kernel : Kernel) (width height : UInt32) :
    (p.resized kernel width height).shape = ⟨width, height, p.hasAlpha⟩ := by
  have hsides := Resample.raster_sides kernel width height p.raster
  unfold shape Picture.width Picture.height
  simp only [resized, hsides]
  rfl

theorem shape_cropped (p : Picture) (x y width height : UInt32) :
    (p.cropped x y width height).shape
      = ⟨(Raster.inside x width p.width).2, (Raster.inside y height p.height).2, p.hasAlpha⟩ := rfl

theorem shape_resizedWithin (p : Picture) (kernel : Kernel) (sides corner : UInt32 × UInt32)
    (width height : UInt32) :
    (p.resizedWithin kernel sides corner width height).shape
      = ⟨(Raster.inside corner.1 width sides.1).2, (Raster.inside corner.2 height sides.2).2,
          p.hasAlpha⟩ := by
  unfold resizedWithin
  split
  · exact shape_resized p kernel _ _
  · have hresized := shape_resized p kernel sides.1 sides.2
    rw [shape_cropped, ← shape_width, ← shape_height, ← shape_hasAlpha, hresized]

theorem shape_embedded (p : Picture) (x y : Int) (width height : UInt32)
    (background : Background) :
    (p.embedded x y width height background).shape = ⟨width, height, p.hasAlpha⟩ := by
  unfold embedded
  cases p.hasAlpha with
  | true => exact shape_ofRgba (Raster.sameSides_stamp _ _ p.toRgba x y)
  | false => exact shape_ofRgb (Raster.sameSides_stamp _ _ p.toRgb x y)

theorem shape_withAlpha (p : Picture) : p.withAlpha.shape = ⟨p.width, p.height, true⟩ := by
  unfold withAlpha
  split
  · rename_i halpha
    rw [← halpha]
    rfl
  · rfl

theorem shape_blurred (p : Picture) (sigma minAmplitude : Float) :
    (p.blurred sigma minAmplitude).shape = p.shape := by
  unfold blurred
  dsimp only
  split
  · rfl
  · split
    · rename_i halpha
      rw [p.shape_eq, halpha]
      rfl
    · rename_i halpha
      rw [p.shape_eq, Bool.eq_false_iff.mpr halpha]
      rfl

theorem shape_watermarked (p : Picture) (tile : Raster Rgba) (replicate : Bool) :
    (p.watermarked tile replicate).shape = ⟨p.width, p.height, true⟩ :=
  shape_ofRgba (Watermark.sameSides_composite p.toRgba tile replicate)

end Picture

end ImagePipeline
