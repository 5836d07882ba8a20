import ImagePipeline.Proofs.Picture.Painting
import ImagePipeline.Proofs.Pipeline.Change

/-!
# Embedding shifts pixels

An image that is embedded comes back pixel by pixel on a canvas of exactly the sides asked for, at
any offset however far outside: where the shifted image has a pixel its eight-bit copy stands, and
elsewhere the background (`Photo.embed_shifts`). This is so for pixels of any kind, of which only
the eight-bit copies count; those of a photo are one kind (`Picture.embedded_eq`).
-/

namespace ImagePipeline

namespace Picture

/-! ### Eight-bit pictures -/

theorem toRgba_samples (c : Rgba) : Layout.toRgba .rgba c.samples = c := rfl

theorem toRgba_opaqueSamples (c : Rgb) : Layout.toRgba .rgb c.samples = c.solid := rfl

/-- A picture in colours of eight bits is its own copy. -/
theorem toRgba_ofRgba (r : Raster Rgba) : (ofRgba r).toRgba = r := by
  have hcopy : Layout.toRgba .rgba ∘ Rgba.samples = id := funext toRgba_samples
  calc (ofRgba r).toRgba = r.map (Layout.toRgba .rgba ∘ Rgba.samples) := Raster.map_map _ _ r
    _ = r := by rw [hcopy, Raster.map_id]

theorem toRgba_ofRgb (r : Raster Rgb) : (ofRgb r).toRgba = r.map Rgb.solid := by
  have hcopy : Layout.toRgba .rgb ∘ Rgb.samples = Rgb.solid := funext toRgba_opaqueSamples
  calc (ofRgb r).toRgba = r.map (Layout.toRgba .rgb ∘ Rgb.samples) := Raster.map_map _ _ r
    _ = r.map Rgb.solid := by rw [hcopy]

theorem toRgb_ofRgb (r : Raster Rgb) : (ofRgb r).toRgb = r := by
  have hcopy : Rgba.colour ∘ Rgb.solid = id := rfl
  rw [toRgb, toRgba_ofRgb, Raster.map_map, hcopy, Raster.map_id]

theorem eightBit_ofRgba (r : Raster Rgba) : (ofRgba r).eightBit true = ofRgba r :=
  congrArg ofRgba (toRgba_ofRgba r)

theorem eightBit_ofRgb (r : Raster Rgb) : (ofRgb r).eightBit true = ofRgb r :=
  congrArg ofRgb (toRgb_ofRgb r)

/-- A pixel without an alpha channel counts as opaque. -/
theorem solid_colour_toRgba {α : Type} [Sample α] {layout : Layout} (h : layout.hasAlpha = false)
    (p : Vector α layout.channels) : (layout.toRgba p).colour.solid = layout.toRgba p := by
  cases layout with
  | grey => rfl
  | rgb => rfl
  | greyAlpha => cases h
  | rgba => cases h

end Picture

/-! ### Canvases -/

/-- What stands on a canvas where the image does not: the colour asked for or white, opaque; an
extended background is transparent when the image has alpha, and opaque black when it has not. -/
def Background.shown (background : Background) (hasAlpha : Bool) : Rgba :=
  match background with
  | .colour c => ⟨c.red, c.green, c.blue, 255⟩
  | .white => ⟨255, 255, 255, 255⟩
  | .extended => if hasAlpha then ⟨0, 0, 0, 0⟩ else ⟨0, 0, 0, 255⟩

section
variable {α : Type}

/-- A canvas is the source shifted by an offset over a background. Of the pixels of the source only
their copies of eight bits are seen. -/
structure ShiftedOnto (source : Raster α) (hasAlpha : Bool) (copy : α → Rgba) (x y : Int)
    (width height : UInt32) (background : Background) (canvas : Picture) : Prop where
  width_eq : canvas.width = width
  height_eq : canvas.height = height
  hasAlpha_eq : canvas.hasAlpha = hasAlpha
  /-- The canvas has no more to it than its colours of eight bits. -/
  eightBit_eq : canvas.eightBit true = canvas
  pixel_eq : ∀ i j : Nat, i < width.toNat → j < height.toNat →
    canvas.toRgba.get? i j = some (match source.at? (i - x) (j - y) with
      | some pixel => copy pixel
      | none => background.shown hasAlpha)

/-- A kind of pixels, known by its copies of eight bits: whether they have alpha, and which they
are. Pixels of any channels and samples are such a kind. -/
inductive PixelKind (α : Type) where
  | alpha (copy : α → Rgba)
  | solid (copy : α → Rgb)

namespace PixelKind

def hasAlpha : PixelKind α → Bool
  | alpha _ => true
  | solid _ => false

def copy : PixelKind α → α → Rgba
  | alpha copy => copy
  | solid copy => fun pixel => (copy pixel).solid

/-- The copies of eight bits on a canvas of the same colours. -/
def embedded (kind : PixelKind α) (source : Raster α) (x y : Int) (width height : UInt32)
    (background : Background) : Picture :=
  match kind with
  | alpha copy => .ofRgba
      ((Raster.uniform width height background.rgba).stamp (fun _ pixel => pixel)
        (source.map copy) x y)
  | solid copy => .ofRgb
      ((Raster.uniform width height background.rgb).stamp (fun _ pixel => pixel)
        (source.map copy) x y)

end PixelKind

theorem get?_uniform_stamp {width height : UInt32} {i j : Nat} (hi : i < width.toNat)
    (hj : j < height.toNat) (a : α) (tile : Raster α) (x y : Int) :
    ((Raster.uniform width height a).stamp (fun _ pixel => pixel) tile x y).get? i j
      = some ((tile.at? (i - x) (j - y)).getD a) := by
  rw [Raster.get?_stamp, Raster.get?_uniform, if_pos ⟨hi, hj⟩]
  cases tile.at? (i - x) (j - y) <;> rfl

theorem shiftedOnto_embedded (kind : PixelKind α) (source : Raster α) (x y : Int)
    (width height : UInt32) (background : Background) :
    ShiftedOnto source kind.hasAlpha kind.copy x y width height background
      (kind.embedded source x y width height background) := by
  cases kind with
  | alpha copy =>
    have hsides := Raster.sameSides_stamp (fun _ pixel => pixel)
      (Raster.uniform width height background.rgba) (source.map copy) x y
    refine ⟨hsides.1, hsides.2, rfl, Picture.eightBit_ofRgba _, ?_⟩
    intro i j hi hj
    rw [PixelKind.embedded, Picture.toRgba_ofRgba, get?_uniform_stamp hi hj, Raster.at?_map]
    cases source.at? (i - x) (j - y) with
    | some pixel => rfl
    | none => cases background <;> rfl
  | solid copy =>
    have hsides := Raster.sameSides_stamp (fun _ pixel => pixel)
      (Raster.uniform width height background.rgb) (source.map copy) x y
    refine ⟨hsides.1, hsides.2, rfl, Picture.eightBit_ofRgb _, ?_⟩
    intro i j hi hj
    rw [PixelKind.embedded, Picture.toRgba_ofRgb, Raster.get?_map, get?_uniform_stamp hi hj,
      Raster.at?_map]
    cases source.at? (i - x) (j - y) with
    | some pixel => rfl
    | none => cases background <;> rfl

end

namespace Picture

/-- The kind of the pixels of a picture. -/
def kind (p : Picture) : PixelKind p.colour.Pixel :=
  if p.hasAlpha then .alpha p.colour.toRgba
  else .solid fun samples => (p.colour.toRgba samples).colour

theorem hasAlpha_kind (p : Picture) : p.kind.hasAlpha = p.hasAlpha := by
  unfold kind
  cases p.hasAlpha <;> rfl

theorem copy_kind (p : Picture) : p.kind.copy = p.colour.toRgba := by
  unfold kind
  cases halpha : p.hasAlpha with
  | true => rfl
  | false => exact funext fun samples => solid_colour_toRgba halpha samples

theorem embedded_eq (p : Picture) (x y : Int) (width height : UInt32) (background : Background) :
    p.embedded x y width height background
      = p.kind.embedded p.raster x y width height background := by
  unfold embedded kind
  cases p.hasAlpha with
  | true => rfl
  | false =>
    have hcopy : p.toRgb = p.raster.map fun samples => (p.colour.toRgba samples).colour :=
      Raster.map_map _ _ _
    simp only [Bool.false_eq_true, if_false, hcopy]
    rfl

end Picture

/-! ### The change of a photo -/

namespace Photo

variable {σ : Type} [Scale σ]

/-- Pixels of any kind, embedded at any offset on a canvas of any sides, are shifted over the
background. Embedding a photo is embedding pixels of its kind, and it is always done when the sides
of the canvas are at least 1 and its pixels keep to the limit. -/
theorem embed_shifts (limits : Limits) (photo : Photo) (x y : Int) {width height : UInt32}
    (background : Background) (hwidth : width ≠ 0) (hheight : height ≠ 0)
    (hfits : width.toNat * height.toNat ≤ limits.maxOutputPixels.toNat) :
    (∀ (α : Type) (kind : PixelKind α) (source : Raster α),
      ShiftedOnto source kind.hasAlpha kind.copy x y width height background
        (kind.embedded source x y width height background)) ∧
    ∃ canvas, photo.attempt limits (.embed x y width height background : Edit σ)
        = (.ok (), { photo with picture := canvas }) ∧
      canvas = photo.picture.kind.embedded photo.picture.raster x y width height background ∧
      ShiftedOnto photo.picture.raster photo.picture.hasAlpha
        photo.picture.colour.toRgba x y width height background canvas := by
  have hshifted {α : Type} (kind : PixelKind α) (source : Raster α) :=
    shiftedOnto_embedded kind source x y width height background
  refine ⟨fun _ => hshifted, photo.picture.embedded x y width height background, ?_,
    photo.picture.embedded_eq x y width height background, ?_⟩
  · have hsides : ¬ (width = 0 ∨ height = 0) := not_or.mpr ⟨hwidth, hheight⟩
    show (PhotoWork.embed limits x y width height background).run.run photo = _
    unfold PhotoWork.embed
    rw [if_neg hsides]
    show StateT.run (ExceptT.run ((liftM (limits.check "embed canvas" width.toNat height.toNat) :
      PhotoWork Unit) >>= _)) photo = _
    rw [PhotoWork.run_check_bind, Limits.check_ok hfits]
    rfl
  · rw [Picture.embedded_eq, ← photo.picture.hasAlpha_kind, ← photo.picture.copy_kind]
    exact hshifted photo.picture.kind photo.picture.raster

/-- One white pixel of sixteen bits that is half transparent. -/
def mist : Photo :=
  ⟨⟨.whole .greyAlpha .sixteen, Raster.uniform 1 1 (#v[65535, 32768] : Vector UInt16 2)⟩, .png⟩

/-- The pixel is shifted to the right by one: it stands there in eight bits, and what it has left is
transparent. -/
theorem embed_shifts_of_mist :
    ((2 : UInt32) ≠ 0 ∧ (1 : UInt32) ≠ 0 ∧
      (2 : UInt32).toNat * (1 : UInt32).toNat ≤ ({} : Limits).maxOutputPixels.toNat) ∧
    ∃ canvas, mist.attempt {} (.embed 1 0 2 1 .extended : Edit Float)
        = (.ok (), { mist with picture := canvas }) ∧
      canvas.toRgba.get? 0 0 = some ⟨0, 0, 0, 0⟩ ∧
      canvas.toRgba.get? 1 0 = some ⟨255, 255, 255, 128⟩ := by
  have hfits : (2 : UInt32).toNat * (1 : UInt32).toNat ≤ ({} : Limits).maxOutputPixels.toNat := by
    decide
  obtain ⟨-, canvas, hdone, -, hshifted⟩ :=
    embed_shifts (σ := Float) {} mist 1 0 .extended (by decide : (2 : UInt32) ≠ 0) (by decide) hfits
  refine ⟨⟨by decide, by decide, hfits⟩, canvas, hdone, ?_, ?_⟩
  · exact hshifted.pixel_eq 0 0 (by decide) (by decide)
  · exact hshifted.pixel_eq 1 0 (by decide) (by decide)

end Photo

end ImagePipeline
