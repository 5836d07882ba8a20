import ImagePipeline.Colour

/-!
# What a backend can be told to do

An `Edit` is one change of an image, with all its arguments. Edits are written over a type `σ` of
scale factors, so that the same plan can be read with exact fractions or with doubles.
-/

namespace ImagePipeline

/-- The quality of a lossy encoder, from 1 to 100. -/
structure Quality where
  value : UInt32
  one_le : 1 ≤ value.toNat
  le_hundred : value.toNat ≤ 100
  deriving DecidableEq

namespace Quality

def clamp (n : UInt32) : Quality :=
  if low : n.toNat < 1 then ⟨1, by decide, by decide⟩
  else if high : 100 < n.toNat then ⟨100, by decide, by decide⟩
  else ⟨n, by omega, by omega⟩

def best : Quality := ⟨100, by decide, by decide⟩

theorem clamp_value {n : UInt32} (low : 1 ≤ n.toNat) (high : n.toNat ≤ 100) :
    (clamp n).value = n := by
  unfold clamp
  split
  · omega
  · split
    · omega
    · rfl

end Quality

inductive Kernel where
  | nearest
  | linear
  | cubic
  | lanczos3
  deriving DecidableEq, Repr

inductive Interest where
  /-- The centre; the rest is cropped. -/
  | centre
  /-- Everything; nothing is cropped. -/
  | all
  deriving DecidableEq, Repr

inductive Sizing where
  | both
  | force
  deriving DecidableEq, Repr

inductive Background where
  | colour (c : Rgb)
  | white
  | extended
  deriving DecidableEq, Repr

structure WatermarkParams where
  text : String
  fontSize : UInt32
  /-- Dots per inch, which turn points into pixels. -/
  dpi : UInt32
  /-- From 0 (invisible) to 1 (opaque). -/
  opacity : Float32
  rotate : Int32
  replicate : Bool
  margin : UInt32
  colour : Rgb

inductive Edit (σ : Type) where
  | resize (scale : σ) (kernel : Kernel)
  | resizeAxes (hscale vscale : σ) (kernel : Kernel)
  | thumbnail (width height : UInt32) (interest : Interest) (sizing : Sizing)
  /-- Places the image at a point of a fresh canvas; the point may lie outside. -/
  | embed (x y : Int) (width height : UInt32) (background : Background)
  | addAlpha
  | watermark (params : WatermarkParams)
  | blur (sigma minAmplitude : Float)

def Edit.name {σ : Type} : Edit σ → String
  | .resize .. => "resize"
  | .resizeAxes .. => "resize_axes"
  | .thumbnail .. => "thumbnail"
  | .embed .. => "embed"
  | .addAlpha => "add_alpha"
  | .watermark _ => "watermark"
  | .blur .. => "blur"

end ImagePipeline
