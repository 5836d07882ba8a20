import ImagePipeline.Colour
import ImagePipeline.Geometry.Shape
import ImagePipeline.Number.Rounding
import ImagePipeline.Picture.Raster

/-!
# Pictures

A picture is a raster whose pixels are of one of ten colour types: one to four channels with samples
of eight or sixteen bits, or colours with floating-point samples between 0 and 1. Whatever needs
colours works on a copy of the picture in `Rgb` or `Rgba` pixels: grey is copied to all three
colours, a missing alpha channel counts as opaque, and samples are brought down to eight bits by
`Sample.toByte`.
-/

namespace ImagePipeline

inductive Layout where
  | grey
  | greyAlpha
  | rgb
  | rgba
  deriving DecidableEq, Repr

namespace Layout

def channels : Layout → Nat
  | grey => 1
  | greyAlpha => 2
  | rgb => 3
  | rgba => 4

def hasAlpha : Layout → Bool
  | grey => false
  | greyAlpha => true
  | rgb => false
  | rgba => true

end Layout

/-! ### Samples -/

/-- What is done with the samples of a picture, whatever numbers they are. -/
class Sample (α : Type) where
  zero : α
  toByte : α → UInt8
  /-- The sample as it takes part in a mean. -/
  toSingle : α → Float32
  /-- The sample that a mean comes to; what lies outside the range is brought to its end. -/
  ofSingle : Float32 → α
  /-- The sample written down as a whole number, its high byte first. -/
  bytes : α → List UInt8

namespace Sample

/-- The whole number nearest to a mean, between 0 and a largest one. -/
def nearestUpTo (largest : Nat) (v : Float32) : Nat :=
  let high : Float32 := largest.toUInt64.toFloat32
  let v := if v < 0 then 0 else if v > high then high else v
  Number.nearest32 v

/-- The share of a largest whole number that a floating-point sample stands for. A NaN counts as
everything. -/
def shareOf (largest : Nat) (v : Float32) : Nat :=
  let part : Float32 := if v < 1 then (if v > 0 then v else 0) else 1
  Number.nearest32 (part * largest.toUInt64.toFloat32)

def wordBytes (v : UInt16) : List UInt8 := [(v >>> 8).toUInt8, v.toUInt8]

end Sample

instance : Sample UInt8 where
  zero := 0
  toByte v := v
  toSingle v := v.toNat.toUInt64.toFloat32
  ofSingle v := UInt8.ofNat (Sample.nearestUpTo 255 v)
  bytes v := [v]

/-- Samples of sixteen bits; as bytes they are divided by 257, a half going up. -/
instance : Sample UInt16 where
  zero := 0
  toByte v := UInt8.ofNat ((v.toNat + 128) / 257)
  toSingle v := v.toNat.toUInt64.toFloat32
  ofSingle v := UInt16.ofNat (Sample.nearestUpTo 65535 v)
  bytes := Sample.wordBytes

/-- Floating-point samples; a mean of them is not rounded, and a NaN stays one. -/
instance : Sample Float32 where
  zero := 0
  toByte v := UInt8.ofNat (Sample.shareOf 255 v)
  toSingle v := v
  ofSingle v := if v < 0 then 0 else if v > 1 then 1 else v
  bytes v := Sample.wordBytes (UInt16.ofNat (Sample.shareOf 65535 v))

/-! ### Colour types -/

/-- How many bits a sample has that is a whole number. -/
inductive Depth where
  | eight
  | sixteen
  deriving DecidableEq, Repr

namespace Depth

def bytes : Depth → Nat
  | eight => 1
  | sixteen => 2

def Sample : Depth → Type
  | eight => UInt8
  | sixteen => UInt16

instance (depth : Depth) : ImagePipeline.Sample depth.Sample :=
  match depth with
  | eight => inferInstanceAs (ImagePipeline.Sample UInt8)
  | sixteen => inferInstanceAs (ImagePipeline.Sample UInt16)

end Depth

/-- The ten colour types: any layout with samples that are whole numbers, and colours, with alpha or
without, whose samples are floating-point numbers. -/
inductive ColourType where
  | whole (layout : Layout) (depth : Depth)
  | float (hasAlpha : Bool)
  deriving DecidableEq, Repr

namespace ColourType

def layout : ColourType → Layout
  | whole layout _ => layout
  | float false => .rgb
  | float true => .rgba

/-- The depth in which samples are written down. -/
def depth : ColourType → Depth
  | whole _ depth => depth
  | float _ => .sixteen

def Sample : ColourType → Type
  | whole _ depth => depth.Sample
  | float _ => Float32

instance (colour : ColourType) : ImagePipeline.Sample colour.Sample :=
  match colour with
  | whole _ depth => inferInstanceAs (ImagePipeline.Sample depth.Sample)
  | float _ => inferInstanceAs (ImagePipeline.Sample Float32)

abbrev Pixel (colour : ColourType) : Type := Vector colour.Sample colour.layout.channels

end ColourType

def Layout.toRgba {α : Type} [Sample α] (layout : Layout) (p : Vector α layout.channels) : Rgba :=
  match layout with
  | .grey => let v := Sample.toByte p[0]; ⟨v, v, v, 255⟩
  | .greyAlpha => let v := Sample.toByte p[0]; ⟨v, v, v, Sample.toByte p[1]⟩
  | .rgb => ⟨Sample.toByte p[0], Sample.toByte p[1], Sample.toByte p[2], 255⟩
  | .rgba =>
    ⟨Sample.toByte p[0], Sample.toByte p[1], Sample.toByte p[2], Sample.toByte p[3]⟩

def ColourType.toRgba (colour : ColourType) (p : colour.Pixel) : Rgba := colour.layout.toRgba p

def Rgba.colour (c : Rgba) : Rgb := ⟨c.red, c.green, c.blue⟩

def Rgb.samples (c : Rgb) : Vector UInt8 3 := #v[c.red, c.green, c.blue]

def Rgba.samples (c : Rgba) : Vector UInt8 4 := #v[c.red, c.green, c.blue, c.alpha]

/-! ### Pictures -/

structure Picture where
  colour : ColourType
  raster : Raster colour.Pixel

namespace Picture

def layout (p : Picture) : Layout := p.colour.layout

def depth (p : Picture) : Depth := p.colour.depth

def width (p : Picture) : UInt32 := p.raster.width

def height (p : Picture) : UInt32 := p.raster.height

def hasAlpha (p : Picture) : Bool := p.layout.hasAlpha

def shape (p : Picture) : Shape := ⟨p.width, p.height, p.hasAlpha⟩

def isEmpty (p : Picture) : Bool := p.shape.isEmpty

def ofRgb (r : Raster Rgb) : Picture := ⟨.whole .rgb .eight, r.map Rgb.samples⟩

def ofRgba (r : Raster Rgba) : Picture := ⟨.whole .rgba .eight, r.map Rgba.samples⟩

def toRgba (p : Picture) : Raster Rgba := p.raster.map p.colour.toRgba

/-- A copy in colours; opacity is dropped. -/
def toRgb (p : Picture) : Raster Rgb := p.toRgba.map Rgba.colour

def eightBit (p : Picture) (keepAlpha : Bool) : Picture :=
  if keepAlpha && p.hasAlpha then ofRgba p.toRgba else ofRgb p.toRgb

def nothing : Picture := ofRgba (Raster.uniform 0 0 Rgba.transparent)

def bytes (p : Picture) : List UInt8 :=
  p.raster.pixels.toList.flatMap fun s => s.toList.flatMap Sample.bytes

end Picture

end ImagePipeline
