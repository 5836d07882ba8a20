import ImagePipeline.Picture.Basic
import ImagePipeline.Watermark.Extent
import ImagePipeline.Watermark.Rotation

/-!
# Drawing a watermark

A tile is the text in a colour, rotated, with transparent pixels around it. It is blended onto a
canvas once, in the top left corner, or again and again over the whole canvas
(`Watermark.composite`).
-/

namespace ImagePipeline

namespace Watermark

/-! ### Text -/

/-- The corners of the blocks of ink that a text is made of; a block is one bit of a bitmap. -/
def inkBlocks (text : List Char) (scale : Nat) : List (Nat × Nat) :=
  text.zipIdx.flatMap fun (c, index) =>
    (Glyph.ink c).map fun (column, row) =>
      (index * (Glyph.cell * scale + scale) + column * scale, row * scale)

/-- The text on a transparent raster of exactly its size; nothing when a side would not fit in 32
bits. -/
def drawText (text : String) (scale : Nat) (colour : Rgba) : Option (Raster Rgba) :=
  let chars := text.toList
  let (width, height) := textExtent chars.length scale
  if width ≤ Number.maxUInt32 ∧ height ≤ Number.maxUInt32 then
    let blank := Raster.uniform (UInt32.ofNat width) (UInt32.ofNat height) Rgba.transparent
    some ((inkBlocks chars scale).foldl (fun r (x, y) => r.fill colour x y scale scale) blank)
  else none

/-! ### Tiles -/

/-- The byte of an opacity between 0 and 1; a NaN is nothing. -/
def opacityByte (opacity : Float32) : UInt8 :=
  let x := if opacity < 0 then 0 else if opacity > 1 then 1 else opacity
  UInt8.ofNat (Number.nearest32 (x * 255))

def ink (params : WatermarkParams) : Rgba :=
  ⟨params.colour.red, params.colour.green, params.colour.blue, opacityByte params.opacity⟩

/-- The block with transparent pixels on all sides; nothing when a side would not fit in 32 bits. -/
def addMargin (block : Raster Rgba) (margin : UInt32) : Option (Raster Rgba) :=
  let width := block.width.toNat + 2 * margin.toNat
  let height := block.height.toNat + 2 * margin.toNat
  if 2 * margin.toNat ≤ Number.maxUInt32 ∧ width ≤ Number.maxUInt32 ∧ height ≤ Number.maxUInt32 then
    let blank := Raster.uniform (UInt32.ofNat width) (UInt32.ofNat height) Rgba.transparent
    some (blank.stamp (fun _ p => p) block margin.toNat margin.toNat)
  else none

/-- The tile of a watermark with its rotation done by a given family of rotors. -/
def renderTileWith (rotor : Nat → Rotor) (params : WatermarkParams) : Option (Raster Rgba) := do
  let text ← drawText params.text (glyphScale params.fontSize params.dpi) (ink params)
  let rotated :=
    if isUpright params.rotate then text
    else Rotation.expand (rotor (params.rotate.toInt % 360).toNat) text
  addMargin rotated params.margin

def renderTile (params : WatermarkParams) : Option (Raster Rgba) :=
  renderTileWith Rotor.ofDegrees params

/-! ### Blending -/

def share (b : UInt8) : Float32 := b.toNat.toUInt64.toFloat32 / 255

/-- A share as a byte; the fraction is dropped. -/
def shareByte (s : Float32) : UInt8 := UInt8.ofNat (255 * s).toUInt64.toNat

/-- A pixel laid over another: a transparent one changes nothing, an opaque one covers, and in
between both count with their opacity. -/
def blend (below above : Rgba) : Rgba :=
  if above.alpha = 0 then below
  else if above.alpha = 255 then above
  else
    let ua := share below.alpha
    let oa := share above.alpha
    let alpha := ua + oa - ua * oa
    if alpha == 0 then below
    else
      let channel (u o : UInt8) : UInt8 :=
        shareByte ((share o * oa + share u * ua * (1 - oa)) / alpha)
      ⟨channel below.red above.red, channel below.green above.green,
        channel below.blue above.blue, shareByte alpha⟩

def multiples (step bound : Nat) : List Nat :=
  (List.range ((bound + step - 1) / step)).map fun k => k * step

def corners (canvas tile : Raster Rgba) : List (Nat × Nat) :=
  (multiples (max tile.height.toNat 1) canvas.height.toNat).flatMap fun y =>
    (multiples (max tile.width.toNat 1) canvas.width.toNat).map fun x => (x, y)

def composite (canvas tile : Raster Rgba) (replicate : Bool) : Raster Rgba :=
  if replicate then
    (corners canvas tile).foldl (fun canvas (x, y) => canvas.stamp blend tile x y) canvas
  else canvas.stamp blend tile 0 0

end Watermark

/-- The picture in eight-bit colours with a tile blended onto it. -/
def Picture.watermarked (p : Picture) (tile : Raster Rgba) (replicate : Bool) : Picture :=
  ofRgba (Watermark.composite p.toRgba tile replicate)

end ImagePipeline
