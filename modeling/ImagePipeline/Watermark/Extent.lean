import ImagePipeline.Edit
import ImagePipeline.Number.Rounding
import ImagePipeline.Watermark.Glyph

/-!
# The size of a watermark tile

How large a tile will be is known before it is drawn: `Watermark.tileExtent` bounds both sides, so
an oversized tile can be refused without making it. Sides are capped at the largest unsigned
64-bit number.
-/

namespace ImagePipeline.Watermark

/-- The pixels along each side of a bitmap bit, for a font size in points and a resolution: the
font size in pixels divided by the size of a bitmap, and at least 1. -/
def glyphScale (fontSize dpi : UInt32) : Nat :=
  max 1 (min (fontSize.toNat * dpi.toNat / 72 / Glyph.cell) Number.maxUInt32)

/-- The sides of unrotated text of so many characters: there is one bit of space between two
characters and none after the last; without characters there is room for one. -/
def textExtent (glyphs scale : Nat) : Nat × Nat :=
  let count := max glyphs 1
  let side := Glyph.cell * scale
  (Number.capped (Number.capped (count * side) + Number.capped ((count - 1) * scale)), side)

def isUpright (degrees : Int32) : Bool := degrees.toInt % 360 = 0

/-- An upper bound of the sides of a tile; rotated text never needs more than the sum of its sides
in either direction. -/
def tileExtent (params : WatermarkParams) : Nat × Nat :=
  let scale := glyphScale params.fontSize params.dpi
  let (w, h) := textExtent params.text.length scale
  let (w, h) :=
    if isUpright params.rotate then (w, h)
    else
      let side := Number.capped (w + h)
      (side, side)
  let pad := 2 * params.margin.toNat
  (Number.capped (w + pad), Number.capped (h + pad))

end ImagePipeline.Watermark
