import ImagePipeline.Container.Bytes
import ImagePipeline.Picture.Basic

/-!
# Sheets

A sheet is what a file says before it becomes a picture: the sides, the layout, the depth, and the
sample bytes, row by row from the top, the channels of a pixel side by side and the high byte of a
sample first. Its size is known without looking at the samples, so an oversized file can be refused
first. Samples that the sheet does not have are zero.
-/

namespace ImagePipeline.Container

structure Sheet where
  width : UInt32
  height : UInt32
  layout : Layout
  depth : Depth
  samples : Bytes

namespace Sheet

def pixelBytes (layout : Layout) (depth : Depth) : Nat := layout.channels * depth.bytes

def size (s : Sheet) : Nat := s.width.toNat * s.height.toNat * pixelBytes s.layout s.depth

/-- The sample that stands at a place among the samples of an array of bytes. -/
def sampleAt (depth : Depth) (bytes : Array UInt8) (i : Nat) : depth.Sample :=
  match depth with
  | .eight => bytes.getD i 0
  | .sixteen =>
    ((bytes.getD (2 * i) 0).toUInt16 * 256 + (bytes.getD (2 * i + 1) 0).toUInt16 : UInt16)

def picture (s : Sheet) : Picture :=
  let bytes := s.samples.toArray
  { colour := .whole s.layout s.depth
    raster := Raster.generate s.width s.height fun x y =>
      Vector.ofFn fun channel : Fin s.layout.channels =>
        sampleAt s.depth bytes ((y * s.width.toNat + x) * s.layout.channels + channel.val) }

end Sheet

end ImagePipeline.Container
