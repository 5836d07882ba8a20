import ImagePipeline.Number.Rounding
import ImagePipeline.Picture.Basic

/-!
# Rotating a block of text

A block is rotated about its centre on a square large enough for it, and the square is cropped to
the rotated block's bounding box. What depends on the angle is kept apart in a `Rotor`: the sides
of the bounding box, and the turning of a square. `Rotor.ofDegrees` computes both in single
precision, pixel by pixel with bilinear interpolation.
-/

namespace ImagePipeline

/-- What a rotation does: the sides of the bounding box of a rotated block, and the turning of a
square about its centre. -/
structure Rotor where
  bounds : UInt32 → UInt32 → UInt32 × UInt32
  turn : Raster Rgba → Raster Rgba

namespace Rotation

/-- The whole side for a measured one: a thousandth of a pixel is forgiven before rounding up. -/
def wholeSide (v : Float32) : UInt32 := Number.clampSide (Number.ceiling32 (v - 0.001))

/-- The bounding box of a rotated block, from the absolute cosine and sine of the angle. -/
def bounds (absCos absSin : Float32) (width height : UInt32) : UInt32 × UInt32 :=
  let w := width.toFloat32
  let h := height.toFloat32
  (wholeSide (w * absCos + h * absSin), wholeSide (w * absSin + h * absCos))

/-- A plane map: the first two rows of a matrix. -/
structure PlaneMap where
  xx : Float32
  xy : Float32
  x0 : Float32
  yx : Float32
  yy : Float32
  y0 : Float32

/-- The map from a place on the turned square to the place that it shows: a rotation about the
centre of a square of the given side. -/
def planeMap (theta : Float32) (side : UInt32) : PlaneMap :=
  let c := theta.cos
  let s := theta.sin
  let centre := side.toFloat32 / 2
  { xx := c
    xy := s
    x0 := (c * (-centre) + s * (-centre)) + centre
    yx := -s
    yy := c
    y0 := ((-s) * (-centre) + c * (-centre)) + centre }

/-- A channel value pressed into a byte; the fraction is dropped. -/
def toByte (v : Float32) : UInt8 :=
  if v < 255 then (if v > 0 then UInt8.ofNat v.toUInt64.toNat else 0) else 255

def mix (weight : Float32) (a b : UInt8) : UInt8 :=
  toByte ((1 - weight) * a.toNat.toUInt64.toFloat32 + weight * b.toNat.toUInt64.toFloat32)

def mixPixels (weight : Float32) (a b : Rgba) : Rgba :=
  ⟨mix weight a.red b.red, mix weight a.green b.green, mix weight a.blue b.blue,
    mix weight a.alpha b.alpha⟩

/-- The pixel at a place between pixels: the mean of the four around it. Where one of them lies
outside, nothing is shown. -/
def sample (square : Raster Rgba) (px py : Float32) : Rgba :=
  let left := px.floor
  let top := py.floor
  let side := square.width.toFloat32
  if left ≥ 0 && left + 1 < side && top ≥ 0 && top + 1 < side then
    let x := left.toUInt64.toNat
    let y := top.toUInt64.toNat
    let pixel (x y : Nat) : Rgba := (square.get? x y).getD Rgba.transparent
    let across := px - left
    let down := py - top
    let upper := mixPixels across (pixel x y) (pixel (x + 1) y)
    let lower := mixPixels across (pixel x (y + 1)) (pixel (x + 1) (y + 1))
    mixPixels down upper lower
  else Rgba.transparent

def turnSquare (theta : Float32) (square : Raster Rgba) : Raster Rgba :=
  let m := planeMap theta square.width
  Raster.generate square.width square.height fun x y =>
    let fx := x.toUInt64.toFloat32
    let fy := y.toUInt64.toFloat32
    sample square (m.xx * fx + m.xy * fy + m.x0) (m.yx * fx + m.yy * fy + m.y0)

def radiansPerDegree : Float32 := 0.017453292519943295

end Rotation

def Rotor.ofDegrees (degrees : Nat) : Rotor :=
  let theta := degrees.toUInt64.toFloat32 * Rotation.radiansPerDegree
  { bounds := Rotation.bounds theta.cos.abs theta.sin.abs
    turn := Rotation.turnSquare theta }

namespace Rotation

def longer (a b : UInt32) : UInt32 := if a ≤ b then b else a

def offset (outer inner : UInt32) : UInt32 := (outer - inner) / 2

/-- The side of the square on which a block is turned: it holds the block and the bounding box. -/
def squareSide (bounds : UInt32 × UInt32) (width height : UInt32) : UInt32 :=
  longer (longer (longer bounds.1 bounds.2) width) height

def expand (rotor : Rotor) (block : Raster Rgba) : Raster Rgba :=
  let bounds := rotor.bounds block.width block.height
  let side := squareSide bounds block.width block.height
  let square := (Raster.uniform side side Rgba.transparent).stamp (fun _ p => p) block
    (offset side block.width).toNat (offset side block.height).toNat
  (rotor.turn square).crop (offset side bounds.1) (offset side bounds.2) bounds.1 bounds.2

end Rotation

end ImagePipeline
