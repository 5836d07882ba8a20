import ImagePipeline.Number.Conversion
import ImagePipeline.Number.Rounding
import ImagePipeline.Picture.Basic

/-!
# Blurring

A blur replaces every sample by a weighted mean along its row and then along its column. The
weights are those of a sampled normal distribution (`Blur.taps`), cut off where they become too
small to matter (`Blur.halfWidth`); beyond the edge of the picture its outermost pixels go on.
Results of either pass are cut down to whole samples.
-/

namespace ImagePipeline

namespace Blur

/-- The functions on doubles that a blur takes from the platform. -/
structure Platform where
  exp : Float → Float := Float.exp
  log : Float → Float := Float.log

/-- The distance of the furthest tap: the last whole one at which the weight is still
`minAmplitude`, three standard deviations when every weight will do, and at least 1. -/
def halfWidth (sigma minAmplitude : Float) (platform : Platform := {}) : Nat :=
  let half :=
    if minAmplitude ≤ 0 then Number.ceiling (3 * sigma)
    else if minAmplitude ≥ 1 then 0
    else Number.floor (sigma * (-2 * platform.log minAmplitude).sqrt)
  max half 1

def divisor (sigma : Float) : Float := 2 * sigma * sigma

def positions (half : Nat) : List Int :=
  (List.range (2 * half + 1)).map fun i => Int.ofNat i - Int.ofNat half

/-- The square of a position, as 64-bit numbers have it: it wraps around when it is too large. -/
def square (x : Int) : Int64 := Int64.ofInt x * Int64.ofInt x

def weight (sigma : Float) (x : Int) (platform : Platform := {}) : Float :=
  platform.exp (-Number.ofInt64 (square x) / divisor sigma)

def taps (sigma : Float) (half : Nat) (platform : Platform := {}) : List Float32 :=
  let weights := (positions half).map fun x => weight sigma x platform
  let total := weights.foldl (fun a w => a + w) 0
  weights.map fun w => Number.toSingle (w / total)

/-- The whole sample of a mean: the fraction is dropped, and what lies outside the range is
brought to its end. -/
def toSample (v : Float32) : UInt8 :=
  if v < 255 then (if v > 0 then UInt8.ofNat v.toUInt64.toNat else 0) else 255

def inside (side : Nat) (i : Int) : Nat := min i.toNat (side - 1)

section

variable {n : Nat}

def mean (taps : List Float32) (half : Nat) (centre : Nat) (pixel : Int → Vector UInt8 n) :
    Vector UInt8 n :=
  let start : Int := Int.ofNat centre - Int.ofNat half
  let sum := taps.foldl
    (fun (acc : Vector Float32 n × Int) w =>
      (acc.1.zipWith (fun a s => a + Sample.toSingle s * w) (pixel acc.2), acc.2 + 1))
    (Vector.replicate n 0, start)
  sum.1.map toSample

def pixelInside (r : Raster (Vector UInt8 n)) (x y : Int) : Vector UInt8 n :=
  (r.get? (inside r.width.toNat x) (inside r.height.toNat y)).getD (Vector.replicate n 0)

def rows (taps : List Float32) (half : Nat) (r : Raster (Vector UInt8 n)) :
    Raster (Vector UInt8 n) :=
  Raster.generate r.width r.height fun x y => mean taps half x fun i => pixelInside r i y

def columns (taps : List Float32) (half : Nat) (r : Raster (Vector UInt8 n)) :
    Raster (Vector UInt8 n) :=
  Raster.generate r.width r.height fun x y => mean taps half y fun i => pixelInside r x i

def raster (taps : List Float32) (half : Nat) (r : Raster (Vector UInt8 n)) :
    Raster (Vector UInt8 n) :=
  columns taps half (rows taps half r)

end

/-- The half-width used for a picture of the given shape: never beyond its longer side. -/
def halfWidthFor (shape : Shape) (sigma minAmplitude : Float) (platform : Platform := {}) : Nat :=
  min (halfWidth sigma minAmplitude platform) (max (max shape.width.toNat shape.height.toNat) 1)

end Blur

/-- The blurred picture. A picture of eight bits keeps its colour type, any other one becomes an
eight-bit colour picture first. -/
def Picture.blurred (p : Picture) (sigma minAmplitude : Float) : Picture :=
  let half := Blur.halfWidthFor p.shape sigma minAmplitude
  let taps := Blur.taps sigma half
  match p with
  | ⟨.whole layout .eight, raster⟩ => ⟨.whole layout .eight, Blur.raster taps half raster⟩
  | _ =>
    if p.hasAlpha then
      ⟨.whole .rgba .eight, Blur.raster taps half (p.toRgba.map Rgba.samples)⟩
    else ⟨.whole .rgb .eight, Blur.raster taps half (p.toRgb.map Rgb.samples)⟩

end ImagePipeline
