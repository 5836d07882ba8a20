import ImagePipeline.Edit
import ImagePipeline.Number.Rounding
import ImagePipeline.Picture.Basic

/-!
# Resampling

A picture is brought to other sides in two passes: first every column to the new height, then
every row to the new width. Each new pixel is a weighted mean of the old ones near it; the weights
come from the filter's `Kernel`. All arithmetic is single precision, every operation rounds, and
sums run from left to right. Means become samples again only after the second pass, so the canvas
between the passes (`Resample.between`) holds single-precision pixels; `Resample.canvases` lists it.
-/

namespace ImagePipeline

namespace Kernel

def pi32 : Float32 := 3.14159265358979323846

def support : Kernel → Float32
  | nearest => 0
  | linear => 1
  | cubic => 2
  | lanczos3 => 3

def sinc (t : Float32) : Float32 :=
  let a := t * pi32
  if t == 0 then 1 else a.sin / a

def weight : Kernel → Float32 → Float32
  | nearest, _ => 1
  | linear, x => if x.abs < 1 then 1 - x.abs else 0
  | cubic, x =>
    let a := x.abs
    let a2 := a * a
    let a3 := a2 * a
    if a < 1 then (9 * a3 - 15 * a2 + 6) / 6
    else if a < 2 then (-3 * a3 + 15 * a2 - 24 * a + 12) / 6
    else 0
  | lanczos3, x => if x.abs < 3 then sinc x * sinc (x / 3) else 0

end Kernel

namespace Resample

structure Taps where
  first : Nat
  weights : Array Float32

def clampInt (x low high : Int) : Int := if x < low then low else if high < x then high else x

def taps (kernel : Kernel) (n m o : Nat) : Taps :=
  let ratio : Float32 := n.toUInt64.toFloat32 / m.toUInt64.toFloat32
  let stretch : Float32 := if ratio < 1 then 1 else ratio
  let reach := kernel.support * stretch
  let centre := (o.toUInt64.toFloat32 + 0.5) * ratio
  let left := clampInt (Number.floorInt32 (centre - reach)) 0 ((n : Int) - 1)
  let right := clampInt (Number.ceilingInt32 (centre + reach)) (left + 1) n
  let middle := centre - 0.5
  let raw := (Array.range (right - left).toNat).map fun k =>
    kernel.weight (((left.toNat + k).toUInt64.toFloat32 - middle) / stretch)
  let total := raw.foldl (fun a w => a + w) 0
  ⟨left.toNat, raw.map fun w => w / total⟩

def Taps.apply {n : Nat} (t : Taps) (pixel : Nat → Vector Float32 n) : Vector Float32 n :=
  (t.weights.foldl
    (fun (acc : Vector Float32 n × Nat) w =>
      (acc.1.zipWith (fun a s => a + s * w) (pixel acc.2), acc.2 + 1))
    (Vector.replicate n 0, t.first)).1

/-- The pixel of a raster, or zeros outside. -/
def pixelOr {n : Nat} (r : Raster (Vector Float32 n)) (x y : Nat) : Vector Float32 n :=
  (r.get? x y).getD (Vector.replicate n 0)

def allTaps (kernel : Kernel) (n m : Nat) : Array Taps :=
  (Array.range m).map fun o => taps kernel n m o

/-- The taps of a position; beyond the last one nothing is picked out. -/
def tapsAt (all : Array Taps) (o : Nat) : Taps := all.getD o ⟨0, #[]⟩

def columns {n : Nat} (kernel : Kernel) (height : UInt32) (r : Raster (Vector Float32 n)) :
    Raster (Vector Float32 n) :=
  let all := allTaps kernel r.height.toNat height.toNat
  Raster.generate r.width height fun x y => (tapsAt all y).apply fun i => pixelOr r x i

def rows {n : Nat} (kernel : Kernel) (width : UInt32) (r : Raster (Vector Float32 n)) :
    Raster (Vector Float32 n) :=
  let all := allTaps kernel r.width.toNat width.toNat
  Raster.generate width r.height fun x y => (tapsAt all x).apply fun i => pixelOr r i y

section

variable {α : Type} [Sample α] {n : Nat}

/-- What the first pass leaves: every column has its new height. -/
def between (kernel : Kernel) (height : UInt32) (r : Raster (Vector α n)) :
    Raster (Vector Float32 n) :=
  columns kernel height (r.map fun p => p.map Sample.toSingle)

/-- The raster brought to new sides; the same sides give a copy, and a raster without pixels one
of zeros. -/
def raster (kernel : Kernel) (width height : UInt32) (r : Raster (Vector α n)) :
    Raster (Vector α n) :=
  if r.width = 0 ∨ r.height = 0 then
    Raster.uniform width height (Vector.replicate n Sample.zero)
  else if r.width = width ∧ r.height = height then r
  else (rows kernel width (between kernel height r)).map fun p => p.map Sample.ofSingle

end

/-- The sides of the canvases that a resampling makes, in the order of their making: the one
between the passes and the result. -/
def canvases (source : Shape) (width height : UInt32) : List (UInt32 × UInt32) :=
  if source.isEmpty ∨ (source.width = width ∧ source.height = height) then [(width, height)]
  else [(source.width, height), (width, height)]

end Resample

/-- The picture brought to new sides; its colour type stays. -/
def Picture.resized (p : Picture) (kernel : Kernel) (width height : UInt32) : Picture :=
  ⟨p.colour, Resample.raster kernel width height p.raster⟩

def Picture.cropped (p : Picture) (x y width height : UInt32) : Picture :=
  ⟨p.colour, p.raster.crop x y width height⟩

/-- The rectangle that is cut out of the picture brought to other sides. Of a picture without pixels
all of it is zero, so that the canvas to cut from is never made, however large it would be. -/
def Picture.resizedWithin (p : Picture) (kernel : Kernel) (sides corner : UInt32 × UInt32)
    (width height : UInt32) : Picture :=
  if p.isEmpty then
    p.resized kernel (Raster.inside corner.1 width sides.1).2
      (Raster.inside corner.2 height sides.2).2
  else (p.resized kernel sides.1 sides.2).cropped corner.1 corner.2 width height

end ImagePipeline
