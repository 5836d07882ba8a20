import ImagePipeline.Edit
import ImagePipeline.Geometry.Scale
import ImagePipeline.Geometry.Shape

/-!
# The geometry of thumbnails

A thumbnail is stretched to its box, fitted into it, or made to cover it and cropped to its centre.
`Thumbnail.sides` are the sides after the scaling and before the crop; `Thumbnail.bound`, from which
it is decided whether a thumbnail is too large, rounds up where they are rounded to nearest. For an
image that has pixels both come from one factor (`factor?_eq_factor`); where a side is missing, the
bound takes it for one, and the scaling needs an infinite factor for it.
-/

namespace ImagePipeline.Thumbnail

/-- The ratio of a side of the box to a side of the image, which counts as one at least. -/
def ratio (box side : UInt32) : Rat := Scale.ratio box (if side = 0 then 1 else side)

/-- The factor that fits an image into a box, or makes it cover the box and keep its centre. -/
def factor (interest : Interest) (shape : Shape) (width height : UInt32) : Rat :=
  let across := ratio width shape.width
  let down := ratio height shape.height
  match interest with
  | .centre => Scale.larger across down
  | .all => Scale.smaller across down

/-- The ratio of a side of the box to a side of the image; to a missing side it is infinite. -/
def ratio? (box side : UInt32) : Option Rat :=
  if side = 0 then none else some (Scale.ratio box side)

/-- The factor by which an image is scaled for a box: the smaller or the larger of the two ratios,
where an infinite one is larger than all others. -/
def factor? (interest : Interest) (shape : Shape) (width height : UInt32) : Option Rat :=
  match interest, ratio? width shape.width, ratio? height shape.height with
  | .centre, some across, some down => some (Scale.larger across down)
  | .centre, _, _ => none
  | .all, some across, some down => some (Scale.smaller across down)
  | .all, some across, none => some across
  | .all, none, down => down

/-- With pixels there is a finite factor, the one that the bound is made with. -/
theorem factor?_eq_factor {interest : Interest} {shape : Shape} {width height : UInt32}
    (across : shape.width ≠ 0) (down : shape.height ≠ 0) :
    factor? interest shape width height = some (factor interest shape width height) := by
  cases interest <;> simp [factor?, factor, ratio?, ratio, across, down]

/-- A side after scaling; an infinite factor takes a side as far as a side can go and leaves a
missing one at the least side. -/
def side {σ : Type} [Scale σ] (factor : Option σ) (n : UInt32) : UInt32 :=
  match factor with
  | some factor => Scale.side factor n
  | none => if n = 0 then 1 else UInt32.ofNat Number.maxUInt32

def sides (σ : Type) [Scale σ] (shape : Shape) (width height : UInt32) (interest : Interest) :
    UInt32 × UInt32 :=
  let factor : Option σ := (factor? interest shape width height).map Scale.ofRatio
  (side factor shape.width, side factor shape.height)

def bound (σ : Type) [Scale σ] (shape : Shape) (width height : UInt32) (interest : Interest)
    (sizing : Sizing) : Nat × Nat :=
  match sizing with
  | .force => (width.toNat, height.toNat)
  | .both =>
    let factor : σ := Scale.ofRatio (factor interest shape width height)
    (Scale.cover factor shape.width, Scale.cover factor shape.height)

/-- The corner at which a box is cut out of an image that covers it: half of what is left over on
the one side that is longer. -/
def corner (covering : UInt32 × UInt32) (width height : UInt32) : UInt32 × UInt32 :=
  if width.toNat * covering.2.toNat > covering.1.toNat * height.toNat then
    (0, (covering.2 - height) / 2)
  else ((covering.1 - width) / 2, 0)

end ImagePipeline.Thumbnail
