import ImagePipeline.Edit
import ImagePipeline.Geometry.Scale
import ImagePipeline.Geometry.Shape
import ImagePipeline.Options.Resize

/-!
# Planning a resize

`ResizeOptions.plan` turns the options of a resize and the shape of an image into a list of
geometry steps. Factors stay exact fractions. Each mode has a planner of its own:

* `pad` scales by the smaller factor and embeds the result in the centre of a canvas of the box;
* `fill` covers the box and crops the centre;
* `fixed` stretches to the box, or scales along the one side that is known;
* `mfit` scales by the larger factor of the two sides;
* the default mode scales by the smaller factor.

With the limit on, a resize that would enlarge the image plans nothing. Without box and edges the
percentage is a factor for both sides.
-/

namespace ImagePipeline

inductive GeometryStep where
  | resize (scale : Rat) (kernel : Kernel)
  | resizeAxes (hscale vscale : Rat) (kernel : Kernel)
  | thumbnail (width height : UInt32) (interest : Interest) (sizing : Sizing)
  /-- Places the image in the centre of a canvas, whatever its size is by then. -/
  | embedCentered (width height : UInt32) (background : Background)
  deriving DecidableEq

inductive PlanError where
  | emptySource
  | noTarget
  deriving DecidableEq, Repr

def PlanError.message : PlanError → String
  | .emptySource => "resize: source image has no pixels"
  | .noTarget => "Missing required param"

def ProcessError.ofPlan (e : PlanError) : ProcessError := .param e.message

/-- When one value is zero, it takes the other's. -/
def coalesce {α : Type} [DecidableEq α] [OfNat α 0] (a b : α) : α × α :=
  if a = 0 then (b, b) else if b = 0 then (a, a) else (a, b)

/-- The box a resize aims at; a side of zero is not known. -/
structure TargetBox where
  w : UInt32
  h : UInt32
  deriving DecidableEq, Repr

namespace TargetBox

/-- The box of the options, or else the one that the long edge `l` and the short edge `s` make:
the long edge lies along the width of an image that is wider than high, along the height of any
other. -/
def ofEdges (w h l s : UInt32) (source : Shape) : TargetBox :=
  if w > 0 ∨ h > 0 then ⟨w, h⟩
  else if source.height < source.width then ⟨l, s⟩
  else ⟨s, l⟩

def coalesced (b : TargetBox) : TargetBox :=
  let (w, h) := coalesce b.w b.h
  ⟨w, h⟩

def filledFrom (b : TargetBox) (source : Shape) : TargetBox :=
  ⟨if b.w = 0 then source.width else b.w, if b.h = 0 then source.height else b.h⟩

def shrinksAny (b : TargetBox) (source : Shape) : Bool :=
  (b.w > 0 && b.w < source.width) || (b.h > 0 && b.h < source.height)

def shrinksBoth (b : TargetBox) (source : Shape) : Bool :=
  b.w < source.width && b.h < source.height

def wscale (b : TargetBox) (source : Shape) : Rat := Scale.ratio b.w source.width

def hscale (b : TargetBox) (source : Shape) : Rat := Scale.ratio b.h source.height

end TargetBox

namespace ResizeOptions

def box (o : ResizeOptions) (source : Shape) : TargetBox :=
  TargetBox.ofEdges o.w o.h o.l o.s source

/-- The background of a padded canvas: the colour asked for, else transparency under an image with
alpha and white under any other. -/
def padBackground (o : ResizeOptions) (source : Shape) : Background :=
  match o.colour with
  | some c => .colour c
  | none => if source.hasAlpha then .extended else .white

/-- Scale into the box, then place in the centre of a canvas of the box; the limit is ignored. -/
def planPad (o : ResizeOptions) (source : Shape) : List GeometryStep :=
  let b := (o.box source).coalesced
  let scale := Scale.smaller (b.wscale source) (b.hscale source)
  [.resizeAxes scale scale .linear, .embedCentered b.w b.h (o.padBackground source)]

/-- Cover the box and crop the centre; limited to boxes that shrink some side. -/
def planFill (o : ResizeOptions) (source : Shape) : List GeometryStep :=
  let b := (o.box source).coalesced
  if b.shrinksAny source || !o.limit then [.thumbnail b.w b.h .centre .both] else []

/-- Stretch to the box, limited to boxes that shrink both sides; with one known side, scale along
that side. -/
def planFixed (o : ResizeOptions) (source : Shape) : List GeometryStep :=
  let b := o.box source
  if b.w > 0 && b.h > 0 then
    if b.shrinksBoth source || !o.limit then [.thumbnail b.w b.h .all .force] else []
  else if b.shrinksAny source || !o.limit then
    let (wscale, hscale) := coalesce (b.wscale source) (b.hscale source)
    let scale := Scale.smaller wscale hscale
    [.resizeAxes scale scale .linear]
  else []

/-- Scale by the larger factor, edges completing each other; limited to boxes inside the
source. -/
def planMfit (o : ResizeOptions) (source : Shape) : List GeometryStep :=
  let (l, s) := coalesce o.l o.s
  let b := TargetBox.ofEdges o.w o.h l s source
  let inside := (b.w > 0 || b.h > 0) && b.shrinksBoth source
  if inside || !o.limit then
    [.resize (Scale.larger (b.wscale source) (b.hscale source)) .linear]
  else []

/-- Scale by the smaller factor, a missing side being the source's; limited to boxes that shrink
some side. -/
def planDefault (o : ResizeOptions) (source : Shape) : List GeometryStep :=
  let b := o.box source
  if b.shrinksAny source || !o.limit then
    let b := b.filledFrom source
    [.resize (Scale.smaller (b.wscale source) (b.hscale source)) .linear]
  else []

def planMode (o : ResizeOptions) (source : Shape) : List GeometryStep :=
  match o.mode with
  | .pad => o.planPad source
  | .fill => o.planFill source
  | .fixed => o.planFixed source
  | .mfit => o.planMfit source
  | .default => o.planDefault source

/-- The geometry steps of a resize; an empty plan means that the limit suppresses it. -/
def plan (o : ResizeOptions) (source : Shape) : Except PlanError (List GeometryStep) :=
  if source.isEmpty then .error .emptySource
  else if o.hasEdges then .ok (o.planMode source)
  else if o.p > 0 then .ok [.resize (Scale.percent o.p) .linear]
  else .error .noTarget

end ResizeOptions

/-- The offset that centres a length inside another, negative when it overflows; half a pixel goes
toward the start. -/
def centeredOffset (target current : UInt32) : Int :=
  Int.tdiv ((target.toNat : Int) - (current.toNat : Int)) 2

end ImagePipeline
