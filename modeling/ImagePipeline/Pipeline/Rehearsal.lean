import ImagePipeline.Geometry.Scale
import ImagePipeline.Pipeline.Backend

/-!
# Rehearsals

A rehearsal is a backend without pixels: its handle is a `Sketch`, which only keeps sides, alpha and
container, with a mark once it is closed. Every call it is told to refuse fails, all others change
the sketch the way they would change an image. A watermark on a sketch without alpha is turned away
before that, and is the one call that is not noted down (`Sketch.noted`).
-/

namespace ImagePipeline

structure Sketch where
  shape : Shape
  format : ImageType
  deriving DecidableEq, Repr

namespace Sketch

def withSides (s : Sketch) (width height : UInt32) : Sketch :=
  { s with shape := { s.shape with width := width, height := height } }

section

variable {σ : Type} [Scale σ]

def after (s : Sketch) : Edit σ → Sketch
  | .resize scale _ =>
    s.withSides (Scale.saturating scale s.shape.width) (Scale.saturating scale s.shape.height)
  | .resizeAxes hscale vscale _ =>
    s.withSides (Scale.saturating hscale s.shape.width) (Scale.saturating vscale s.shape.height)
  | .thumbnail width height _ _ => s.withSides width height
  | .embed _ _ width height _ => s.withSides width height
  | .addAlpha => { s with shape := { s.shape with hasAlpha := true } }
  | .watermark _ => s
  | .blur .. => s

omit [Scale σ] in
/-- A change that is not turned away before it is noted down. -/
def takes (s : Sketch) : Edit σ → Bool
  | .watermark _ => s.shape.hasAlpha
  | _ => true

/-- What is noted down of calls that are made of a sketch one after the other, some of which are
refused. -/
def noted (refuse : Call σ → Option BackendError) : List (Call σ) → Sketch → List (Call σ)
  | [], _ => []
  | .edit change :: rest, s =>
    if !s.takes change then noted refuse rest s
    else if (refuse (.edit change)).isSome then .edit change :: noted refuse rest s
    else .edit change :: noted refuse rest (s.after change)
  | call :: rest, s => call :: noted refuse rest s

end

/-- The container that a rehearsed encoding claims; without a format of its own it is the
source's, known or not. -/
def claimed (s : Sketch) : OutputFormat → ImageType
  | .native => s.format
  | format => format.container s.format

end Sketch

/-- A sketch that is being rehearsed with. -/
structure Rehearsed where
  sketch : Sketch
  closed : Bool := false
  deriving DecidableEq, Repr

/-- The backend that holds a sketch and refuses the calls it is told to refuse. -/
def rehearsal {σ : Type} [Scale σ] (source : Sketch) (refuse : Call σ → Option BackendError) :
    Backend σ where
  Handle := Rehearsed
  Body := Unit
  load bytes :=
    match refuse (.load bytes.size) with
    | some e => .error e
    | none => .ok { sketch := source }
  shape r := r.sketch.shape
  format r := r.sketch.format
  edit change r :=
    if !r.sketch.takes change then .error .needsAlpha
    else
      match refuse (.edit change) with
      | some e => .error e
      | none => .ok { r with sketch := r.sketch.after change }
  encode format quality r :=
    match refuse (.encode format quality) with
    | some e => .error e
    | none => .ok ⟨r.sketch.claimed format, r.sketch.shape.width, r.sketch.shape.height, ()⟩
  close r := { r with closed := true }

end ImagePipeline
