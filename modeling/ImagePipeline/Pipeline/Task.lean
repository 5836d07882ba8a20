import ImagePipeline.Geometry.ResizePlan
import ImagePipeline.Pipeline.Backend
import ImagePipeline.Pipeline.Request

/-!
# Tasks on one handle

A `Task` works on one decoded image. Its `Workbench` holds the handle, the calls made so far and
whether the request has been cancelled. Every call is put on record before it acts, and the
request may be cancelled while a call runs (`Interruption`); a task looks at the cancellation only
where it asks for it (`checkCancelled`). A failed call leaves the handle as the last successful
one left it.
-/

namespace ImagePipeline

/-- When a request is cancelled: before it starts, during the last of the calls made so far, or
between two calls, just before the look at which so many steps are left. -/
structure Interruption (σ : Type) where
  atStart : Bool := false
  during : List (Call σ) → Bool := fun _ => false
  between : Nat → Bool := fun _ => false

def Interruption.never {σ : Type} : Interruption σ := {}

structure Workbench {σ : Type} (B : Backend σ) where
  handle : B.Handle
  calls : List (Call σ)
  cancelled : Bool

abbrev Task {σ : Type} (B : Backend σ) (α : Type) : Type :=
  ExceptT ProcessError (StateM (Workbench B)) α

namespace Task

variable {σ : Type} {B : Backend σ}

/-- Puts a call on record; the request may be cancelled during it. -/
def record (interruption : Interruption σ) (call : Call σ) : Task B Unit :=
  modify fun bench =>
    let calls := bench.calls ++ [call]
    { bench with calls := calls, cancelled := bench.cancelled || interruption.during calls }

/-- Fails once the request has been cancelled, which may happen as late as this; so many steps are
left. -/
def checkCancelled (interruption : Interruption σ) (left : Nat) : Task B Unit := do
  modify fun bench => { bench with cancelled := bench.cancelled || interruption.between left }
  if (← get).cancelled then throw .cancelled

/-- The result of a call, a failure of the backend becoming one of the request. -/
def ofCall {α : Type} (result : Except BackendError α) : Task B α :=
  match result with
  | .ok a => pure a
  | .error e => throw (.ofBackend e)

def perform (interruption : Interruption σ) (change : Edit σ) : Task B Unit := do
  record interruption (.edit change)
  let handle ← ofCall (B.edit change (← get).handle)
  modify fun bench => { bench with handle := handle }

def changeOf [Scale σ] (shape : Shape) : GeometryStep → Edit σ
  | .resize scale kernel => .resize (Scale.ofRatio scale) kernel
  | .resizeAxes hscale vscale kernel =>
    .resizeAxes (Scale.ofRatio hscale) (Scale.ofRatio vscale) kernel
  | .thumbnail width height interest sizing => .thumbnail width height interest sizing
  | .embedCentered width height background =>
    .embed (centeredOffset width shape.width) (centeredOffset height shape.height) width height
      background

def followPlan [Scale σ] (interruption : Interruption σ) : List GeometryStep → Task B Unit
  | [] => pure ()
  | step :: rest => do
    perform interruption (changeOf (B.shape (← get).handle) step)
    followPlan interruption rest

/-- Carries out a resize; one that the limit suppresses makes no call. -/
def resize [Scale σ] (interruption : Interruption σ) (options : ResizeOptions) : Task B Unit := do
  match options.plan (B.shape (← get).handle) with
  | .ok steps => followPlan interruption steps
  | .error e => throw (.ofPlan e)

def watermark (interruption : Interruption σ) (params : WatermarkParams) : Task B Unit := do
  if !(B.shape (← get).handle).hasAlpha then perform interruption .addAlpha
  perform interruption (.watermark params)

def blur (interruption : Interruption σ) (options : BlurOptions) : Task B Unit :=
  perform interruption (.blur options.sigma options.minAmplitude)

def step [Scale σ] (interruption : Interruption σ) : Step → Task B Unit
  | .resize options => resize interruption options
  | .watermark params => watermark interruption params
  | .blur options => blur interruption options

/-- Carries out the steps in order, unless the request is cancelled in between. -/
def steps [Scale σ] (interruption : Interruption σ) : List Step → Task B Unit
  | [] => pure ()
  | s :: rest => do
    checkCancelled interruption (rest.length + 1)
    step interruption s
    steps interruption rest

def encode (interruption : Interruption σ) (requested : Option OutputFormat) (quality : Quality) :
    Task B (Encoded B.Body) := do
  let handle := (← get).handle
  let format := OutputFormat.resolve requested (B.format handle)
  record interruption (.encode format quality)
  ofCall (B.encode format quality handle)

end Task

end ImagePipeline
