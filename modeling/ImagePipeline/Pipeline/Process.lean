import ImagePipeline.Pipeline.Task

/-!
# Running a request

`process` reads the descriptor, decodes the source, carries out the steps and encodes the result.
The descriptor is understood completely before the source is decoded. A handle that was opened is
closed again as the very last call, whatever happens in between. The request's cancellation is
looked at before decoding, before every step and before encoding; a call that runs is never
interrupted.
-/

namespace ImagePipeline

structure ImageInfo where
  fileSize : Nat
  format : ImageType
  height : UInt32
  width : UInt32
  deriving DecidableEq, Repr

inductive Output (β : Type) where
  | image (encoded : Encoded β)
  | info (report : ImageInfo)

/-- A finished run: the calls made, and the answer. -/
structure Run {σ : Type} (B : Backend σ) where
  calls : List (Call σ)
  result : Except ProcessError (Output B.Body)

namespace Request

variable {σ : Type} {B : Backend σ} [Scale σ]

def work (request : Request) (settings : Settings) (interruption : Interruption σ)
    (bytes : Nat) : Task B (Output B.Body) := do
  match request with
  | .info =>
    let handle := (← get).handle
    let shape := B.shape handle
    return .info ⟨bytes, B.format handle, shape.height, shape.width⟩
  | .transform steps format =>
    Task.steps interruption steps
    Task.checkCancelled interruption 0
    return .image (← Task.encode interruption format settings.quality)

end Request

def process {σ : Type} [Scale σ] (B : Backend σ) (settings : Settings)
    (interruption : Interruption σ) (source : ByteArray) (descriptor : String) : Run B :=
  match Request.read settings descriptor with
  | .error e => ⟨[], .error e⟩
  | .ok request =>
    if interruption.atStart then ⟨[], .error .cancelled⟩
    else
      let calls := [Call.load source.size]
      match B.load source with
      | .error e => ⟨calls, .error (.ofBackend e)⟩
      | .ok handle =>
        let work : Task B (Output B.Body) := request.work settings interruption source.size
        let (result, bench) := work.run.run ⟨handle, calls, interruption.during calls⟩
        ⟨bench.calls ++ [.close], result⟩

end ImagePipeline
