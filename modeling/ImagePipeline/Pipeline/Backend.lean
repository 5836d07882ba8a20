import ImagePipeline.Edit
import ImagePipeline.Failure
import ImagePipeline.Format
import ImagePipeline.Geometry.Shape

/-!
# Backends

A backend is whatever can hold an image: it decodes bytes into a handle, says what the handle
looks like, changes it, and encodes it. Every use of a backend is a `Call`, so a run is described
by the list of the calls made.
-/

namespace ImagePipeline

/-- An encoded image: its container, its sides and its content. -/
structure Encoded (β : Type) where
  format : ImageType
  width : UInt32
  height : UInt32
  body : β

inductive Call (σ : Type) where
  | load (bytes : Nat)
  | edit (change : Edit σ)
  | encode (format : OutputFormat) (quality : Quality)
  | close

def Call.name {σ : Type} : Call σ → String
  | .load _ => "load"
  | .edit change => change.name
  | .encode .. => "encode"
  | .close => "close"

/-- The answer to a watermark that is to be drawn where there is no alpha channel. -/
def BackendError.needsAlpha : BackendError := .processingFailed "watermark needs an alpha channel"

structure Backend (σ : Type) where
  Handle : Type
  Body : Type
  load : ByteArray → Except BackendError Handle
  shape : Handle → Shape
  format : Handle → ImageType
  edit : Edit σ → Handle → Except BackendError Handle
  encode : OutputFormat → Quality → Handle → Except BackendError (Encoded Body)
  close : Handle → Handle

end ImagePipeline
