import ImagePipeline.Descriptor
import ImagePipeline.Options.Blur
import ImagePipeline.Options.Format
import ImagePipeline.Options.Resize
import ImagePipeline.Options.Watermark

/-!
# Requests

A `Request` is a descriptor with every option understood. Reading one needs no image, so whatever
is wrong with a descriptor is known before anything is decoded. `info` makes everything else in
the descriptor void.
-/

namespace ImagePipeline

structure Settings where
  quality : Quality := Quality.best
  dpi : UInt32 := 72
  margin : UInt32 := 20

inductive Step where
  | resize (options : ResizeOptions)
  | watermark (params : WatermarkParams)
  | blur (options : BlurOptions)

def Step.name : Step → String
  | .resize _ => "resize"
  | .watermark _ => "watermark"
  | .blur _ => "blur"

inductive Request where
  | info
  | transform (steps : List Step) (format : Option OutputFormat)

def OptionError.lift {α : Type} : Except OptionError α → Except ProcessError α
  | .ok a => .ok a
  | .error e => .error e.toProcessError

def Operation.step (settings : Settings) (op : Operation) : Except ProcessError Step :=
  match op.name with
  | "resize" => do return .resize (← OptionError.lift (ResizeOptions.parse op))
  | "watermark" => do
    let options ← OptionError.lift (WatermarkOptions.parse op)
    return .watermark (options.toParams settings.dpi settings.margin)
  | "blur" => do return .blur (← OptionError.lift (BlurOptions.parse op))
  | name => .error (.unknownOperation name)

/-- The steps of the operations in order; the leftmost failure is the error. -/
def Operation.steps (settings : Settings) : List Operation → Except ProcessError (List Step)
  | [] => .ok []
  | op :: rest => do
    let step ← op.step settings
    let steps ← Operation.steps settings rest
    return step :: steps

def Descriptor.outputFormat (d : Descriptor) : Except ProcessError (Option OutputFormat) :=
  match d.format with
  | none => .ok none
  | some op => do return some (← OptionError.lift (OutputFormat.parse op))

/-- The request of a descriptor: the operations first, then the format. -/
def Descriptor.plan (settings : Settings) (d : Descriptor) : Except ProcessError Request :=
  if d.info then .ok .info
  else do
    let steps ← Operation.steps settings d.operations
    let format ← d.outputFormat
    return .transform steps format

def Request.read (settings : Settings) (text : String) : Except ProcessError Request :=
  match Descriptor.parse (Descriptor.stripNamespace text) with
  | .error e => .error (.ofDescriptor e)
  | .ok d => d.plan settings

end ImagePipeline
