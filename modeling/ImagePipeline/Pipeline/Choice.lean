import ImagePipeline.Options.Resize
import ImagePipeline.Options.Watermark
import ImagePipeline.Pipeline.Request

/-!
# Steps as operations

What a caller writes to get a step: every option stands as a token, numbers in decimal, colours in
six hexadecimal digits, and the text of a watermark in the URL-safe alphabet with as many padding
bytes as the caller likes to put behind it. `StepChoice.step` says what such an operation means.
-/

namespace ImagePipeline

namespace Options

def token (key value : String) : String := key ++ "_" ++ value

def numberToken (key : String) (value : UInt32) : String := token key (Text.decimal value.toNat)

end Options

namespace ResizeOptions

def tokens (o : ResizeOptions) : List String :=
  [ Options.numberToken "w" o.w,
    Options.numberToken "h" o.h,
    Options.numberToken "l" o.l,
    Options.numberToken "s" o.s,
    Options.numberToken "p" o.p,
    Options.numberToken "limit" (if o.limit then 1 else 0),
    Options.token "m" o.mode.name ]
  ++ (o.colour.map fun c => Options.token "color" c.toHex).toList

def toOperation (o : ResizeOptions) : Operation := ⟨"resize", o.tokens⟩

end ResizeOptions

namespace WatermarkOptions

def encodeText (padding : Nat) (text : String) : String :=
  let symbols := Base64.encode .urlSafe text.toUTF8.toList
  String.ofList ((symbols ++ List.replicate padding Base64.padding).map fun b => Char.ofNat b.toNat)

def tokens (padding : Nat) (o : WatermarkOptions) : List String :=
  [ Options.token "text" (encodeText padding o.text),
    Options.numberToken "t" o.t,
    Options.token "rotate" (Text.signedDecimal o.rotate.toInt),
    Options.numberToken "fill" o.fill,
    Options.numberToken "size" o.size,
    Options.token "color" o.colour.toHex ]

def toOperation (padding : Nat) (o : WatermarkOptions) : Operation :=
  ⟨"watermark", o.tokens padding⟩

end WatermarkOptions

def OutputFormat.toOperation (format : OutputFormat) : Operation := ⟨"format", [format.name]⟩

inductive StepChoice where
  | resize (options : ResizeOptions)
  | watermark (options : WatermarkOptions) (padding : Nat)

namespace StepChoice

def toOperation : StepChoice → Operation
  | resize options => options.toOperation
  | watermark options padding => options.toOperation padding

def step (settings : Settings) : StepChoice → Step
  | resize options => .resize options
  | watermark options _ => .watermark (options.toParams settings.dpi settings.margin)

end StepChoice

end ImagePipeline
