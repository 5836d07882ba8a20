import ImagePipeline.Edit
import ImagePipeline.Options.Scan

/-!
# Options of a watermark

The text comes in base64, with or without padding, in either alphabet. Opacity is a percentage,
rotation any number of degrees; `WatermarkOptions.toParams` reduces the rotation to one turn.
-/

namespace ImagePipeline

structure WatermarkOptions where
  text : String := ""
  t : UInt32 := 100
  rotate : Int32 := 0
  fill : UInt32 := 0
  size : UInt32 := 40
  colour : Rgb := Rgb.black
  deriving DecidableEq

namespace WatermarkOptions

def decodeText (value : String) : Except OptionError String :=
  match Base64.decodeAny value.toUTF8.toList with
  | .error fault => .error (.textNotBase64 fault)
  | .ok bytes =>
    match String.fromUTF8? ⟨bytes.toArray⟩ with
    | some text => .ok text
    | none => .error .textNotUtf8

def take (o : WatermarkOptions) : String × String → Except OptionError WatermarkOptions
  | ("text", v) => do return { o with text := ← decodeText v }
  | ("fill", v) => do return { o with fill := ← Options.number "watermark" "fill" v }
  | ("size", v) => do return { o with size := ← Options.number "watermark" "size" v }
  | ("rotate", v) => do
    return { o with
      rotate := Int32.ofInt (← Options.valueOf "watermark" "rotate" v (Text.int32? v)) }
  | ("t", v) => do return { o with t := ← Options.number "watermark" "t" v }
  | ("color", v) => do return { o with colour := ← Options.colour v }
  | _ => .ok o

/-- Refuses an empty text and numbers out of range, in this order: text, opacity, fill, size. -/
def settle (o : WatermarkOptions) : Except OptionError WatermarkOptions :=
  if o.text.isEmpty then .error (.missing "text")
  else if o.t > 100 then .error (.opacityRange o.t)
  else if o.fill > 1 then .error (.fillRange o.fill)
  else if o.size = 0 ∨ o.size > maxWatermarkSize then .error (.sizeRange o.size)
  else .ok o

def ofParams (params : List (String × String)) : Except OptionError WatermarkOptions := do
  settle (← Options.scan take {} params)

def parse (op : Operation) : Except OptionError WatermarkOptions := ofParams op.params

def turn (o : WatermarkOptions) : Int32 := Int32.ofInt (o.rotate.toInt % 360 - 360)

/-- The watermark that the options describe, at a resolution and with a margin. -/
def toParams (o : WatermarkOptions) (dpi margin : UInt32) : WatermarkParams where
  text := o.text
  fontSize := o.size
  dpi := dpi
  opacity := o.t.toFloat32 / 100
  rotate := o.turn
  replicate := o.fill != 1
  margin := margin
  colour := o.colour

end WatermarkOptions

end ImagePipeline
