import ImagePipeline.Colour
import ImagePipeline.Descriptor
import ImagePipeline.Text.Base64

/-!
# Reading the tokens of an operation

Every operation reads its `key_value` tokens from left to right and stops at the first malformed
value (`scan`). Unknown keys are passed over and a later token overrides an earlier one. All ways
in which options can be wrong are listed in `OptionError`.
-/

namespace ImagePipeline

inductive OptionError where
  | invalidValue (operation key value : String)
  | invalidColour (value : String)
  | noTarget
  | missing (what : String)
  | opacityRange (got : UInt32)
  | fillRange (got : UInt32)
  | sizeRange (got : UInt32)
  | textNotBase64 (fault : Base64.Fault)
  | textNotUtf8
  deriving DecidableEq, Repr

/-- The largest font size of a watermark, in points. -/
def maxWatermarkSize : UInt32 := 1000

namespace OptionError

def message : OptionError → String
  | invalidValue operation key value =>
    operation ++ ": invalid value for `" ++ key ++ "`: `" ++ value ++ "`"
  | invalidColour value => "invalid color: `" ++ value ++ "`"
  | noTarget => "resize: one of w, h, l, s, p must be positive"
  | missing what => "Missing required param: " ++ what
  | opacityRange got => "watermark: `t` must be 0-100, got " ++ Text.decimal got.toNat
  | fillRange got => "watermark: `fill` must be 0 or 1, got " ++ Text.decimal got.toNat
  | sizeRange got =>
    "watermark: `size` must be 1-" ++ Text.decimal maxWatermarkSize.toNat ++ ", got "
      ++ Text.decimal got.toNat
  | textNotBase64 fault => "watermark: invalid base64 text: " ++ fault.message
  | textNotUtf8 => "watermark: text is not valid UTF-8"

/-- A value that encodes something else and does not decode is a decoding failure; any other
refusal is a fault of the parameter. -/
def toProcessError (e : OptionError) : ProcessError :=
  match e with
  | invalidColour _ => .decode e.message
  | textNotBase64 _ => .decode e.message
  | textNotUtf8 => .decode e.message
  | _ => .param e.message

end OptionError

namespace Options

/-- Takes the tokens in one after the other and stops at the first malformed value. -/
def scan {α : Type} (take : α → String × String → Except OptionError α) :
    α → List (String × String) → Except OptionError α
  | a, [] => .ok a
  | a, token :: rest => do
    let a ← take a token
    scan take a rest

/-- The value read, or the refusal that names the operation, the key and the value. -/
def valueOf {α : Type} (operation key value : String) (read : Option α) : Except OptionError α :=
  match read with
  | some a => .ok a
  | none => .error (.invalidValue operation key value)

def number (operation key value : String) : Except OptionError UInt32 :=
  valueOf operation key value (Text.uint32? value)

def colour (value : String) : Except OptionError Rgb :=
  match Rgb.ofHex? value with
  | some c => .ok c
  | none => .error (.invalidColour value)

end Options

end ImagePipeline
