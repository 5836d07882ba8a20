import ImagePipeline.Text.Numeral

/-!
# Colours

`Rgb` is an opaque colour, `Rgba` a colour with its opacity; all channels are bytes. Option values
write a colour as exactly six hexadecimal digits (`Rgb.ofHex?`, `Rgb.toHex`).
-/

namespace ImagePipeline

structure Rgb where
  red : UInt8
  green : UInt8
  blue : UInt8
  deriving DecidableEq, Repr

structure Rgba where
  red : UInt8
  green : UInt8
  blue : UInt8
  alpha : UInt8
  deriving DecidableEq, Repr

namespace Rgb

def black : Rgb := ⟨0, 0, 0⟩

def white : Rgb := ⟨255, 255, 255⟩

def solid (c : Rgb) : Rgba := ⟨c.red, c.green, c.blue, 255⟩

def hexByte? (high low : Char) : Option UInt8 := do
  let h ← Text.hexValue? high
  let l ← Text.hexValue? low
  return UInt8.ofNat (h * 16 + l)

/-- Reads exactly six hexadecimal digits, red first. -/
def ofHex? (text : String) : Option Rgb :=
  match text.toList with
  | [r₁, r₀, g₁, g₀, b₁, b₀] => do
    return ⟨← hexByte? r₁ r₀, ← hexByte? g₁ g₀, ← hexByte? b₁ b₀⟩
  | _ => none

/-- Writes six lower-case hexadecimal digits, red first. -/
def toHex (c : Rgb) : String :=
  Text.fixedHex 2 c.red.toNat ++ Text.fixedHex 2 c.green.toNat ++ Text.fixedHex 2 c.blue.toNat

end Rgb

namespace Rgba

/-- Nothing: no colour and no opacity. -/
def transparent : Rgba := ⟨0, 0, 0, 0⟩

end Rgba

end ImagePipeline
