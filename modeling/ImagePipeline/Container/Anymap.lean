import ImagePipeline.Container.Sheet
import ImagePipeline.Text.Numeral

/-!
# Files with plain samples

Two kinds of files hold their samples as they are. A portable anymap has a header of decimal
numbers; read are greymaps (`P5`) and pixmaps (`P6`) whose largest sample is 255. A farbfeld has
two numbers of four bytes as its header and four samples of sixteen bits for each pixel.
-/

namespace ImagePipeline.Container

namespace Anymap

def isBlank (b : UInt8) : Bool := b = 0x20 || (0x09 ≤ b && b ≤ 0x0D)

def isLineEnd (b : UInt8) : Bool := b = 0x0A || b = 0x0D

/-- The bytes of the next number of a header and what follows the one blank behind it; blanks in
front are passed over. A comment reaches from a `#` to the end of its line; the number goes on
behind it as if neither had been there. -/
def word : Bool → Bytes → Bytes → Bytes × Bytes
  | _, taken, [] => (taken.reverse, [])
  | true, taken, b :: rest => word (!isLineEnd b) taken rest
  | false, taken, b :: rest =>
    if b = 0x23 then word true taken rest
    else if !isBlank b then word false (b :: taken) rest
    else if taken.isEmpty then word false [] rest
    else (taken.reverse, rest)

/-- The next number of a header, which consists of digits alone and has 32 bits. -/
def number? (bytes : Bytes) : Option (UInt32 × Bytes) := do
  let (digits, rest) := word false [] bytes
  let n ← Text.digits? (digits.map fun b => Char.ofNat b.toNat)
  if n < UInt32.size then some (UInt32.ofNat n, rest) else none

def layout? : Bytes → Option Layout
  | [0x50, 0x35] => some .grey
  | [0x50, 0x36] => some .rgb
  | _ => none

def read? (file : Bytes) : Option Sheet := do
  let (magic, rest) ← take? 2 file
  let layout ← layout? magic
  let (width, rest) ← number? rest
  let (height, rest) ← number? rest
  let (largest, rest) ← number? rest
  if largest ≠ 255 then none
  else
    let (samples, _) ← take? (width.toNat * height.toNat * layout.channels) rest
    some ⟨width, height, layout, .eight, samples⟩

end Anymap

def Farbfeld.read? (file : Bytes) : Option Sheet := do
  let (_, rest) ← take? 8 file
  let (width, rest) ← take? 4 rest
  let (height, rest) ← take? 4 rest
  let (samples, _) ← take? (bigEndian width * bigEndian height * 8) rest
  some ⟨UInt32.ofNat (bigEndian width), UInt32.ofNat (bigEndian height), .rgba, .sixteen, samples⟩

end ImagePipeline.Container
