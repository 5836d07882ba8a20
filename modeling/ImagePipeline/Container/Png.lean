import ImagePipeline.Container.Sheet

/-!
# PNG files

A PNG file is a sequence of chunks behind an eight-byte signature. The first chunk describes the
picture, and a run of data chunks holds its rows as a compressed stream. Read are pictures of eight
or sixteen bits that are not interlaced, with rows that stand unfiltered in stored blocks. Up to the
data a reader has to know every chunk that is critical; something that begins like a chunk has to
follow the data, but nothing behind it is looked at. The stream may end early or late once all rows
are there. Written files (`write`) have one data chunk, whose rows stand unfiltered in stored blocks
as well.
-/

namespace ImagePipeline.Container.Png

/-! ### Chunks -/

def crcBit (c : UInt32) : UInt32 :=
  if c &&& 1 = 1 then (c >>> 1) ^^^ 0xEDB88320 else c >>> 1

def crcByte (c : UInt32) (b : UInt8) : UInt32 :=
  (List.range 8).foldl (fun c _ => crcBit c) (c ^^^ b.toUInt32)

def crc32 (bytes : Bytes) : UInt32 := bytes.foldl crcByte 0xFFFFFFFF ^^^ 0xFFFFFFFF

def headerKind : Bytes := [0x49, 0x48, 0x44, 0x52]

def paletteKind : Bytes := [0x50, 0x4C, 0x54, 0x45]

def dataKind : Bytes := [0x49, 0x44, 0x41, 0x54]

structure Chunk where
  kind : Bytes
  data : Bytes

/-- Whether a reader has to know chunks of this name; it may pass over all whose name begins with
a small letter. -/
def Chunk.isCritical (c : Chunk) : Bool := c.kind.head?.all fun b => b / 32 % 2 = 0

def chunk? (bytes : Bytes) : Option (Chunk × Bool × Bytes) := do
  let (length, rest) ← take? 4 bytes
  let (kind, rest) ← take? 4 rest
  let (data, rest) ← take? (bigEndian length) rest
  let (check, rest) ← take? 4 rest
  some (⟨kind, data⟩, bigEndian check = (crc32 (kind ++ data)).toNat, rest)

/-- The name of the chunk that begins here, whether or not the rest of it is there. -/
def nextKind? (bytes : Bytes) : Option Bytes := (take? 8 bytes).map fun (front, _) => front.drop 4

/-- The rest of a file from its data on. Of the chunks in front, so many at most, those that may be
passed over are, even damaged ones; among the others there may be one palette. -/
def fromData? : Nat → Bool → Bytes → Option Bytes
  | 0, _, _ => none
  | count + 1, hadPalette, bytes =>
    if nextKind? bytes = some dataKind then some bytes
    else
      match chunk? bytes with
      | none => none
      | some (c, sound, rest) =>
        if !c.isCritical then fromData? count hadPalette rest
        else if sound && c.kind == paletteKind && !hadPalette then fromData? count true rest
        else none

/-- The content of the data chunks in front, of which there are fewer than a count; each has to be
sound, and a chunk of another name has to begin behind them. -/
def imageData? : Nat → Bytes → Option Bytes
  | 0, _ => none
  | count + 1, bytes => do
    if (← nextKind? bytes) ≠ dataKind then some []
    else
      let (c, sound, rest) ← chunk? bytes
      if sound then (imageData? count rest).map fun more => c.data ++ more else none

/-! ### The stream -/

/-- The content of a run of stored blocks, of which there are at most so many. The lowest bit of a
block's head marks the last one, the next two are zero for a stored one, and the others say
nothing. A run may break off anywhere, and one that goes on with compressed data is not followed
any further. -/
def storedBlocks : Nat → Bytes → Option Bytes
  | 0, _ => none
  | count + 1, bytes =>
    match bytes with
    | head :: length0 :: length1 :: complement0 :: complement1 :: rest =>
      if head / 2 % 4 = 3 then none
      else if head / 2 % 4 ≠ 0 then some []
      else
        let length := littleEndian [length0, length1]
        if length + littleEndian [complement0, complement1] ≠ 65535 then none
        else if head % 2 = 1 then some (rest.take length)
        else (storedBlocks count (rest.drop length)).map fun more => rest.take length ++ more
    | head :: _ :: _ => if head / 2 % 4 = 3 then none else some []
    | _ => some []

/-- The content of a stream of stored blocks. Its two bytes in front name the method and a window,
are a multiple of 31, and announce no dictionary; the checksum behind the last block is not looked
at. -/
def inflate? (bytes : Bytes) : Option Bytes := do
  let (head, rest) ← take? 2 bytes
  let n := bigEndian head
  if n % 31 = 0 ∧ n / 256 % 16 = 8 ∧ n / 4096 ≤ 7 ∧ n / 32 % 2 = 0 then
    storedBlocks (rest.length + 1) rest
  else none

/-! ### The picture -/

def layout? : Nat → Option Layout
  | 0 => some .grey
  | 2 => some .rgb
  | 4 => some .greyAlpha
  | 6 => some .rgba
  | _ => none

def depth? : Nat → Option Depth
  | 8 => some .eight
  | 16 => some .sixteen
  | _ => none

def header? (data : Bytes) : Option Sheet := do
  let (width, rest) ← take? 4 data
  let (height, rest) ← take? 4 rest
  let (fields, _) ← take? 5 rest
  match fields.map UInt8.toNat with
  | [bits, colour, 0, 0, 0] =>
    let layout ← layout? colour
    let depth ← depth? bits
    let width := bigEndian width
    let height := bigEndian height
    if width = 0 ∨ height = 0 ∨ 0x7FFFFFFF < width ∨ 0x7FFFFFFF < height then none
    else some ⟨UInt32.ofNat width, UInt32.ofNat height, layout, depth, []⟩
  | _ => none

/-- The bytes of so many rows; in front of each stands the number of its filter, and no filter is
number zero. -/
def rows? (stride : Nat) : Nat → Bytes → Option Bytes
  | 0, _ => some []
  | count + 1, bytes => do
    let (filter, rest) ← take? 1 bytes
    let (row, rest) ← take? stride rest
    if filter = [0] then (rows? stride count rest).map fun more => row ++ more else none

def read? (file : Bytes) : Option Sheet := do
  let (_, body) ← take? 8 file
  let (first, sound, rest) ← chunk? body
  if !sound || first.kind != headerKind then none
  else
    let sheet ← header? first.data
    let data ← fromData? body.length false rest
    let content ← inflate? (← imageData? body.length data)
    let stride := sheet.width.toNat * Sheet.pixelBytes sheet.layout sheet.depth
    let samples ← rows? stride sheet.height.toNat content
    some { sheet with samples := samples }

/-! ### Writing -/

def signature : Bytes := [0x89, 0x50, 0x4E, 0x47, 0x0D, 0x0A, 0x1A, 0x0A]

def endKind : Bytes := [0x49, 0x45, 0x4E, 0x44]

def Chunk.bytes (c : Chunk) : Bytes :=
  toBigEndian 4 c.data.length ++ c.kind ++ c.data ++ toBigEndian 4 (crc32 (c.kind ++ c.data)).toNat

/-- A stored block; the last one of a stream says so. -/
def block (last : Bool) (data : Bytes) : Bytes :=
  (if last then 1 else 0) :: toLittleEndian 2 data.length
    ++ toLittleEndian 2 (65535 - data.length) ++ data

def toBlocks (bytes : Bytes) : Bytes :=
  if bytes.length ≤ 65535 then block true bytes
  else block false (bytes.take 65535) ++ toBlocks (bytes.drop 65535)
termination_by bytes.length
decreasing_by
  rw [List.length_drop]
  omega

/-- The checksum of a compressed stream: the sum of its bytes, and the sum of these sums. -/
def adler32 (bytes : Bytes) : Nat :=
  let (low, high) := bytes.foldl
    (fun (low, high) b => ((low + b.toNat) % 65521, (high + low + b.toNat) % 65521)) (1, 0)
  high * 65536 + low

def deflate (bytes : Bytes) : Bytes :=
  [0x78, 0x01] ++ toBlocks bytes ++ toBigEndian 4 (adler32 bytes)

def layoutNumber : Layout → UInt8
  | .grey => 0
  | .rgb => 2
  | .greyAlpha => 4
  | .rgba => 6

def headerData (s : Sheet) : Bytes :=
  toBigEndian 4 s.width.toNat ++ toBigEndian 4 s.height.toNat
    ++ [UInt8.ofNat (8 * s.depth.bytes), layoutNumber s.layout, 0, 0, 0]

def toRows (stride : Nat) : Nat → Bytes → Bytes
  | 0, _ => []
  | count + 1, bytes => 0 :: bytes.take stride ++ toRows stride count (bytes.drop stride)

def write (s : Sheet) : Bytes :=
  let stride := s.width.toNat * Sheet.pixelBytes s.layout s.depth
  signature ++ Chunk.bytes ⟨headerKind, headerData s⟩
    ++ Chunk.bytes ⟨dataKind, deflate (toRows stride s.height.toNat s.samples)⟩
    ++ Chunk.bytes ⟨endKind, []⟩

end ImagePipeline.Container.Png
