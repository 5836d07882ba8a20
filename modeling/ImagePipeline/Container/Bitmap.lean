import ImagePipeline.Container.Sheet

/-!
# Bitmap files

A bitmap file holds its rows from the bottom up, blue before green before red, each row filled up to
a multiple of four bytes. Read are uncompressed files of 24 bits a pixel with a 40-byte header, and
such files are written (`write`).
-/

namespace ImagePipeline.Container.Bitmap

def stride (width : Nat) : Nat := (3 * width + 3) / 4 * 4

/-- The pixels of a row, red first. -/
def rowBytes : Nat → Bytes → Bytes
  | count + 1, blue :: green :: red :: rest => red :: green :: blue :: rowBytes count rest
  | _, _ => []

/-- So many rows of a length, the last one in the file first. -/
def rows? (stride width : Nat) : Nat → Bytes → Option Bytes
  | 0, _ => some []
  | count + 1, bytes => do
    let (row, rest) ← take? stride bytes
    (rows? stride width count rest).map fun above => above ++ rowBytes width row

structure Header where
  dataStart : Nat
  headerLength : Nat
  width : Nat
  height : Nat
  planes : Nat
  bits : Nat
  compression : Nat

def header? (file : Bytes) : Option Header := do
  let (_, rest) ← take? 10 file
  let (dataStart, rest) ← take? 4 rest
  let (headerLength, rest) ← take? 4 rest
  let (width, rest) ← take? 4 rest
  let (height, rest) ← take? 4 rest
  let (planes, rest) ← take? 2 rest
  let (bits, rest) ← take? 2 rest
  let (compression, rest) ← take? 4 rest
  let _ ← take? 20 rest
  some ⟨littleEndian dataStart, littleEndian headerLength, littleEndian width, littleEndian height,
    littleEndian planes, littleEndian bits, littleEndian compression⟩

def Header.isReadable (h : Header) : Bool :=
  h.headerLength = 40 && h.planes = 1 && h.bits = 24 && h.compression = 0 &&
    (0 < h.width && h.width < 0x10000) && (0 < h.height && h.height < 0x10000)

def read? (file : Bytes) : Option Sheet := do
  let header ← header? file
  if !header.isReadable then none
  else
    let (_, pixels) ← take? header.dataStart file
    let samples ← rows? (stride header.width) header.width header.height pixels
    some ⟨UInt32.ofNat header.width, UInt32.ofNat header.height, .rgb, .eight, samples⟩

/-! ### Writing -/

def toRow : Bytes → Bytes
  | red :: green :: blue :: rest => blue :: green :: red :: toRow rest
  | _ => []

/-- So many rows of a width, the last one first; only the colours are written. -/
def toRows (width : Nat) : Nat → Bytes → Bytes
  | 0, _ => []
  | count + 1, bytes =>
    let row := toRow (bytes.take (3 * width))
    toRows width count (bytes.drop (3 * width))
      ++ (row ++ List.replicate (stride width - 3 * width) 0)

def write (width height : Nat) (samples : Bytes) : Bytes :=
  let pixels := toRows width height samples
  [0x42, 0x4D] ++ toLittleEndian 4 (54 + pixels.length) ++ toLittleEndian 4 0
    ++ toLittleEndian 4 54 ++ toLittleEndian 4 40
    ++ toLittleEndian 4 width ++ toLittleEndian 4 height
    ++ toLittleEndian 2 1 ++ toLittleEndian 2 24 ++ toLittleEndian 4 0
    ++ toLittleEndian 4 pixels.length ++ List.replicate 16 0 ++ pixels

end ImagePipeline.Container.Bitmap
