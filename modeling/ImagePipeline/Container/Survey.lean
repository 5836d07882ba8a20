import ImagePipeline.Container.Sheet

/-!
# Files of which only the sides are read

Of JPEG, GIF, WebP and TIFF files the structure is walked until the sides of the first picture are
known and its data has been found; the samples themselves are not read, so the picture is all zero.
-/

namespace ImagePipeline.Container

def blankSheet (layout : Layout) (width height : Nat) : Option Sheet :=
  if 0 < width ∧ 0 < height then
    some ⟨UInt32.ofNat width, UInt32.ofNat height, layout, .eight, []⟩
  else none

/-! ### JPEG -/

namespace Jpeg

def isFrame (marker : UInt8) : Bool :=
  0xC0 ≤ marker && marker ≤ 0xCF && marker != 0xC4 && marker != 0xC8 && marker != 0xCC

def frame? (segment : Bytes) : Option Sheet := do
  let (_, rest) ← take? 1 segment
  let (height, rest) ← take? 2 rest
  let (width, _) ← take? 2 rest
  blankSheet .rgb (bigEndian width) (bigEndian height)

/-- Walks so many segments at most until the scan begins, keeping the last frame described. -/
def walk : Nat → Option Sheet → Bytes → Option Sheet
  | 0, _, _ => none
  | count + 1, found, bytes => do
    let (marker, rest) ← take? 2 bytes
    let (length, _) ← take? 2 rest
    let (segment, rest) ← take? (bigEndian length) rest
    match marker with
    | [0xFF, 0xDA] => found
    | [0xFF, m] => walk count (if isFrame m then frame? (segment.drop 2) else found) rest
    | _ => none

def read? (file : Bytes) : Option Sheet := do
  let (_, rest) ← take? 2 file
  walk rest.length none rest

end Jpeg

/-! ### GIF -/

namespace Gif

/-- What follows a run of so many data blocks at most, the last of which is empty. -/
def skipBlocks : Nat → Bytes → Option Bytes
  | 0, _ => none
  | count + 1, bytes => do
    let (length, rest) ← take? 1 bytes
    let (_, rest) ← take? (bigEndian length) rest
    if length = [0] then some rest else skipBlocks count rest

def tableLength (flags : Nat) : Nat := if 128 ≤ flags then 3 * Nat.pow 2 (flags % 8 + 1) else 0

def hasFrame : Nat → Bytes → Bool
  | 0, _ => false
  | count + 1, bytes =>
    match bytes with
    | 0x21 :: _ :: rest =>
      match skipBlocks rest.length rest with
      | some rest => hasFrame count rest
      | none => false
    | 0x2C :: rest =>
      (do
        let (descriptor, rest) ← take? 9 rest
        let (_, rest) ← take? (tableLength (bigEndian (descriptor.drop 8)) + 1) rest
        skipBlocks rest.length rest).isSome
    | _ => false

def read? (file : Bytes) : Option Sheet := do
  let (_, rest) ← take? 6 file
  let (width, rest) ← take? 2 rest
  let (height, rest) ← take? 2 rest
  let (flags, rest) ← take? 1 rest
  let (_, rest) ← take? (2 + tableLength (bigEndian flags)) rest
  if hasFrame rest.length rest then
    blankSheet .rgba (littleEndian width) (littleEndian height)
  else none

end Gif

/-! ### WebP -/

namespace Webp

def losslessKind : Bytes := [0x56, 0x50, 0x38, 0x4C]

def sideRange : Nat := 16384

def read? (file : Bytes) : Option Sheet := do
  let (_, rest) ← take? 12 file
  let (kind, rest) ← take? 4 rest
  let (length, rest) ← take? 4 rest
  let (data, _) ← take? (littleEndian length) rest
  let (signature, rest) ← take? 1 data
  let (fields, _) ← take? 4 rest
  if kind ≠ losslessKind ∨ signature ≠ [0x2F] then none
  else
    let bits := littleEndian fields
    let layout := if bits / (sideRange * sideRange) % 2 = 1 then Layout.rgba else Layout.rgb
    blankSheet layout (bits % sideRange + 1) (bits / sideRange % sideRange + 1)

end Webp

/-! ### TIFF -/

namespace Tiff

/-- So many fields of a directory by their tags, numbers of two and four bytes only, and what
follows them. -/
def fields (number : Bytes → Nat) : Nat → Bytes → Option (List (Nat × Nat) × Bytes)
  | 0, bytes => some ([], bytes)
  | count + 1, bytes => do
    let (tag, rest) ← take? 2 bytes
    let (kind, rest) ← take? 2 rest
    let (_, rest) ← take? 4 rest
    let (value, rest) ← take? 4 rest
    let (more, rest) ← fields number count rest
    match number kind with
    | 3 => some ((number tag, number (value.take 2)) :: more, rest)
    | 4 => some ((number tag, number value) :: more, rest)
    | _ => some (more, rest)

/-- The channels that fields tell of: what the samples mean, and how many there are. -/
def layout (fields : List (Nat × Nat)) : Layout :=
  match fields.lookup 262, fields.lookup 277 with
  | some 0, some 1 => .grey
  | some 1, some 1 => .grey
  | some 2, some 4 => .rgba
  | _, _ => .rgb

/-- The sheet in a file; the place of the next directory ends the first one. -/
def read? (file : Bytes) : Option Sheet := do
  let number := if startsWith [0x4D] file then bigEndian else littleEndian
  let (_, rest) ← take? 4 file
  let (start, _) ← take? 4 rest
  let (_, directory) ← take? (number start) file
  let (count, rest) ← take? 2 directory
  let (found, rest) ← fields number (number count) rest
  let _ ← take? 4 rest
  let width ← found.lookup 256
  let height ← found.lookup 257
  blankSheet (layout found) width height

end Tiff

end ImagePipeline.Container
