import ImagePipeline.Container.Bytes
import ImagePipeline.Format

/-!
# Telling files apart

The first bytes of a file say what kind of file it is. The kinds are tried in a fixed order, so
that a file has at most one (`FileKind.ofBytes`). Not every kind that is recognised can be decoded,
and only six of them have an `ImageType` of their own.
-/

namespace ImagePipeline

inductive FileKind where
  | jpeg
  | png
  | webp
  | tiff
  | gif
  | bmp
  | dds
  | ico
  | hdr
  | avif
  | exr
  | qoi
  | pnm
  | farbfeld
  deriving DecidableEq, Repr

namespace FileKind

open Container

def imageType : FileKind → ImageType
  | jpeg => .jpeg
  | png => .png
  | webp => .webp
  | tiff => .tiff
  | gif => .gif
  | bmp => .bmp
  | _ => .unknown

/-- A byte of a signature: a given one or any. -/
abbrev Mark := Option UInt8

def spelt (text : String) : List Mark := text.toList.map fun c => some (UInt8.ofNat c.toNat)

def exactly (bytes : Bytes) : List Mark := bytes.map some

def anything (n : Nat) : List Mark := List.replicate n none

def signatures : List (List Mark × FileKind) :=
  [ (exactly [0x89] ++ spelt "PNG" ++ exactly [0x0D, 0x0A, 0x1A, 0x0A], png),
    (exactly [0xFF, 0xD8, 0xFF], jpeg),
    (spelt "GIF89a", gif),
    (spelt "GIF87a", gif),
    (spelt "RIFF" ++ anything 4 ++ spelt "WEBP", webp),
    (spelt "MM" ++ exactly [0x00, 0x2A], tiff),
    (spelt "II" ++ exactly [0x2A, 0x00], tiff),
    (spelt "DDS ", dds),
    (spelt "BM", bmp),
    (exactly [0x00, 0x00, 0x01, 0x00], ico),
    (spelt "#?RADIANCE", hdr),
    (exactly [0x00, 0x00] ++ anything 2 ++ spelt "ftypavif", avif),
    (exactly [0x76, 0x2F, 0x31, 0x01], exr),
    (spelt "qoif", qoi),
    (spelt "P1", pnm),
    (spelt "P2", pnm),
    (spelt "P3", pnm),
    (spelt "P4", pnm),
    (spelt "P5", pnm),
    (spelt "P6", pnm),
    (spelt "P7", pnm),
    (spelt "farbfeld", farbfeld) ]

def isSigned : List Mark → Bytes → Bool
  | [], _ => true
  | _ :: _, [] => false
  | mark :: marks, b :: bytes => (mark == none || mark == some b) && isSigned marks bytes

def ofBytes (bytes : Bytes) : Option FileKind :=
  (signatures.find? fun s => isSigned s.1 bytes).map Prod.snd

end FileKind

end ImagePipeline
