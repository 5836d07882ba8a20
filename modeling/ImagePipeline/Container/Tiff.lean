import ImagePipeline.Container.Sheet

/-!
# TIFF files

A TIFF file points to a directory of tagged fields, which says how its samples are to be read.
Written are uncompressed colours, with or without alpha, in one strip that follows the header.
-/

namespace ImagePipeline.Container.Tiff

/-- A field of the directory; its values are small or long numbers, or their place in the file. -/
structure Field where
  tag : Nat
  kind : Nat
  count : Nat
  value : Nat

def Field.bytes (f : Field) : Bytes :=
  toLittleEndian 2 f.tag ++ toLittleEndian 2 f.kind ++ toLittleEndian 4 f.count
    ++ toLittleEndian 4 f.value

def headerLength : Nat := 8

/-- The fields for colours of so many channels; the number of bits of each stands at a place. -/
def entries (width height channels bitsAt : Nat) : List Field :=
  [ ⟨256, 4, 1, width⟩,
    ⟨257, 4, 1, height⟩,
    ⟨258, 3, channels, bitsAt⟩,
    ⟨259, 3, 1, 1⟩,
    ⟨262, 3, 1, 2⟩,
    ⟨273, 4, 1, headerLength⟩,
    ⟨277, 3, 1, channels⟩,
    ⟨278, 4, 1, height⟩,
    ⟨279, 4, 1, width * height * channels⟩ ]
  ++ (if channels = 4 then [⟨338, 3, 1, 2⟩] else [])

def write (width height channels : Nat) (samples : Bytes) : Bytes :=
  let bitsAt := headerLength + samples.length
  let directoryAt := bitsAt + 2 * channels
  let entries := entries width height channels bitsAt
  [0x49, 0x49, 0x2A, 0x00] ++ toLittleEndian 4 directoryAt ++ samples
    ++ (List.replicate channels (toLittleEndian 2 8)).flatten
    ++ toLittleEndian 2 entries.length ++ entries.flatMap Field.bytes ++ toLittleEndian 4 0

end ImagePipeline.Container.Tiff
