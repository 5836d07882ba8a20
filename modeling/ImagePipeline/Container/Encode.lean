import ImagePipeline.Container.Bitmap
import ImagePipeline.Container.Png
import ImagePipeline.Container.Tiff
import ImagePipeline.Format

/-!
# Encoding

`encode?` writes an eight-bit picture into a container. Only containers that take samples as they
are have an encoder here: PNG, TIFF, and bitmaps, which keep the colours alone.
-/

namespace ImagePipeline.Container

def Sheet.ofPicture (p : Picture) : Sheet := ⟨p.width, p.height, p.layout, p.depth, p.bytes⟩

/-- The file of an eight-bit picture, when there is an encoder for the container. -/
def encode? (container : ImageType) (p : Picture) : Option Bytes :=
  match container with
  | .png => some (Png.write (Sheet.ofPicture p))
  | .tiff =>
    some (Tiff.write p.width.toNat p.height.toNat p.layout.channels p.bytes)
  | .bmp => some (Bitmap.write p.width.toNat p.height.toNat (Picture.ofRgb p.toRgb).bytes)
  | _ => none

end ImagePipeline.Container
