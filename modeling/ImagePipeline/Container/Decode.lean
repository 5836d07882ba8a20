import ImagePipeline.Container.Anymap
import ImagePipeline.Container.Bitmap
import ImagePipeline.Container.Png
import ImagePipeline.Container.Signature
import ImagePipeline.Container.Survey
import ImagePipeline.Failure

/-!
# Decoding a source

Decoding first tells what kind of file the source is, then reads its sheet, and makes the picture
only if the samples take no more bytes than allowed, all copies of them counted that are held on the
way. A source of no known kind and one that cannot be read fail with different words (`decode`). The
readers know what is plain in a file: samples that are compressed or filtered, and palettes, are not
read, and of some kinds of files no samples at all (`Container.blankSheet`). A backend is therefore
not tied to this decoder.
-/

namespace ImagePipeline

/-- The sheet in a file of a kind; files of the other kinds are never read. -/
def FileKind.read? : FileKind → Container.Bytes → Option Container.Sheet
  | .png => Container.Png.read?
  | .bmp => Container.Bitmap.read?
  | .pnm => Container.Anymap.read?
  | .farbfeld => Container.Farbfeld.read?
  | .jpeg => Container.Jpeg.read?
  | .gif => Container.Gif.read?
  | .webp => Container.Webp.read?
  | .tiff => Container.Tiff.read?
  | _ => fun _ => none

/-- How many copies of the samples are held while a file of a kind is decoded. The strips of a TIFF
file are collected and decoded apart from the picture that they end up in. -/
def FileKind.copies : FileKind → Nat
  | .tiff => 3
  | _ => 1

namespace Container

/-- How many bytes the samples of a picture may take when nothing else is said. -/
def defaultDecodeBytes : Nat := 512 * 1024 * 1024

def unrecognized : BackendError :=
  .decode "unrecognized image data: The image format could not be determined"

def unreadable : BackendError := .decode "failed to decode image"

def decode (maxBytes : Nat) (source : ByteArray) :
    Except BackendError (Picture × ImageType) :=
  let bytes := source.toList
  match FileKind.ofBytes bytes with
  | none => .error unrecognized
  | some kind =>
    match kind.read? bytes with
    | none => .error unreadable
    | some sheet =>
      if kind.copies * sheet.size ≤ maxBytes then .ok (sheet.picture, kind.imageType)
      else .error unreadable

end Container

end ImagePipeline
