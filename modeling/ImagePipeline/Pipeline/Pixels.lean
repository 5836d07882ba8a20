import ImagePipeline.Container.Decode
import ImagePipeline.Geometry.Thumbnail
import ImagePipeline.Picture.Blur
import ImagePipeline.Picture.Canvas
import ImagePipeline.Picture.Resample
import ImagePipeline.Pipeline.Backend
import ImagePipeline.Watermark.Tile

/-!
# The backend that works on pixels

`pixels` is the backend that holds pictures, whatever decoder they come from; `Photo.decode` is one
that knows files with plain samples. Every change that makes a canvas has its size looked at first:
no side may need more than 32 bits, and the number of pixels may not exceed a limit
(`Limits.check`). Changes with arguments that mean nothing fail as well. Changes work in place
(`PhotoWork`), so that what a failed one leaves behind can be seen (`Photo.session`). What an
encoder writes is stood for by the eight-bit picture handed to it.
-/

namespace ImagePipeline

/-! ### Limits -/

structure Limits where
  /-- The bytes that the samples of a source may take, unless the usual number holds. -/
  maxDecodeBytes : Option UInt64 := none
  maxOutputPixels : UInt64 := 100000000

namespace Limits

def decodeBytes (limits : Limits) : Nat :=
  (limits.maxDecodeBytes.map UInt64.toNat).getD Container.defaultDecodeBytes

def sidesText (width height : Nat) : String := Text.decimal width ++ "x" ++ Text.decimal height

def refusal (limits : Limits) (what : String) (width height : Nat) : BackendError :=
  .tooLarge (what ++ " of " ++ sidesText width height ++ " exceeds the "
    ++ Text.decimal limits.maxOutputPixels.toNat ++ "-pixel limit")

def check (limits : Limits) (what : String) (width height : Nat) : Except BackendError Unit :=
  if limits.maxOutputPixels.toNat < Number.capped (width * height) ∨ Number.maxUInt32 < width
      ∨ Number.maxUInt32 < height then
    .error (limits.refusal what width height)
  else .ok ()

end Limits

/-! ### Changes -/

def Picture.thumbnailed (σ : Type) [Scale σ] (p : Picture) (width height : UInt32)
    (interest : Interest) (sizing : Sizing) : Picture :=
  let sides := Thumbnail.sides σ p.shape width height interest
  match sizing, interest with
  | .force, _ => p.resized .lanczos3 width height
  | .both, .all =>
    if p.width = width ∧ p.height = height then p
    else p.resized .lanczos3 sides.1 sides.2
  | .both, .centre =>
    p.resizedWithin .lanczos3 sides (Thumbnail.corner sides width height) width height

structure Photo where
  picture : Picture
  format : ImageType

/-- Work on a photo in place: what has been done to the photo stays when the work fails. -/
abbrev PhotoWork (α : Type) : Type := ExceptT BackendError (StateM Photo) α

namespace PhotoWork

def invalidSides (what : String) (width height : UInt32) : BackendError :=
  .processingFailed ("invalid " ++ what ++ " " ++ Limits.sidesText width.toNat height.toNat)

def picture : PhotoWork Picture := return (← get).picture

def assign (p : Picture) : PhotoWork Unit := modify fun photo => { photo with picture := p }

def scale {σ : Type} [Scale σ] (limits : Limits) (hscale vscale : σ) (kernel : Kernel) :
    PhotoWork Unit := do
  if !(Scale.isPositive hscale && Scale.isPositive vscale) then
    throw (.processingFailed
      ("invalid resize scale " ++ Scale.text hscale ++ "x" ++ Scale.text vscale))
  let p ← picture
  let width := Scale.side hscale p.width
  let height := Scale.side vscale p.height
  limits.check "resize" width.toNat height.toNat
  assign (p.resized kernel width height)

def thumbnail (σ : Type) [Scale σ] (limits : Limits) (width height : UInt32) (interest : Interest)
    (sizing : Sizing) : PhotoWork Unit := do
  if width = 0 ∨ height = 0 then throw (invalidSides "thumbnail size" width height)
  let p ← picture
  let bound := Thumbnail.bound σ p.shape width height interest sizing
  limits.check "thumbnail" bound.1 bound.2
  assign (p.thumbnailed σ width height interest sizing)

def embed (limits : Limits) (x y : Int) (width height : UInt32) (background : Background) :
    PhotoWork Unit := do
  if width = 0 ∨ height = 0 then throw (invalidSides "embed canvas" width height)
  limits.check "embed canvas" width.toNat height.toNat
  assign ((← picture).embedded x y width height background)

def addAlpha : PhotoWork Unit := do assign (← picture).withAlpha

/-- Draws a watermark whose tile is rendered in a given way; the picture has to have an alpha
channel. -/
def watermarkBy (render : WatermarkParams → Option (Raster Rgba)) (limits : Limits)
    (params : WatermarkParams) : PhotoWork Unit := do
  if !(← picture).hasAlpha then throw .needsAlpha
  let extent := Watermark.tileExtent params
  limits.check "watermark tile" extent.1 extent.2
  match render params with
  | none => throw (.tooLarge ("watermark tile of " ++ Limits.sidesText extent.1 extent.2))
  | some tile => assign ((← picture).watermarked tile params.replicate)

def watermark (limits : Limits) (params : WatermarkParams) : PhotoWork Unit :=
  watermarkBy Watermark.renderTile limits params

def blur (sigma minAmplitude : Float) : PhotoWork Unit := do
  if sigma.isNaN || sigma ≤ 0 then
    throw (.processingFailed ("invalid blur sigma " ++ Binary64.text sigma))
  assign ((← picture).blurred sigma minAmplitude)

def change {σ : Type} [Scale σ] (limits : Limits) : Edit σ → PhotoWork Unit
  | .resize factor kernel => scale limits factor factor kernel
  | .resizeAxes hscale vscale kernel => scale limits hscale vscale kernel
  | .thumbnail width height interest sizing => thumbnail σ limits width height interest sizing
  | .embed x y width height background => embed limits x y width height background
  | .addAlpha => addAlpha
  | .watermark params => watermark limits params
  | .blur sigma minAmplitude => blur sigma minAmplitude

end PhotoWork

/-! ### Encoding -/

namespace ImageType

def encoderName : ImageType → String
  | .jpeg => "JPEG"
  | .png => "PNG"
  | .webp => "WebP"
  | .tiff => "TIFF"
  | .gif => "GIF"
  | .bmp => "BMP"
  | .unknown => "unknown"

def maxSide : ImageType → Nat
  | .jpeg => 65535
  | .gif => 65535
  | .webp => 16384
  | _ => Number.maxUInt32

def maxReadableSide : ImageType → Nat
  | .bmp => 65535
  | container => container.maxSide

def allowsEmpty : ImageType → Bool
  | .gif => true
  | .bmp => true
  | _ => false

def keepsAlpha : ImageType → Bool
  | .jpeg => false
  | _ => true

def encode (container : ImageType) (p : Picture) : Except BackendError Picture :=
  if container.maxSide < p.width.toNat ∨ container.maxSide < p.height.toNat
      ∨ (p.isEmpty ∧ !container.allowsEmpty) then
    .error (.processingFailed (container.encoderName ++ " encode failed"))
  else .ok (p.eightBit container.keepsAlpha)

end ImageType

/-! ### The backend -/

namespace Photo

/-- The photo in a source, by the readers at hand. -/
def decode (limits : Limits) (source : ByteArray) : Except BackendError Photo :=
  match Container.decode limits.decodeBytes source with
  | .error e => .error e
  | .ok (picture, format) => .ok ⟨picture, format⟩

def attempt {σ : Type} [Scale σ] (limits : Limits) (change : Edit σ) (photo : Photo) :
    Except BackendError Unit × Photo :=
  (PhotoWork.change limits change).run.run photo

def edit {σ : Type} [Scale σ] (limits : Limits) (change : Edit σ) (photo : Photo) :
    Except BackendError Photo :=
  match photo.attempt limits change with
  | (.error e, _) => .error e
  | (.ok _, photo) => .ok photo

/-- A session: changes made one after the other on the same photo, with what comes of each and the
photo that it leaves behind. It goes on after a change that fails. -/
def session {σ : Type} [Scale σ] (limits : Limits) :
    List (Edit σ) → Photo → List (Except BackendError Unit × Photo)
  | [], _ => []
  | change :: rest, photo =>
    let outcome := photo.attempt limits change
    outcome :: session limits rest outcome.2

def encode (format : OutputFormat) (photo : Photo) : Except BackendError (Encoded Picture) :=
  let container := format.container photo.format
  match container.encode photo.picture with
  | .error e => .error e
  | .ok body => .ok ⟨container, photo.picture.width, photo.picture.height, body⟩

def close (photo : Photo) : Photo := { photo with picture := Picture.nothing }

end Photo

/-- What is found in an encoded picture; one without pixels, or with sides that the container can
hold but not give back, cannot be read. -/
def Encoded.readBack? (e : Encoded Picture) : Option Picture :=
  if e.body.isEmpty ∨ e.format.maxReadableSide < e.body.width.toNat
      ∨ e.format.maxReadableSide < e.body.height.toNat then none
  else some e.body

/-- The backend on pixels that gets its photos from a decoder. -/
def pixels {σ : Type} [Scale σ] (limits : Limits)
    (load : ByteArray → Except BackendError Photo := Photo.decode limits) : Backend σ where
  Handle := Photo
  Body := Picture
  load := load
  shape photo := photo.picture.shape
  format := Photo.format
  edit := Photo.edit limits
  encode format _ := Photo.encode format
  close := Photo.close

end ImagePipeline
