/-!
# Containers and the choice of an encoder

`ImageType` is what a decoded image is, `OutputFormat` what a request asks for. A request without
a format keeps the source's own (`OutputFormat.resolve`); a name without an encoder of its own
also means the source's format.
-/

namespace ImagePipeline

inductive ImageType where
  | jpeg
  | png
  | webp
  | tiff
  | gif
  | bmp
  | unknown
  deriving DecidableEq, Repr

namespace ImageType

def name : ImageType → String
  | jpeg => "jpeg"
  | png => "png"
  | webp => "webp"
  | tiff => "tiff"
  | gif => "gif"
  | bmp => "bmp"
  | unknown => "unknown"

/-- The content type of an answer in this format; an unknown format is announced as JPEG. -/
def mimeType : ImageType → String
  | png => "image/png"
  | webp => "image/webp"
  | tiff => "image/tiff"
  | gif => "image/gif"
  | bmp => "image/bmp"
  | jpeg => "image/jpeg"
  | unknown => "image/jpeg"

end ImageType

inductive OutputFormat where
  | jpeg
  | png
  | webp
  | tiff
  | gif
  | native
  deriving DecidableEq, Repr

namespace OutputFormat

def name : OutputFormat → String
  | jpeg => "jpeg"
  | png => "png"
  | webp => "webp"
  | tiff => "tiff"
  | gif => "gif"
  | native => "native"

def ofName (text : String) : OutputFormat :=
  match String.ofList (text.toList.map Char.toLower) with
  | "jpeg" => jpeg
  | "jpg" => jpeg
  | "png" => png
  | "webp" => webp
  | "tiff" => tiff
  | "tif" => tiff
  | "gif" => gif
  | _ => native

/-- The encoder for a request: the one asked for, else the one named like the source. -/
def resolve (requested : Option OutputFormat) (source : ImageType) : OutputFormat :=
  requested.getD (ofName source.name)

/-- The container an encoder writes for a source; an unknown source is written as PNG. -/
def container (format : OutputFormat) (source : ImageType) : ImageType :=
  match format with
  | jpeg => .jpeg
  | png => .png
  | webp => .webp
  | tiff => .tiff
  | gif => .gif
  | native =>
    match source with
    | .unknown => .png
    | known => known

end OutputFormat

end ImagePipeline
