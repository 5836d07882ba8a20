import ImagePipeline.Command.FilePath
import ImagePipeline.Config.Service
import ImagePipeline.Pipeline.Process
import ImagePipeline.Service.Worker

/-!
# Reports

What the command line prints: a first line that names the thing, and indented lines with the
details. Sizes have one decimal place from a kilobyte on.
-/

namespace ImagePipeline.Report

def detail (label value : String) : String := "    " ++ label ++ ": " ++ value

/-! ### Sizes -/

/-- A quotient rounded to the nearest whole number, a half to the even one. -/
def nearestEven (num den : Nat) : Nat :=
  let whole := num / den
  let twice := 2 * (num % den)
  if twice < den then whole
  else if den < twice then whole + 1
  else whole + whole % 2

def keepDigits (n : Nat) : Nat :=
  if n < Nat.pow 2 53 then n
  else
    let unit := Nat.pow 2 (n.log2 - 52)
    nearestEven n unit * unit

def oneDecimal (num den : Nat) : String :=
  let tenths := nearestEven (10 * num) den
  Text.decimal (tenths / 10) ++ "." ++ Text.decimal (tenths % 10)

def byteCount (bytes : Nat) : String :=
  let kilobyte := 1024
  let megabyte := 1024 * 1024
  if megabyte ≤ bytes then oneDecimal (keepDigits bytes) megabyte ++ " MB"
  else if kilobyte ≤ bytes then oneDecimal bytes kilobyte ++ " KB"
  else Text.decimal bytes ++ " B"

def sides (width height : UInt32) : String :=
  Text.decimal width.toNat ++ "x" ++ Text.decimal height.toNat

/-! ### Files -/

def displayName (path : String) : String := (FilePath.fileName? path).getD path

def sourceLine (input : String) (bytes : Nat) : String :=
  displayName input ++ " (" ++ byteCount bytes ++ ")"

def info (input : String) (report : ImageInfo) : List String :=
  [ sourceLine input report.fileSize,
    detail "Format" report.format.name,
    detail "Size" (sides report.width report.height) ]

def property (name value : String) : List String :=
  ["  \"" ++ name ++ "\": \x7b", "    \"value\": " ++ value, "  \x7d"]

def commaSeparated : List (List String) → List String
  | [] => []
  | [lines] => lines
  | lines :: rest => lines.dropLast ++ ["  \x7d,"] ++ commaSeparated rest

def infoObject (report : ImageInfo) : List String :=
  ["\x7b"] ++ commaSeparated
    [ property "FileSize" (Text.decimal report.fileSize),
      property "Format" ("\"" ++ report.format.name ++ "\""),
      property "ImageHeight" (Text.decimal report.height.toNat),
      property "ImageWidth" (Text.decimal report.width.toNat) ] ++ ["\x7d"]

def made {β : Type} (input : String) (sourceBytes : Nat) (descriptor : String) (image : Encoded β)
    (imageBytes : Nat) (output : String) : List String :=
  [ sourceLine input sourceBytes,
    detail "Descriptor" descriptor,
    detail "Result" (image.format.name ++ " " ++ sides image.width image.height ++ " ("
      ++ byteCount imageBytes ++ ")"),
    detail "Output" output ]

/-! ### The service -/

def banner (config : ServiceConfig) (cores : Nat) : List String :=
  let timeout := config.server.timeoutSecs.toNat
  [ "Listening on " ++ config.server.addr,
    detail "Workers" (Text.decimal (workerCount config.backend.concurrencyLevel.toNat cores)),
    detail "Timeout" (if timeout = 0 then "none" else Text.decimal timeout ++ "s"),
    detail "Max body" (byteCount config.server.maxBodyBytes.toNat),
    detail "Decode limit" ((config.backend.maxDecodeBytes.map fun b => byteCount b.toNat).getD
      "none"),
    detail "Default quality" (Text.decimal config.image.quality.toNat),
    detail "Errors" (if config.server.legacyErrorStatus then "always 200" else "status = code") ]

end ImagePipeline.Report
