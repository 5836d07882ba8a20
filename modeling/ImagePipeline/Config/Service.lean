import ImagePipeline.Network.SocketAddress
import ImagePipeline.Number.Rounding
import ImagePipeline.Pipeline.Request
import ImagePipeline.Text.Blank

/-!
# The configuration of the service

A `ServiceConfig` has five sections, and every field has a usual value. A configuration is valid
when none of its fields is out of range; the fields are looked at in a fixed order, and the first
one that is wrong is reported (`ServiceConfig.problem?`).
-/

namespace ImagePipeline

structure ServerConfig where
  addr : String := "0.0.0.0:8000"
  /-- The seconds that a request may take; zero means any number. -/
  timeoutSecs : UInt64 := 30
  maxBodyBytes : UInt64 := 52428800
  legacyErrorStatus : Bool := false
  deriving DecidableEq

structure ImageConfig where
  quality : UInt32 := 100
  maxOutputPixels : UInt64 := 100000000
  deriving DecidableEq

structure BackendConfig where
  /-- The number of workers; zero means one for each core. -/
  concurrencyLevel : UInt64 := 4
  maxDecodeBytes : Option UInt64 := none
  bufferPoolSize : UInt64 := 64
  deriving DecidableEq

structure WatermarkConfig where
  dpi : UInt32 := 72
  margin : UInt32 := 20
  deriving DecidableEq

structure LoggingConfig where
  level : String := "info"
  ansi : Bool := true
  deriving DecidableEq

structure ServiceConfig where
  server : ServerConfig := {}
  image : ImageConfig := {}
  backend : BackendConfig := {}
  watermark : WatermarkConfig := {}
  logging : LoggingConfig := {}
  deriving DecidableEq

inductive ConfigProblem where
  | address (addr : String)
  | quality
  | outputPixels
  | bodyBytes
  | dpi
  | decodeBytes
  | level
  deriving DecidableEq

def ConfigProblem.message : ConfigProblem → String
  | address addr => "server.addr `" ++ addr ++ "` is invalid: invalid socket address syntax"
  | quality => "image.quality must be 1-100"
  | outputPixels => "image.max_output_pixels must be 1-" ++ Text.decimal Number.maxUInt32
  | bodyBytes => "server.max_body_bytes must be positive"
  | dpi => "watermark.dpi must be positive"
  | decodeBytes => "backend.max_decode_bytes must be positive when set"
  | level => "logging.level must not be empty"

namespace ServiceConfig

/-- Every check that a configuration has to pass, in order, with what is wrong if it does not. -/
def checks (c : ServiceConfig) : List (Bool × ConfigProblem) :=
  [ ((SocketAddress.parse c.server.addr).isSome, .address c.server.addr),
    (decide (1 ≤ c.image.quality ∧ c.image.quality ≤ 100), .quality),
    (decide (1 ≤ c.image.maxOutputPixels ∧ c.image.maxOutputPixels.toNat ≤ Number.maxUInt32),
      .outputPixels),
    (c.server.maxBodyBytes != 0, .bodyBytes),
    (c.watermark.dpi != 0, .dpi),
    (c.backend.maxDecodeBytes != some 0, .decodeBytes),
    (!Text.allBlank c.logging.level, .level) ]

def problem? (c : ServiceConfig) : Option ConfigProblem :=
  (c.checks.find? fun check => !check.1).map Prod.snd

def settings (c : ServiceConfig) : Settings where
  quality := Quality.clamp c.image.quality
  dpi := c.watermark.dpi
  margin := c.watermark.margin

end ServiceConfig

end ImagePipeline
