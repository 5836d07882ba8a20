/-!
# The configuration file to start from

The text of a configuration file in which every setting stands with its usual value and is
explained.
-/

namespace ImagePipeline.Config

def stockLines : List String :=
  [ "# oss-image-process configuration",
    "# ================================",
    "# All settings are optional. Remove or comment out any you don't need.",
    "# Values shown below are the defaults.",
    "# Unknown keys will cause an error.",
    "",
    "# ---------------------------------------------------------------------------",
    "# HTTP server",
    "# ---------------------------------------------------------------------------",
    "[server]",
    "# Address the listener binds to.",
    "addr = \"0.0.0.0:8000\"",
    "",
    "# Seconds a single request may spend processing before it is cancelled.",
    "# 0 disables the timeout.",
    "timeout_secs = 30",
    "",
    "# Largest accepted request body, in bytes (default 50 MiB).",
    "max_body_bytes = 52428800",
    "",
    "# When true, failed requests are answered with HTTP 200 and the JSON error",
    "# body only. Keep false unless old clients depend on it.",
    "legacy_error_status = false",
    "",
    "# ---------------------------------------------------------------------------",
    "# Encoding",
    "# ---------------------------------------------------------------------------",
    "[image]",
    "# Encoder quality for lossy formats (1-100).",
    "quality = 100",
    "",
    "# Largest image, in pixels, any operation may produce: resize results, the",
    "# cover size of a fill before its crop, pad canvases, watermark tiles.",
    "# Requests above it fail with a PARAM_ERROR before anything is allocated.",
    "max_output_pixels = 100000000",
    "",
    "# ---------------------------------------------------------------------------",
    "# Backend",
    "# ---------------------------------------------------------------------------",
    "[backend]",
    "# Worker threads for pixel work. 0 uses every core; larger values are",
    "# clamped to the core count.",
    "concurrency_level = 4",
    "",
    "# Allocation ceiling for decoding one image, in bytes. Unset uses the",
    "# decoder's own default.",
    "# max_decode_bytes = 536870912",
    "",
    "# Request buffers kept for reuse between requests.",
    "buffer_pool_size = 64",
    "",
    "# ---------------------------------------------------------------------------",
    "# Watermark",
    "# ---------------------------------------------------------------------------",
    "[watermark]",
    "# Resolution used to turn `size_` points into pixels.",
    "dpi = 72",
    "",
    "# Transparent spacing around each watermark tile, in pixels.",
    "margin = 20",
    "",
    "# ---------------------------------------------------------------------------",
    "# Logging",
    "# ---------------------------------------------------------------------------",
    "[logging]",
    "# tracing EnvFilter directive. RUST_LOG overrides it when set.",
    "level = \"info\"",
    "",
    "# Colored output.",
    "ansi = true" ]

def stockText : String := String.join (stockLines.map fun line => line ++ "\n")

end ImagePipeline.Config
