import ImagePipeline.Colour
import ImagePipeline.Command.Arguments
import ImagePipeline.Command.FilePath
import ImagePipeline.Command.Report
import ImagePipeline.Command.Run
import ImagePipeline.Config.Load
import ImagePipeline.Config.Reading
import ImagePipeline.Config.Resolve
import ImagePipeline.Config.Service
import ImagePipeline.Config.Stock
import ImagePipeline.Config.Value
import ImagePipeline.Container.Anymap
import ImagePipeline.Container.Bitmap
import ImagePipeline.Container.Bytes
import ImagePipeline.Container.Decode
import ImagePipeline.Container.Encode
import ImagePipeline.Container.Png
import ImagePipeline.Container.Sheet
import ImagePipeline.Container.Signature
import ImagePipeline.Container.Survey
import ImagePipeline.Container.Tiff
import ImagePipeline.Descriptor
import ImagePipeline.Edit
import ImagePipeline.Failure
import ImagePipeline.Format
import ImagePipeline.Geometry.ResizePlan
import ImagePipeline.Geometry.Scale
import ImagePipeline.Geometry.Shape
import ImagePipeline.Geometry.Thumbnail
import ImagePipeline.Main
import ImagePipeline.Network.FormQuery
import ImagePipeline.Network.SocketAddress
import ImagePipeline.Number.Binary64
import ImagePipeline.Number.Rounding
import ImagePipeline.Options.Blur
import ImagePipeline.Options.Format
import ImagePipeline.Options.Resize
import ImagePipeline.Options.Scan
import ImagePipeline.Options.Watermark
import ImagePipeline.Picture.Basic
import ImagePipeline.Picture.Blur
import ImagePipeline.Picture.Canvas
import ImagePipeline.Picture.Raster
import ImagePipeline.Picture.Resample
import ImagePipeline.Pipeline.Backend
import ImagePipeline.Pipeline.Cancellation
import ImagePipeline.Pipeline.Choice
import ImagePipeline.Pipeline.Pixels
import ImagePipeline.Pipeline.Process
import ImagePipeline.Pipeline.Rehearsal
import ImagePipeline.Pipeline.Request
import ImagePipeline.Pipeline.Task
import ImagePipeline.Proofs.Geometry.Covering
import ImagePipeline.Proofs.Geometry.DoubleScale
import ImagePipeline.Proofs.Geometry.LawfulScale
import ImagePipeline.Proofs.Geometry.Settled
import ImagePipeline.Proofs.Geometry.UsablePlan
import ImagePipeline.Proofs.Number.Double
import ImagePipeline.Proofs.Picture.Sides
import ImagePipeline.Proofs.Pipeline.Change
import ImagePipeline.Proofs.Pipeline.Faultless
import ImagePipeline.Proofs.Pipeline.Lifecycle
import ImagePipeline.Proofs.Pipeline.Reading
import ImagePipeline.Proofs.Pipeline.ResizeTwice
import ImagePipeline.Proofs.Pipeline.Script
import ImagePipeline.Proofs.Pipeline.Session
import ImagePipeline.Service.BufferPool
import ImagePipeline.Service.Http
import ImagePipeline.Service.LogFilter
import ImagePipeline.Service.Upload
import ImagePipeline.Service.Worker
import ImagePipeline.Text.Base64
import ImagePipeline.Text.Blank
import ImagePipeline.Text.Numeral
import ImagePipeline.Text.Split
import ImagePipeline.Text.Utf8
import ImagePipeline.Toml.Document
import ImagePipeline.Toml.Quoted
import ImagePipeline.Toml.Scalar
import ImagePipeline.Toml.Tree
import ImagePipeline.Watermark.Extent
import ImagePipeline.Watermark.Glyph
import ImagePipeline.Watermark.Rotation
import ImagePipeline.Watermark.Tile
import ImagePipeline.Proofs.Pipeline.Refusal
import ImagePipeline.Proofs.Pipeline.ExactCanvas
import ImagePipeline.Proofs.Pipeline.Cancelling
import ImagePipeline.Proofs.Pipeline.Simulation
import ImagePipeline.Proofs.Pipeline.Rehearsed
import ImagePipeline.Proofs.Config.Layering
import ImagePipeline.Proofs.Pipeline.InfoRequest
import ImagePipeline.Proofs.Service.Buffering
import ImagePipeline.Proofs.Service.FrontEnd
import ImagePipeline.Proofs.Text.Base64
import ImagePipeline.Proofs.Text.Numerals
import ImagePipeline.Proofs.Options.Tokens
import ImagePipeline.Proofs.Options.Resize
import ImagePipeline.Proofs.Options.Watermark
import ImagePipeline.Proofs.Pipeline.WrittenSteps
import ImagePipeline.Proofs.Pipeline.Proportions
import ImagePipeline.Proofs.Pipeline.WorkingCanvas
import ImagePipeline.Proofs.Service.Serving
import ImagePipeline.Proofs.Geometry.Planners
import ImagePipeline.Proofs.Geometry.Limit
import ImagePipeline.Proofs.Geometry.Transposition
import ImagePipeline.Proofs.Pipeline.Padding
import ImagePipeline.Proofs.Text.WrittenAgain
import ImagePipeline.Proofs.Pipeline.Planning
import ImagePipeline.Proofs.Options.BoxFirst
import ImagePipeline.Proofs.Options.WatermarkText
import ImagePipeline.Proofs.Watermark.Compositing
import ImagePipeline.Proofs.Watermark.TileBound
import ImagePipeline.Proofs.Pipeline.Embedding
import ImagePipeline.Proofs.Config.WrittenBack
import ImagePipeline.Proofs.Pipeline.ScaleOrder
import ImagePipeline.Proofs.Picture.BlurKernel
import ImagePipeline.Proofs.Command.Destination
import ImagePipeline.Proofs.Picture.CentredKernel
import ImagePipeline.Proofs.Pipeline.ThumbnailCanvases
