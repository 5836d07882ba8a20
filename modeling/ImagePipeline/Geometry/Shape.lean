/-!
# Shapes

What planning needs to know about an image: its sides and whether it has an alpha channel.
-/

namespace ImagePipeline

structure Shape where
  width : UInt32
  height : UInt32
  hasAlpha : Bool := false
  deriving DecidableEq, Repr

namespace Shape

def isEmpty (s : Shape) : Bool := s.width = 0 || s.height = 0

def transpose (s : Shape) : Shape := { s with width := s.height, height := s.width }

end Shape

end ImagePipeline
