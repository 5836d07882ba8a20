import ImagePipeline.Edit
import ImagePipeline.Picture.Basic

/-!
# Canvases

An image is embedded by copying its pixels onto a fresh canvas (`Picture.embedded`), shifted to any
place and clipped to the canvas. The canvas has alpha exactly when the image has.
-/

namespace ImagePipeline

def Background.rgba : Background → Rgba
  | .colour c => c.solid
  | .white => Rgb.white.solid
  | .extended => Rgba.transparent

def Background.rgb : Background → Rgb
  | .colour c => c
  | .white => Rgb.white
  | .extended => Rgb.black

namespace Picture

/-- The image on a canvas of the given sides, its corner at a place that may lie outside. -/
def embedded (p : Picture) (x y : Int) (width height : UInt32) (background : Background) :
    Picture :=
  if p.hasAlpha then
    ofRgba ((Raster.uniform width height background.rgba).stamp (fun _ pixel => pixel) p.toRgba x y)
  else
    ofRgb ((Raster.uniform width height background.rgb).stamp (fun _ pixel => pixel) p.toRgb x y)

/-- The image with an alpha channel; one that has it already stays as it is. -/
def withAlpha (p : Picture) : Picture := if p.hasAlpha then p else ofRgba p.toRgba

end Picture

end ImagePipeline
