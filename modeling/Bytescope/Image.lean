import Bytescope.Raster

/-!
# Rectangular images

## Main definitions

* `Image`: pixels in rows of one width.
* `Image.ofRaster`: the image that a raster shows.
-/

namespace Bytescope

/-- Pixels in rows of one width. -/
structure Image where
  /-- Pixels in a row. -/
  width : Nat
  /-- Number of rows. -/
  height : Nat
  /-- The pixels, row by row. -/
  pixels : Array Pixel
  deriving DecidableEq, Repr

namespace Image

/-- The image that a raster shows. -/
def ofRaster (r : Raster) : Image := ⟨r.side, r.side, r.pixels⟩

/-- The channels of all pixels, row by row. -/
def toBytes (image : Image) : List UInt8 := image.pixels.toList.flatMap Pixel.toBytes

end Image

end Bytescope
