import Bytescope.Export

/-!
# The formats of the program

The encoder that the program runs with. A picture is kept as it is, an animation with the time for
which its frames can be shown, and what no format can hold is refused.

## Main definitions

* `PictureFormat`: formats by extension.
* `Encoder.standard`: the encoder of the program.
-/

namespace Bytescope

/-- What saving a picture in a format comes to. -/
inductive PictureFormat
  /-- It is kept without loss. -/
  | picture
  /-- It becomes an animation of one frame. -/
  | animation
  /-- It is kept in a format that is not read back, if both sides lie between these. -/
  | sealed (least most : Nat)
  /-- The format has no opacity, or cannot be written. -/
  | refused
  deriving DecidableEq, Repr

namespace PictureFormat

/-- The largest side of any image. -/
def maxImageSide : Nat := 0xFFFFFFFF

/-- The extensions with a format. Some formats have no empty images, and some count sides in
sixteen bits or fewer. -/
def table : List (String × PictureFormat) :=
  [("png", .picture), ("apng", .picture), ("gif", .animation),
    ("bmp", .sealed 0 maxImageSide), ("tga", .sealed 1 65535),
    ("tif", .sealed 1 maxImageSide), ("tiff", .sealed 1 maxImageSide), ("ico", .sealed 1 256),
    ("webp", .sealed 1 16384), ("qoi", .sealed 1 maxImageSide), ("avif", .sealed 1 65535),
    ("pam", .sealed 0 maxImageSide), ("pbm", .sealed 0 maxImageSide),
    ("pgm", .sealed 0 maxImageSide), ("ppm", .sealed 0 maxImageSide),
    ("pnm", .sealed 0 maxImageSide), ("jpg", .refused), ("jpeg", .refused), ("jfif", .refused),
    ("hdr", .refused), ("exr", .refused), ("ff", .refused), ("dds", .refused)]

/-- The format that an extension names, in either case. -/
def ofExtension? (extension : String) : Option PictureFormat :=
  (table.find? (·.1 = extension.map Char.toLower)).map Prod.snd

/-- The first width and height that an animation cannot have. -/
def animationSideLimit : Nat := 65536

/-- Whether an image fits an animation. -/
def fitsAnimation (image : Image) : Bool :=
  image.width < animationSideLimit && image.height < animationSideLimit

/-- The time for which a frame is shown, in whole hundredths of a second, as far as an animation
can tell it; given and returned in milliseconds. -/
def shownDelay (delay : Nat) : Nat := min (delay / 10) 65535 * 10

/-- What an animation holds, which has the size of its first frame. -/
def encodeAnimation (first : Image) (rest : List Image) (delay : Nat) :
    Except String FileContent :=
  if (first :: rest).all fitsAnimation then .ok (.animation first rest (shownDelay delay))
  else .error "the image is too large for an animation"

/-- What a picture's file holds, or why there is none. -/
def encode (format : PictureFormat) (image : Image) : Except String FileContent :=
  match format with
  | .picture =>
    if image.width = 0 then .error "Format error encoding Png:\nZero width not allowed"
    else if image.height = 0 then .error "Format error encoding Png:\nZero height not allowed"
    else .ok (.picture image)
  | .animation => encodeAnimation image [] 0
  | .sealed least most =>
    if least ≤ min image.width image.height ∧ max image.width image.height ≤ most then
      .ok (.sealed image)
    else .error "the format has no images of this size"
  | .refused => .error "the format cannot hold the image"

end PictureFormat

/-- The encoder of the program. -/
def Encoder.standard : Encoder where
  format extension? :=
    match extension?.bind PictureFormat.ofExtension? with
    | some format => .ok format.encode
    | none => .error "the extension names no format"
  animation := PictureFormat.encodeAnimation

end Bytescope
