import Bytescope.Image.Png
import Std.Data.HashMap

/-!
# Images as GIF files

Every frame has its own table of 256 colours: its own colours if they are few enough, and
otherwise those of a regular grid. Transparent pixels share one place of the table. The pixels
are written without compression, so that all codes are nine bits long.

## Main definitions

* `Gif.encode`: the bytes of a GIF file.
-/

namespace Bytescope.Gif

/-- Places of a table of colours. -/
def tableSize : Nat := 256

/-- A colour without its opacity. -/
abbrev Colour := UInt8 × UInt8 × UInt8

/-- The colour of a pixel. -/
def colourOf (p : Pixel) : Colour := (p.red, p.green, p.blue)

/-- A table of colours with the place of each colour and of transparent pixels. -/
structure Palette where
  /-- The colours. -/
  colours : Array Colour
  /-- The place of a colour. -/
  place : Colour → Nat
  /-- The place of transparent pixels, if there are any. -/
  transparent : Option Nat

/-- The different colours of the pixels that can be seen, each with its place. -/
def coloursOf (image : Image) : Std.HashMap Colour Nat × Array Colour :=
  image.pixels.foldl (fun (places, colours) p =>
    if p.alpha = 0 ∨ places.contains (colourOf p) then (places, colours)
    else (places.insert (colourOf p) colours.size, colours.push (colourOf p))) (∅, #[])

/-- The colours of a grid with six steps in each direction. -/
def grid : Array Colour :=
  Array.ofFn fun i : Fin 216 =>
    (UInt8.ofNat (i.val / 36 * 51), UInt8.ofNat (i.val / 6 % 6 * 51), UInt8.ofNat (i.val % 6 * 51))

/-- The place of the colour of the grid that is nearest to a colour. -/
def gridPlace (c : Colour) : Nat :=
  let step (value : UInt8) : Nat := (value.toNat + 25) / 51
  36 * step c.1 + 6 * step c.2.1 + step c.2.2

/-- The palette of an image. -/
def paletteOf (image : Image) : Palette :=
  let (places, colours) := coloursOf image
  let hasTransparent := image.pixels.any (·.alpha = 0)
  let room := if hasTransparent then tableSize - 1 else tableSize
  let transparent := if hasTransparent then some (tableSize - 1) else none
  if colours.size ≤ room then ⟨colours, fun c => places.getD c 0, transparent⟩
  else ⟨grid, gridPlace, transparent⟩

/-- Bits that are still to be written, lowest first, after the bytes that are complete. -/
structure BitWriter where
  /-- The complete bytes. -/
  bytes : ByteArray
  /-- The remaining bits. -/
  bits : Nat
  /-- Their number. -/
  count : Nat

/-- Writes a code of nine bits. -/
def BitWriter.push (w : BitWriter) (code : Nat) : BitWriter :=
  let bits := w.bits + (code <<< w.count)
  if w.count + 9 < 16 then
    ⟨w.bytes.push (UInt8.ofNat bits), bits >>> 8, w.count + 1⟩
  else
    ⟨(w.bytes.push (UInt8.ofNat bits)).push (UInt8.ofNat (bits >>> 8)), bits >>> 16, w.count - 7⟩

/-- Writes the places of pixels. The table of codes is cleared before it gets so long that codes
would need another bit. -/
def codes (places : Array Nat) : ByteArray :=
  let w := places.size.fold (fun i h (w : BitWriter) =>
    let w := if i % 250 = 0 then w.push tableSize else w
    w.push places[i]) ⟨ByteArray.empty, 0, 0⟩
  let w := w.push (tableSize + 1)
  if w.count = 0 then w.bytes else w.bytes.push (UInt8.ofNat w.bits)

/-- Bytes in blocks of at most 255, with an empty block at the end. -/
def blocks (bytes : ByteArray) : ByteArray :=
  (((bytes.size + 254) / 255).fold (fun i _ out =>
    let block := bytes.extract (i * 255) ((i + 1) * 255)
    out.push (UInt8.ofNat block.size) ++ block) ByteArray.empty).push 0

/-- One frame, shown for a time in hundredths of a second. -/
def frame (image : Image) (delay : Nat) : ByteArray :=
  let palette := paletteOf image
  let colours := (List.range tableSize).flatMap fun i =>
    let c := palette.colours[i]?.getD (0, 0, 0)
    [c.1, c.2.1, c.2.2]
  let places := image.pixels.map fun p =>
    if p.alpha = 0 then palette.transparent.getD 0 else palette.place (colourOf p)
  let transparent := match palette.transparent with
    | some place => [1] ++ Png.littleEndian delay ++ [UInt8.ofNat place]
    | none => [0] ++ Png.littleEndian delay ++ [0]
  Png.pushAll ByteArray.empty ([0x21, 0xF9, 4] ++ transparent ++ [0, 0x2C, 0, 0, 0, 0] ++
    Png.littleEndian image.width ++ Png.littleEndian image.height ++ [0x87] ++ colours ++ [8]) ++
    blocks (codes places)

/-- The bytes of a GIF file of the size of its first frame, each frame being shown for a time in
milliseconds. -/
def encode (first : Image) (rest : List Image) (delay : Nat) : ByteArray :=
  let header := Png.pushAll "GIF89a".toUTF8
    (Png.littleEndian first.width ++ Png.littleEndian first.height ++ [0, 0, 0])
  ((first :: rest).foldl (fun bytes image => bytes ++ frame image (delay / 10)) header).push 0x3B

end Bytescope.Gif
