import Bytescope.Image

/-!
# Images as PNG files

The pixels are written row by row, each row unfiltered, in stored blocks of the zlib format.

## Main definitions

* `Png.encode`: the bytes of a PNG file.
-/

namespace Bytescope.Png

/-- A number in four bytes, highest byte first. -/
def bigEndian (n : UInt32) : List UInt8 :=
  [(n >>> 24).toUInt8, (n >>> 16).toUInt8, (n >>> 8).toUInt8, n.toUInt8]

/-- A number in two bytes, lowest byte first. -/
def littleEndian (n : Nat) : List UInt8 := [UInt8.ofNat n, UInt8.ofNat (n / 256)]

/-- Divides by the polynomial of the check sum, one bit at a time. -/
def divide : Nat → UInt32 → UInt32
  | 0, c => c
  | bits + 1, c => divide bits (if c &&& 1 = 1 then (c >>> 1) ^^^ 0xEDB88320 else c >>> 1)

/-- The cyclic check sum of bytes. -/
def crc (bytes : ByteArray) : UInt32 :=
  bytes.foldl (fun c byte => divide 8 (c ^^^ byte.toUInt32)) 0xFFFFFFFF ^^^ 0xFFFFFFFF

/-- The check sum of the zlib format: the sum of the bytes, and the sum of these sums. -/
def adler (bytes : ByteArray) : UInt32 :=
  let (a, b) := bytes.foldl (fun (a, b) byte =>
    let a := (a + byte.toUInt32) % 65521
    (a, (b + a) % 65521)) ((1 : UInt32), (0 : UInt32))
  (b <<< 16) ||| a

/-- Adds bytes at the end. -/
def pushAll (bytes : ByteArray) (more : List UInt8) : ByteArray := more.foldl ByteArray.push bytes

/-- A chunk: its length, its kind and content, and their check sum. -/
def chunk (kind : String) (content : ByteArray) : ByteArray :=
  let body := kind.toUTF8 ++ content
  pushAll (pushAll ByteArray.empty (bigEndian content.size.toUInt32) ++ body)
    (bigEndian (crc body))

/-- The rows of an image, each after the mark of an unfiltered row. -/
def rows (image : Image) : ByteArray :=
  image.height.fold (fun row _ bytes =>
    (image.pixels.extract (row * image.width) ((row + 1) * image.width)).foldl
      (fun bytes pixel => pushAll bytes pixel.toBytes) (bytes.push 0)) ByteArray.empty

/-- Most bytes of a stored block. -/
def blockLimit : Nat := 65535

/-- Bytes in the zlib format, in stored blocks. -/
def store (bytes : ByteArray) : ByteArray :=
  let blocks := max 1 ((bytes.size + blockLimit - 1) / blockLimit)
  let stored := blocks.fold (fun i _ out =>
    let block := bytes.extract (i * blockLimit) ((i + 1) * blockLimit)
    let last : UInt8 := if i + 1 = blocks then 1 else 0
    pushAll out (last :: littleEndian block.size ++ littleEndian (blockLimit - block.size)) ++
      block) (pushAll ByteArray.empty [0x78, 0x01])
  pushAll stored (bigEndian (adler bytes))

/-- The bytes of a PNG file. -/
def encode (image : Image) : ByteArray :=
  let header := pushAll ByteArray.empty (bigEndian image.width.toUInt32 ++
    bigEndian image.height.toUInt32 ++ [8, 6, 0, 0, 0])
  pushAll ByteArray.empty [0x89, 0x50, 0x4E, 0x47, 0x0D, 0x0A, 0x1A, 0x0A] ++
    chunk "IHDR" header ++ chunk "IDAT" (store (rows image)) ++ chunk "IEND" ByteArray.empty

end Bytescope.Png
