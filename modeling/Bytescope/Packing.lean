import Bytescope.ByteTable
import Bytescope.Mapping

/-!
# How samples become pixels

A packing turns the bytes of one sample, and the opacity computed for it, into one pixel.

## Main definitions

* `Pixel`: a colour with its opacity.
* `Packing`, `Packing.pack?`: the four packings, and the pixel of a sample.
* `streamCode`: the three characters that tell a receiver how frames are made.
-/

namespace Bytescope

/-- A colour with its opacity. -/
structure Pixel where
  red : UInt8
  green : UInt8
  blue : UInt8
  alpha : UInt8
  deriving DecidableEq, Repr

namespace Pixel

/-- The pixel shown where no sample lies: opaque black. -/
def background : Pixel := ⟨0, 0, 0, opaqueAlpha⟩

instance : Inhabited Pixel := ⟨background⟩

/-- A grey of the given intensity and opacity. -/
def grey (intensity alpha : UInt8) : Pixel := ⟨intensity, intensity, intensity, alpha⟩

/-- The four channels in order. -/
def toBytes (p : Pixel) : List UInt8 := [p.red, p.green, p.blue, p.alpha]

end Pixel

/-- How the bytes of a sample become a pixel. -/
inductive Packing
  /-- Four bytes: the colour and its opacity. -/
  | tight
  /-- Three bytes: the colour. -/
  | tightNoAlpha
  /-- One byte: a grey. -/
  | intensity
  /-- One byte: the grey of its frequency. -/
  | histogramIntensity
  deriving DecidableEq, Repr

namespace Packing

/-- The digit that stands for the packing in a stream code. -/
def index : Packing → Nat
  | .tight => 0
  | .tightNoAlpha => 1
  | .intensity => 2
  | .histogramIntensity => 3

/-- Bytes that make up one pixel. -/
def baseFootprint : Packing → Nat
  | .tight => 4
  | .tightNoAlpha => 3
  | .intensity | .histogramIntensity => 1

/-- Bytes of one sample under a mapping: those of its pixel and those of its coordinates. -/
def footprint (packing : Packing) (mapping : Mapping) : Nat :=
  packing.baseFootprint + mapping.extraBytes

/-- Whether the pixel takes the opacity that was computed for the sample. -/
def usesAlpha : Packing → Bool
  | .tight => false
  | .tightNoAlpha | .intensity | .histogramIntensity => true

/-- The word for a packing. -/
def name : Packing → String
  | .tight => "tight"
  | .tightNoAlpha => "tight-no-alpha"
  | .intensity => "intensity"
  | .histogramIntensity => "histogram-intensity"

/-- All packings. -/
def all : List Packing := [.tight, .tightNoAlpha, .intensity, .histogramIntensity]

/-- The pixel of a sample, from the bytes after its coordinates, the opacity computed for it
and the grey of each byte value. There is none if the bytes are too few. -/
def pack? (packing : Packing) (bytes : List UInt8) (alpha : UInt8)
    (greys : ByteTable UInt8) : Option Pixel :=
  match packing, bytes with
  | .tight, r :: g :: b :: a :: _ => some ⟨r, g, b, a⟩
  | .tightNoAlpha, r :: g :: b :: _ => some ⟨r, g, b, alpha⟩
  | .intensity, v :: _ => some (Pixel.grey v alpha)
  | .histogramIntensity, v :: _ => some (Pixel.grey (greys.lookup v) alpha)
  | _, _ => none

end Packing

/-- The character that stands for a digit; what lies beyond the last byte is held there. -/
def codeDigit (digit : Nat) : UInt8 := UInt8.ofNat (min (48 + digit) 255)

/-- The three characters that tell a receiver how frames are made: packing, mapping and bytes
per sample. -/
def streamCode (packing : Packing) (mapping : Mapping) (footprint : Nat) : List UInt8 :=
  [codeDigit packing.index, codeDigit mapping.index, codeDigit footprint]

end Bytescope
