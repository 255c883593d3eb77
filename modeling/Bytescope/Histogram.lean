import Bytescope.ByteTable
import Bytescope.Settings

/-!
# Byte frequencies

A histogram counts how often each of the 256 byte values occurs. Counts stop at
`bucketLimit`. Scaling a histogram gives every value its share of 255, rounded to the nearest
integer with halves going up; the scaled counts serve as a table of grey intensities.

## Main definitions

* `Histogram`, `Histogram.ofBytes`: the table, and the table of a sequence of bytes.
* `Histogram.normalize`, `Histogram.intensities`: the scaled table.
-/

namespace Bytescope

/-- How often each byte value occurs. -/
structure Histogram where
  /-- The count of each byte value. -/
  counts : ByteTable Nat
  deriving DecidableEq

namespace Histogram

/-- The histogram that has counted nothing. -/
def empty : Histogram := ⟨ByteTable.uniform 0⟩

instance : Inhabited Histogram := ⟨empty⟩

/-- The count of one byte value. -/
def count (h : Histogram) (byte : UInt8) : Nat := h.counts.lookup byte

/-- Counts one byte; a bucket that has reached its limit stays there. -/
def absorb (h : Histogram) (byte : UInt8) : Histogram :=
  ⟨h.counts.update byte (min (h.count byte + 1) bucketLimit)⟩

/-- Counts every byte of a list. -/
def absorbAll (h : Histogram) (bytes : List UInt8) : Histogram :=
  bytes.foldl absorb h

/-- The histogram of a buffer. -/
def ofBytes (bytes : Array UInt8) : Histogram :=
  bytes.foldl absorb empty

/-- Sum of all buckets. -/
def total (h : Histogram) : Nat := h.counts.foldl (· + ·) 0

/-- The natural number nearest to a number, halves up. It is held at the limit of a bucket; what
is negative or no number at all gives zero. -/
def nearestCount (x : Float) : Nat :=
  match x.toModel.unpack with
  | .finite .positive significand exponent _ =>
    let numerator := significand <<< exponent.toNat
    let denominator := 1 <<< (-exponent).toNat
    min ((2 * numerator + denominator) / (2 * denominator)) bucketLimit
  | .infinity .positive => bucketLimit
  | _ => 0

/-- The share that `count` has of 255 when all counts add up to `total`, computed in floating
point and rounded to the nearest integer, halves up. -/
def share (total count : Nat) : Nat :=
  nearestCount (255.0 * (UInt32.ofNat count).toFloat / (UInt64.ofNat total).toFloat)

/-- Gives every bucket its share of 255. A histogram that has counted nothing stays as it
is. -/
def normalize (h : Histogram) : Histogram :=
  if h.total = 0 then h else ⟨h.counts.map (share h.total)⟩

/-- The grey intensity of each byte value: its scaled count. -/
def intensities (h : Histogram) : ByteTable UInt8 :=
  h.normalize.counts.map fun count => UInt8.ofNat (min count 255)

/-! ### Counting -/

theorem ofBytes_eq_absorbAll (bytes : Array UInt8) :
    ofBytes bytes = empty.absorbAll bytes.toList := by
  simp [ofBytes, absorbAll]

@[simp]
theorem absorbAll_nil (h : Histogram) : h.absorbAll [] = h := rfl

theorem absorbAll_append (h : Histogram) (xs ys : List UInt8) :
    h.absorbAll (xs ++ ys) = (h.absorbAll xs).absorbAll ys :=
  List.foldl_append

@[simp]
theorem count_empty (byte : UInt8) : empty.count byte = 0 :=
  ByteTable.lookup_uniform 0 byte

theorem count_absorb (h : Histogram) (byte other : UInt8) :
    (h.absorb byte).count other =
      if byte = other then min (h.count byte + 1) bucketLimit else h.count other :=
  ByteTable.lookup_update h.counts byte other _

end Histogram

end Bytescope
