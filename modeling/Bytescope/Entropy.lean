import Bytescope.Histogram

/-!
# Shannon entropy of bytes

The entropy of a buffer is the mean, over its positions, of the information `-log₂ p` of the
byte there, where `p` is that byte's share of a histogram. It lies between 0 and 8 bits.

## Main definitions

* `shannonEntropyWith`, `shannonEntropy`: with a given histogram, and with the buffer's own.
* `unitEntropy`: entropy on the scale from 0 to 1.
* `alphaOfEntropy`: entropy as an opacity.
-/

namespace Bytescope

/-- Holds `x` between `low` and `high`; what compares with neither stays. -/
def clampFloat (low high x : Float) : Float :=
  if x < low then low else if high < x then high else x

/-- Mean information of the positions of `bytes` under the given counts, in bits. A position
whose byte was never counted adds nothing, and an empty buffer has none. -/
def shannonEntropyWith (bytes : Array UInt8) (histogram : Histogram) : Float :=
  if bytes.isEmpty then 0.0
  else
    let length := Float.ofNat bytes.size
    let information := bytes.foldl
      (fun sum byte =>
        let count := histogram.count byte
        if count = 0 then sum else sum - (Float.ofNat count / length).log2)
      0.0
    clampFloat 0.0 entropyBitsPerByte (information / length)

/-- Shannon entropy of a buffer under its own histogram, in bits per byte. -/
def shannonEntropy (bytes : Array UInt8) : Float :=
  shannonEntropyWith bytes (Histogram.ofBytes bytes)

/-- Entropy in bits per byte, scaled to the unit interval. -/
def unitEntropy (bits : Float) : Float :=
  clampFloat 0.0 1.0 (bits / entropyBitsPerByte)

/-- The opacity that stands for an entropy: its share of 8 bits, out of 255. -/
def alphaOfEntropy (bits : Float) : UInt8 :=
  (clampFloat 0.0 255.0 (255.0 * bits / entropyBitsPerByte).round).toUInt8

end Bytescope
