import Bytescope.Entropy
import Bytescope.Pattern.Scan

/-!
# The opacity of samples

Before a frame is made, every sample gets an opacity. It is full, or it comes from the
patterns that occur in the window, or it shows the entropy of the block of samples that the
sample belongs to.

## Main definitions

* `Opacity`: the three policies.
* `Opacity.blockBytes?`, `Opacity.blockwise`: the bytes of a block, and opacity from their entropy.
* `Opacity.generate`: the opacities of one frame.
-/

namespace Bytescope

/-- Where the opacity of samples comes from. -/
inductive Opacity
  /-- All samples are fully opaque. -/
  | constant
  /-- From the patterns that occur. -/
  | pattern
  /-- From the entropy of blocks of samples. -/
  | entropy
  deriving DecidableEq, Repr

namespace Opacity

/-- The word for a policy. -/
def name : Opacity → String
  | .constant => "constant"
  | .pattern => "pattern"
  | .entropy => "entropy"

/-- All policies. -/
def all : List Opacity := [.constant, .pattern, .entropy]

/-- Makes every sample fully opaque. -/
def full (alpha : Array UInt8) : Array UInt8 := Array.replicate alpha.size opaqueAlpha

/-- The bytes of the block that starts at sample `block * index` of `samples`, the last block being
cut short. Positions are counted in 64-bit words, and a block that starts beyond its end or the
window's has no bytes to read. -/
def blockBytes? (window : Array UInt8) (footprint block samples index : Nat) :
    Option (Array UInt8) :=
  let start := index * block * footprint % wordSize
  let length := min block (samples - index * block) * footprint
  let stop := min ((start + length) % wordSize) window.size
  if start ≤ stop then some (window.extract start stop) else none

/-- The opacity of a block: that of the entropy of its bytes, and full opacity where there are none
to read. -/
def ofBlock (window : Array UInt8) (footprint block samples index : Nat) : UInt8 :=
  match blockBytes? window footprint block samples index with
  | some bytes => alphaOfEntropy (shannonEntropy bytes)
  | none => opaqueAlpha

/-- How many blocks it takes to hold the samples, the last one being cut short. -/
def blockCount (samples block : Nat) : Nat := (samples + block - 1) / block

/-- Every sample lies in one of the blocks. -/
theorem div_lt_blockCount {samples block sample : Nat} (hb : 0 < block)
    (hs : sample < samples) : sample / block < blockCount samples block := by
  have hle : sample / block ≤ (samples - 1) / block := Nat.div_le_div_right (by omega)
  have heq : samples + block - 1 = samples - 1 + block := by omega
  rw [blockCount, heq, Nat.add_div_right _ hb]
  omega

/-- Splits the samples into blocks of a positive size and gives each sample the opacity of its
block. -/
def spread (window : Array UInt8) (footprint block samples : Nat) (hb : 0 < block) :
    Array UInt8 :=
  let values := Vector.ofFn fun index : Fin (blockCount samples block) =>
    ofBlock window footprint block samples index
  Array.ofFn fun sample : Fin samples =>
    values.get ⟨sample.val / block, div_lt_blockCount hb sample.isLt⟩

/-- The opacities of blocks of samples. A block or a footprint of zero counts as one. -/
def blockwise (alpha window : Array UInt8) (footprint block : Nat) : Array UInt8 :=
  spread window (max footprint 1) (max block 1) alpha.size (by omega)

/-- The opacities of the samples of a window, from those of the last frame. Full opacity is
written when the policy is chosen and then left alone. -/
def generate (mode : Opacity) (alpha window : Array UInt8) (footprint block : Nat)
    (patterns : PatternSet) : PatternSet.Outcome :=
  match mode with
  | .constant => ⟨patterns, alpha, []⟩
  | .entropy => ⟨patterns, blockwise alpha window footprint block, []⟩
  | .pattern =>
    if patterns.isEmpty then ⟨patterns, full alpha, []⟩
    else patterns.scan window footprint alpha

end Opacity

end Bytescope
