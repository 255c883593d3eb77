import Bytescope.Opacity
import Mathlib.Data.List.Basic
import Mathlib.Logic.ExistsUnique
import Mathlib.Order.MinMax
import Mathlib.Order.Nat

/-!
# Opacity from the entropy of blocks

Blocks are counted in samples and read in bytes. The blocks of a window that holds its samples and
nothing else read every byte once, the last one also when it is cut short, so no sample is fully
opaque only because its block reads beyond the window.

## Main definitions

* `Opacity.cut`: where one block ends and the next begins.

## Main results

* `Opacity.flatMap_extract_cut`: blocks up to one of the cuts read the bytes up to it.
* `Opacity.blockBytes?_eq`: the bytes that a block reads.
* `Opacity.blockwise_reads_once`: the opacities of a window, and what they are made from.
-/

namespace Bytescope

namespace Opacity

variable {footprint block samples : ℕ} {window : Array UInt8}

/-! ### Where blocks begin and end -/

/-- The byte at which a block begins and the one before it ends. -/
def cut (footprint block samples index : ℕ) : ℕ := min (index * block) samples * footprint

theorem cut_le_cut_succ (footprint block samples index : ℕ) :
    cut footprint block samples index ≤ cut footprint block samples (index + 1) :=
  Nat.mul_le_mul_right _ (min_le_min_right _ (Nat.mul_le_mul_right _ (Nat.le_succ _)))

theorem mul_lt_of_lt_blockCount {index : ℕ} (hindex : index < blockCount samples block) :
    index * block < samples := by
  have hblock : 0 < block := by
    by_contra hzero
    rw [blockCount, Nat.eq_zero_of_not_pos hzero, Nat.div_zero] at hindex
    exact Nat.not_lt_zero _ hindex
  have hle : (index + 1) * block ≤ samples + block - 1 :=
    (Nat.le_div_iff_mul_le hblock).1 hindex
  rw [Nat.succ_mul] at hle
  omega

theorem le_blockCount_mul (hblock : 0 < block) (samples : ℕ) :
    samples ≤ blockCount samples block * block := by
  have hlt : samples + block - 1 < blockCount samples block * block + block :=
    Nat.lt_div_mul_add hblock
  omega

theorem cut_of_lt {index : ℕ} (hindex : index < blockCount samples block) :
    cut footprint block samples index = index * block * footprint := by
  rw [cut, Nat.min_eq_left (mul_lt_of_lt_blockCount hindex).le]

theorem cut_blockCount (hblock : 0 < block) :
    cut footprint block samples (blockCount samples block) = samples * footprint := by
  rw [cut, Nat.min_eq_right (le_blockCount_mul hblock samples)]

/-- A byte lies in one block, that of the sample it belongs to. -/
theorem mem_block_iff {position index : ℕ} (hfootprint : 0 < footprint) (hblock : 0 < block)
    (hposition : position < samples * footprint) :
    index * block * footprint ≤ position ∧
        position < min ((index + 1) * block) samples * footprint ↔
      position / footprint / block = index := by
  have hsample : position / footprint < samples := (Nat.div_lt_iff_lt_mul hfootprint).2 hposition
  rw [← Nat.le_div_iff_mul_le hfootprint, ← Nat.div_lt_iff_lt_mul hfootprint, lt_min_iff,
    and_iff_left hsample, Nat.div_eq_iff hblock, Nat.succ_mul]
  omega

/-! ### What blocks read -/

/-- Blocks up to one of the cuts read the bytes up to it. -/
theorem flatMap_extract_cut (window : Array UInt8) (footprint block samples count : ℕ) :
    (List.range count).flatMap (fun index => (window.extract (cut footprint block samples index)
      (cut footprint block samples (index + 1))).toList) =
      window.toList.take (cut footprint block samples count) := by
  induction count with
  | zero => simp [cut]
  | succ count ih =>
    have hle := cut_le_cut_succ footprint block samples count
    rw [List.range_succ, List.flatMap_append, ih, List.flatMap_singleton, Array.toList_extract,
      List.extract_eq_take_drop, ← List.take_add, Nat.add_sub_of_le hle]

/-- A block reads its own bytes, as long as the window holds its samples and its size is a 64-bit
word. -/
theorem blockBytes?_eq {index : ℕ} (hwindow : window.size = samples * footprint)
    (hword : window.size < wordSize) (hindex : index < blockCount samples block) :
    blockBytes? window footprint block samples index =
      some (window.extract (index * block * footprint)
        (min ((index + 1) * block) samples * footprint)) := by
  have hlt := mul_lt_of_lt_blockCount hindex
  have hstart : index * block * footprint ≤ window.size :=
    hwindow ▸ Nat.mul_le_mul_right _ hlt.le
  have hstop : min ((index + 1) * block) samples * footprint ≤ window.size :=
    hwindow ▸ Nat.mul_le_mul_right _ (Nat.min_le_right _ _)
  have hend : index * block * footprint + min block (samples - index * block) * footprint =
      min ((index + 1) * block) samples * footprint := by
    rw [← Nat.add_mul, Nat.succ_mul]
    congr 1
    omega
  have hle : index * block * footprint ≤ min ((index + 1) * block) samples * footprint :=
    hend ▸ Nat.le_add_right _ _
  rw [blockBytes?, Nat.mod_eq_of_lt (hstart.trans_lt hword), hend,
    Nat.mod_eq_of_lt (hstop.trans_lt hword), Nat.min_eq_left hstop, if_pos hle]

theorem getElem?_blockwise (alpha window : Array UInt8) (footprint block : ℕ) {sample : ℕ}
    (hsample : sample < alpha.size) :
    (blockwise alpha window footprint block)[sample]? =
      some (ofBlock window (max footprint 1) (max block 1) alpha.size
        (sample / max block 1)) := by
  rw [blockwise, spread, Array.getElem?_ofFn, dif_pos hsample]
  exact congrArg some (Vector.getElem_ofFn _)

/-- **The entropy of blocks reads every byte once.** Let a window hold the samples that opacities
are asked for and nothing else, its size being a 64-bit word. Each sample gets the opacity of the
entropy of the bytes of its block, a block of no samples counting as one, and the last block being
cut short. The bytes of every block are there to be read, so none is fully opaque for want of them.
Every byte lies in one block, and the blocks in their order read the window from end to end. -/
theorem blockwise_reads_once (alpha window : Array UInt8) (footprint block : ℕ)
    (hfootprint : 1 ≤ footprint) (hwindow : window.size = alpha.size * footprint)
    (hword : window.size < wordSize) :
    let size := max block 1
    let count := blockCount alpha.size size
    let bytes (index : ℕ) := window.extract (index * size * footprint)
      (min ((index + 1) * size) alpha.size * footprint)
    let opacities := blockwise alpha window footprint block
    opacities.size = alpha.size ∧
    (∀ sample < alpha.size,
      opacities[sample]? = some (alphaOfEntropy (shannonEntropy (bytes (sample / size))))) ∧
    (∀ index < count, blockBytes? window footprint size alpha.size index = some (bytes index)) ∧
    (∀ position < window.size, ∃! index, index < count ∧ index * size * footprint ≤ position ∧
      position < min ((index + 1) * size) alpha.size * footprint) ∧
    (List.range count).flatMap (fun index => (bytes index).toList) = window.toList := by
  intro size count bytes opacities
  have hsize : 0 < size := Nat.lt_of_lt_of_le Nat.zero_lt_one (Nat.le_max_right _ _)
  have hread (index : ℕ) (hindex : index < count) :
      blockBytes? window footprint size alpha.size index = some (bytes index) :=
    blockBytes?_eq hwindow hword hindex
  refine ⟨by simp only [opacities, blockwise, spread, Array.size_ofFn], fun sample hsample => ?_,
    hread, fun position hposition => ?_, ?_⟩
  · have hindex : sample / size < count := div_lt_blockCount hsize hsample
    rw [getElem?_blockwise alpha window footprint block hsample, Nat.max_eq_left hfootprint,
      ofBlock, hread _ hindex]
  · rw [hwindow] at hposition
    have hsample : position / footprint < alpha.size :=
      (Nat.div_lt_iff_lt_mul hfootprint).2 hposition
    have hmem (index : ℕ) : _ ↔ position / footprint / size = index :=
      mem_block_iff hfootprint hsize hposition
    refine ⟨position / footprint / size, ⟨div_lt_blockCount hsize hsample, (hmem _).2 rfl⟩, ?_⟩
    rintro index ⟨-, hindex⟩
    exact ((hmem index).1 hindex).symm
  · have hcuts (index : ℕ) (hindex : index ∈ List.range count) : (bytes index).toList =
        (window.extract (cut footprint size alpha.size index)
          (cut footprint size alpha.size (index + 1))).toList := by
      rw [cut_of_lt (List.mem_range.1 hindex), cut]
    rw [List.flatMap_congr hcuts, flatMap_extract_cut, cut_blockCount hsize, ← hwindow,
      ← Array.length_toList, List.take_length]

/-- Five samples of two bytes in blocks of two: the fifth has a block of its own, which is cut short
and reads the last two bytes. -/
theorem blockwise_reads_once_short :
    let alpha : Array UInt8 := Array.replicate 5 0
    let window : Array UInt8 := #[0, 1, 2, 3, 4, 5, 6, 7, 8, 9]
    1 ≤ 2 ∧ window.size = alpha.size * 2 ∧ window.size < wordSize ∧
      (blockwise alpha window 2 2)[4]? = some (alphaOfEntropy (shannonEntropy #[8, 9])) ∧
      blockBytes? window 2 2 5 2 = some #[8, 9] ∧
      blockBytes? window 2 2 5 1 = some #[4, 5, 6, 7] := by
  intro alpha window
  obtain ⟨-, hopacity, hbytes, -⟩ :=
    blockwise_reads_once alpha window 2 2 (by decide) (by decide) (by decide)
  exact ⟨by decide, by decide, by decide, hopacity 4 (by decide), hbytes 2 (by decide),
    hbytes 1 (by decide)⟩

end Opacity

end Bytescope
