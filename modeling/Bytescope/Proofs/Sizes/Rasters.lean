import Bytescope.Raster
import Mathlib.Algebra.Order.Ring.Nat
import Mathlib.Tactic.SplitIfs

/-!
# The sizes of rasters

A raster makes sure that its number of cells fits into a word. The cells of a side that fits an
image dimension always do, but their bytes do not: four for each cell are too many for a word once
the side takes 32 binary digits, and then there is no answer at all. Below that the storage is
granted or refused like any other buffer.

## Main results

* `Raster.build_eq`: what becomes of a raster of any side.
* `Raster.build_eq_ok_iff`: the rasters that are granted.
-/

namespace Bytescope.Raster

variable {side : ℕ} {fill : Pixel} {r : Raster}

/-- The number of cells always fits into a word, so that it is never what refuses a side. -/
theorem cells_lt (h : side < sideLimit) : side * side < wordSize :=
  Nat.mul_lt_mul'' h h

/-- The bytes fit into a word unless the side takes 32 binary digits. -/
theorem bytes_lt_iff : side * side * 4 < wordSize ↔ side < 2 ^ 31 := by
  have hword : wordSize = 2 ^ 31 * 2 ^ 31 * 4 := rfl
  rw [hword, Nat.mul_lt_mul_right (by decide), Nat.mul_self_lt_mul_self_iff]

/-- **What becomes of a raster.** Its side is too large for an image, its bytes cannot be counted,
they are too many for a buffer, or it is granted. -/
theorem build_eq (side : ℕ) (fill : Pixel) : build side fill =
    if sideLimit ≤ side then .error (.side side .sideTooLargeForRaster)
    else if 2 ^ 31 ≤ side then .error .overflow
    else if maxBufferBytes < side * side * 4 then .error (.allocation "raster" (side * side * 4))
    else .ok (uniform side fill) := by
  rw [build]
  by_cases hside : sideLimit ≤ side
  · rw [if_pos hside, if_pos hside]
    rfl
  · have hcells := cells_lt (Nat.lt_of_not_le hside)
    rw [if_neg hside, if_neg hside, if_neg (Nat.not_le.mpr hcells)]
    by_cases hlarge : 2 ^ 31 ≤ side
    · have hbytes : ¬ side * side * 4 < wordSize := fun h =>
        Nat.not_lt.mpr hlarge (bytes_lt_iff.mp h)
      rw [if_pos hlarge, product, if_neg hbytes]
      rfl
    · have hbytes := bytes_lt_iff.mpr (Nat.lt_of_not_le hlarge)
      rw [if_neg hlarge, product_of_lt hbytes]
      dsimp only [bind, Except.bind]
      rw [reserve, Nat.mul_one, if_neg (Nat.lt_irrefl _)]
      by_cases hfits : side * side * 4 ≤ maxBufferBytes
      · rw [if_pos hfits, if_neg (Nat.not_lt.mpr hfits)]
        rfl
      · rw [if_neg hfits, if_pos (Nat.lt_of_not_le hfits)]

/-- The rasters that are granted: those whose pixels fit into a buffer. -/
theorem build_eq_ok_iff : build side fill = .ok r ↔
    side * side * 4 ≤ maxBufferBytes ∧ r = uniform side fill := by
  have hsmall (hbytes : side * side * 4 ≤ maxBufferBytes) : side < 2 ^ 31 :=
    bytes_lt_iff.mp (Nat.lt_of_le_of_lt hbytes (by decide))
  rw [build_eq]
  constructor
  · intro h
    split_ifs at h with hside hlarge hbytes
    exact ⟨Nat.not_lt.mp hbytes, (Except.ok.inj h).symm⟩
  · rintro ⟨hbytes, rfl⟩
    have hside := hsmall hbytes
    rw [if_neg (Nat.not_le.mpr (Nat.lt_trans hside (by decide))), if_neg (Nat.not_le.mpr hside),
      if_neg (Nat.not_lt.mpr hbytes)]

theorem eq_uniform_iff :
    r = uniform side fill ↔ r.side = side ∧ r.pixels = Array.replicate (side * side) fill := by
  obtain ⟨side', pixels, hsize⟩ := r
  rw [uniform, mk.injEq]

end Bytescope.Raster
