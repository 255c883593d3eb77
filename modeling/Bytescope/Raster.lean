import Bytescope.Packing

/-!
# Square rasters

A raster holds one pixel for every cell of a square grid, row by row.

## Main definitions

* `Raster`, `Raster.build`: the raster, and a fresh one of a given side.
* `Raster.put`, `Raster.pixel?`, `Raster.clear`: write a pixel, read a pixel, overwrite all.

## Main results

* `pixel?_put`: a written pixel is read back at its cell, and no other cell changes.
* `pixel?_clear`: after clearing, every cell of the grid holds the same pixel.
-/

namespace Bytescope

/-- One pixel for every cell of a square grid. -/
structure Raster where
  /-- The side of the grid. -/
  side : Nat
  /-- The pixels, row by row. -/
  pixels : Array Pixel
  /-- There is one pixel for each cell. -/
  size_pixels : pixels.size = side * side

namespace Raster

/-- The raster of one pixel everywhere. -/
def uniform (side : Nat) (fill : Pixel) : Raster :=
  ⟨side, Array.replicate (side * side) fill, Array.size_replicate⟩

instance : Inhabited Raster := ⟨uniform 0 default⟩

/-- Sides from here on do not fit an image dimension. -/
def sideLimit : Nat := 0x100000000

/-- A fresh raster, or the reason why there is none. The number of cells is looked at before it
is counted on, but the storage of four bytes for each cell is not. -/
def build (side : Nat) (fill : Pixel) : Except Error Raster := do
  if sideLimit ≤ side then throw (.side side .sideTooLargeForRaster)
  if wordSize ≤ side * side then throw (.side side .rasterSizeOverflows)
  let storage ← product (side * side) 4
  reserve "raster" 1 storage
  if storage < side * side * 4 then throw (.side side .storageMismatch)
  return uniform side fill

/-- The place of a cell in the storage. -/
def slot (side : Nat) (p : Point) : Nat := p.y * side + p.x

theorem slot_lt {side : Nat} {p : Point} (hx : p.x < side) (hy : p.y < side) :
    slot side p < side * side :=
  calc p.y * side + p.x < p.y * side + side := by omega
    _ = (p.y + 1) * side := by rw [Nat.add_mul, Nat.one_mul]
    _ ≤ side * side := Nat.mul_le_mul_right side hy

/-- Writes a pixel; a cell off the grid is ignored. -/
def put (r : Raster) (p : Point) (pixel : Pixel) : Raster :=
  if h : p.x < r.side ∧ p.y < r.side then
    ⟨r.side,
      r.pixels.set (slot r.side p) pixel (by rw [r.size_pixels]; exact slot_lt h.1 h.2),
      by rw [Array.size_set, r.size_pixels]⟩
  else r

/-- The pixel of a cell, if it is on the grid. -/
def pixel? (r : Raster) (p : Point) : Option Pixel :=
  if p.x < r.side ∧ p.y < r.side then r.pixels[slot r.side p]? else none

/-- Overwrites every pixel. -/
def clear (r : Raster) (fill : Pixel) : Raster := uniform r.side fill

/-- The channels of all pixels, row by row. -/
def toBytes (r : Raster) : List UInt8 := r.pixels.toList.flatMap Pixel.toBytes

/-! ### Reading after writing -/

@[simp]
theorem side_put (r : Raster) (p : Point) (pixel : Pixel) : (r.put p pixel).side = r.side := by
  unfold put
  split <;> rfl

@[simp]
theorem side_clear (r : Raster) (fill : Pixel) : (r.clear fill).side = r.side := rfl

/-- Different cells have different places in the storage. -/
theorem slot_inj {side : Nat} {p q : Point} (hp : p.x < side) (hq : q.x < side)
    (h : slot side p = slot side q) : p = q := by
  unfold slot at h
  have hpos : 0 < side := by omega
  have hdiv : p.y = q.y := by
    have := congrArg (· / side) h
    simpa [Nat.mul_comm _ side, Nat.mul_add_div hpos, Nat.div_eq_of_lt hp,
      Nat.div_eq_of_lt hq] using this
  have hx : p.x = q.x := by
    rw [hdiv] at h
    omega
  cases p; cases q; simp_all

/-- A written pixel is read back at its cell, and no other cell changes. -/
theorem pixel?_put (r : Raster) (p q : Point) (pixel : Pixel) :
    (r.put p pixel).pixel? q =
      if p = q ∧ q.x < r.side ∧ q.y < r.side then some pixel else r.pixel? q := by
  unfold put
  split
  · rename_i hp
    by_cases hq : q.x < r.side ∧ q.y < r.side
    · by_cases heq : p = q
      · subst heq
        simp [pixel?, hq]
      · have hne : slot r.side p ≠ slot r.side q := fun h => heq (slot_inj hp.1 hq.1 h)
        simp [pixel?, hq, heq, hne]
    · simp [pixel?, hq]
  · rename_i hp
    by_cases heq : p = q
    · subst heq
      simp [hp]
    · simp [heq]

/-- After clearing, every cell of the grid holds the same pixel. -/
theorem pixel?_clear (r : Raster) (fill : Pixel) (q : Point) :
    (r.clear fill).pixel? q = if q.x < r.side ∧ q.y < r.side then some fill else none := by
  by_cases hq : q.x < r.side ∧ q.y < r.side
  · simp [pixel?, clear, uniform, hq, slot_lt hq.1 hq.2]
  · simp [pixel?, clear, uniform, hq]

end Raster

end Bytescope
