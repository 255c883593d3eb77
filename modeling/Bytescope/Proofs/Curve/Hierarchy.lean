import Bytescope.Proofs.Curve.Bijection

/-!
# The curve fills its squares one after the other

Cut a grid into squares of side `2 ^ j`. Seen from afar, each square is a cell of a coarser grid,
and the curve of the finer grid goes over the squares as the curve of the coarser grid goes over
its cells: the cell at an index lies in the square that the coarser curve has at a `4 ^ j`-th of
the index. The placing of a quadrant respects the squares, so this follows by induction on the
level. Hence every run of `4 ^ j` indices that starts at a multiple of `4 ^ j` fills one square.

## Main definitions

* `Point.square`, `Point.squareCells`: the square of a cell, and the cells of a square.
* `Curve.run`: a run of indices.

## Main results

* `Curve.square_cell`: the square of the cell at an index.
* `Curve.bijOn_run`: a run fills the square that the coarser curve has at the run's number.
* `Curve.squares_of_runs`: the curve is a bijection on every scale.
-/

namespace Bytescope

/-- The numbers that a division takes to `q`. -/
theorem mem_Ico_mul_iff {n q i : ℕ} (hn : 0 < n) :
    i ∈ Set.Ico (q * n) ((q + 1) * n) ↔ i / n = q := by
  rw [Nat.div_eq_iff hn, Set.mem_Ico, Nat.succ_mul]
  omega

/-! ### Squares -/

namespace Point

/-- The square of side `2 ^ j` in which a cell lies, by its column and row among the squares. -/
def square (j : ℕ) (p : Point) : Point := ⟨p.x / 2 ^ j, p.y / 2 ^ j⟩

/-- The cells of the square in a column and row of the squares of side `2 ^ j`. -/
def squareCells (j : ℕ) (q : Point) : Set Point :=
  {p | p.x ∈ Set.Ico (q.x * 2 ^ j) ((q.x + 1) * 2 ^ j) ∧
    p.y ∈ Set.Ico (q.y * 2 ^ j) ((q.y + 1) * 2 ^ j)}

theorem mem_squareCells_iff {j : ℕ} {p q : Point} : p ∈ squareCells j q ↔ p.square j = q := by
  have hpos : 0 < 2 ^ j := Nat.two_pow_pos j
  obtain ⟨x, y⟩ := q
  rw [square, Point.mk.injEq, ← mem_Ico_mul_iff hpos, ← mem_Ico_mul_iff hpos]
  rfl

/-- The corner of a square is one of its cells. -/
theorem corner_mem_squareCells (j : ℕ) (q : Point) :
    (⟨q.x * 2 ^ j, q.y * 2 ^ j⟩ : Point) ∈ squareCells j q := by
  have hpos : 0 < 2 ^ j := Nat.two_pow_pos j
  rw [mem_squareCells_iff, square, Nat.mul_div_cancel _ hpos, Nat.mul_div_cancel _ hpos]

/-- The squares of the grid hold cells of the grid. -/
theorem OnGrid.of_square {k j : ℕ} {p : Point} (h : (p.square j).OnGrid (2 ^ k)) :
    p.OnGrid (2 ^ (k + j)) := by
  have hpos : 0 < 2 ^ j := Nat.two_pow_pos j
  rw [Nat.pow_add]
  exact ⟨(Nat.div_lt_iff_lt_mul hpos).mp h.1, (Nat.div_lt_iff_lt_mul hpos).mp h.2⟩

end Point

/-- Placing a grid into a quadrant places its squares into that quadrant. -/
theorem Quadrant.square_place {s j : ℕ} {p : Point} (hp : p.OnGrid (s * 2 ^ j)) (a : Quadrant) :
    (a.place (s * 2 ^ j) p).square j = a.place s (p.square j) := by
  have hpos : 0 < 2 ^ j := Nat.two_pow_pos j
  obtain ⟨x, y⟩ := p
  obtain ⟨hx, hy⟩ : x < s * 2 ^ j ∧ y < s * 2 ^ j := hp
  have hadd (i : ℕ) : (s * 2 ^ j + i) / 2 ^ j = s + i / 2 ^ j := by
    rw [Nat.mul_comm, Nat.mul_add_div hpos]
  have hsub {i : ℕ} (hi : i < s * 2 ^ j) : (s * 2 ^ j - 1 - i) / 2 ^ j = s - 1 - i / 2 ^ j := by
    rw [Nat.mul_comm] at hi
    rw [Nat.sub_sub, Nat.sub_sub, Nat.add_comm 1, Nat.add_comm 1, Nat.mul_comm,
      Nat.mul_sub_div _ _ _ hi]
  cases a <;> simp only [place, Point.square, hadd, hsub hx, hsub hy]

namespace Curve

/-! ### Runs of indices -/

/-- The `m`-th of the runs of `4 ^ j` indices. -/
def run (j m : ℕ) : Set ℕ := Set.Ico (m * 4 ^ j) ((m + 1) * 4 ^ j)

theorem mem_run_iff {j m index : ℕ} : index ∈ run j m ↔ index / 4 ^ j = m :=
  mem_Ico_mul_iff (Nat.pow_pos (by decide))

/-- The runs below `4 ^ level` hold the indices of a grid of squares. -/
theorem lt_of_mem_run {level j m index : ℕ} (hm : m < 4 ^ level) (h : index ∈ run j m) :
    index < 4 ^ (level + j) := by
  have hpos : 0 < 4 ^ j := Nat.pow_pos (by decide)
  rw [mem_run_iff] at h
  rw [Nat.pow_add]
  exact (Nat.div_lt_iff_lt_mul hpos).mp (h ▸ hm)

/-- **The curve over squares.** The cell at an index lies in the square that the coarser curve
has at the number of the index's run. -/
theorem square_cell (level j index : ℕ) :
    (cell (level + j) index).square j = cell level (index / 4 ^ j) := by
  induction level with
  | zero =>
    obtain ⟨hx, hy⟩ := cell_lt (0 + j) index
    rw [Nat.zero_add] at hx hy ⊢
    rw [Point.square, Nat.div_eq_of_lt hx, Nat.div_eq_of_lt hy]
    rfl
  | succ level ih =>
    have hdigit : index >>> (2 * (level + j)) = (index / 4 ^ j) >>> (2 * level) := by
      rw [Nat.shiftRight_eq_div_pow, Nat.shiftRight_eq_div_pow, Nat.div_div_eq_div_mul,
        Nat.pow_mul, Nat.pow_mul, ← Nat.pow_add, Nat.add_comm j]
    have hgrid := onGrid_cell (level + j) index
    rw [Nat.pow_add] at hgrid
    rw [Nat.succ_add_eq_add_succ, Nat.add_succ, cell, cell, Nat.one_shiftLeft, Nat.pow_add,
      Quadrant.square_place hgrid, ih, hdigit, Nat.one_shiftLeft]

/-- **A run fills a square**, the one that the coarser curve has at the number of the run. -/
theorem bijOn_run {level j m : ℕ} (hm : m < 4 ^ level) :
    Set.BijOn (cell (level + j)) (run j m) (Point.squareCells j (cell level m)) := by
  refine ⟨fun index h => ?_, fun i hi i' hi' h => ?_, fun p hp => ?_⟩
  · rw [Point.mem_squareCells_iff, square_cell, mem_run_iff.mp h]
  · exact cell_inj (level + j) (lt_of_mem_run hm hi) (lt_of_mem_run hm hi') h
  · rw [Point.mem_squareCells_iff] at hp
    have hgrid : (p.square j).OnGrid (2 ^ level) := hp ▸ onGrid_cell level m
    obtain ⟨index, hindex, rfl⟩ := exists_cell_eq (level + j) hgrid.of_square
    have hpos : 0 < 4 ^ j := Nat.pow_pos (by decide)
    rw [square_cell] at hp
    rw [Nat.pow_add] at hindex
    exact ⟨index,
      mem_run_iff.mpr (cell_inj level ((Nat.div_lt_iff_lt_mul hpos).mpr hindex) hm hp), rfl⟩

/-- A run fills no other square. -/
theorem eq_of_bijOn_run {level j m : ℕ} (hm : m < 4 ^ level) {q : Point}
    (h : Set.BijOn (cell (level + j)) (run j m) (Point.squareCells j q)) : q = cell level m := by
  have hcells : Point.squareCells j q = Point.squareCells j (cell level m) :=
    h.image_eq.symm.trans (bijOn_run hm).image_eq
  have hcorner := Point.corner_mem_squareCells j q
  have hsquare := hcells ▸ hcorner
  rw [Point.mem_squareCells_iff] at hcorner hsquare
  exact hcorner.symm.trans hsquare

/-- **A bijection on every scale.** On a grid whose side is `2 ^ k`, cut into squares of side
`2 ^ j`, every run of `4 ^ j` indices fills exactly one square of the grid, cell for cell, and
different runs fill different squares. In particular the indices of the grid hit every cell of
it once. -/
theorem squares_of_runs (k j : ℕ) (hj : j ≤ k) :
    (∀ m < 4 ^ (k - j), ∃! q : Point, q.OnGrid (2 ^ (k - j)) ∧
      Set.BijOn (point (2 ^ k)) (run j m) (Point.squareCells j q)) ∧
    (∀ m < 4 ^ (k - j), ∀ n < 4 ^ (k - j), ∀ q,
      Set.BijOn (point (2 ^ k)) (run j m) (Point.squareCells j q) →
      Set.BijOn (point (2 ^ k)) (run j n) (Point.squareCells j q) → m = n) ∧
    Set.BijOn (point (2 ^ k)) (Set.Iio (2 ^ k * 2 ^ k)) {p | p.OnGrid (2 ^ k)} := by
  have hpoint : point (2 ^ k) = cell k := by
    funext index
    rw [point, level_two_pow]
  obtain ⟨level, rfl⟩ := Nat.exists_eq_add_of_le' hj
  rw [Nat.add_sub_cancel, hpoint]
  refine ⟨fun m hm => ⟨cell level m, ⟨onGrid_cell level m, bijOn_run hm⟩, fun q hq => ?_⟩,
    fun m hm n hn q hqm hqn => ?_, ?_⟩
  · exact eq_of_bijOn_run hm hq.2
  · exact cell_inj level hm hn ((eq_of_bijOn_run hm hqm).symm.trans (eq_of_bijOn_run hn hqn))
  · rw [← Nat.mul_pow]
    exact bijOn_grid (level + j)

/-- On the grid of side 8, the indices from 52 to 55 fill the square of side 2 in the third column
and the second row of squares. -/
theorem squares_of_runs_side_eight :
    1 ≤ 3 ∧ 13 < 4 ^ (3 - 1) ∧ run 1 13 = Set.Ico 52 56 ∧
      Set.BijOn (point (2 ^ 3)) (run 1 13) (Point.squareCells 1 ⟨2, 1⟩) := by
  obtain ⟨q, ⟨-, hfills⟩, -⟩ := (squares_of_runs 3 1 (by decide)).1 13 (by decide)
  have hcell : point (2 ^ 3) 52 = ⟨5, 3⟩ := by
    rw [point, level_two_pow]
    rfl
  have hsquare := hfills.mapsTo (mem_run_iff.mpr (by decide : 52 / 4 ^ 1 = 13))
  rw [hcell, Point.mem_squareCells_iff] at hsquare
  obtain rfl : ⟨2, 1⟩ = q := hsquare
  exact ⟨by decide, by decide, rfl, hfills⟩

end Curve

end Bytescope
