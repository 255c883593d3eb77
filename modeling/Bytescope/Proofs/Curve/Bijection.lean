import Bytescope.Curve.Lemmas
import Bytescope.Raster
import Mathlib.Data.Set.Function
import Mathlib.Order.Interval.Set.Defs
import Mathlib.Tactic.SplitIfs

/-!
# Every cell has its sample

The four quadrants of a grid cover it and do not meet, so by induction on the level the curve
visits every cell of its grid exactly once. The same holds row by row. Layouts that leave no
cell uncovered therefore place exactly one sample at each cell.

## Main definitions

* `Layout.Enumerates`: the samples go to the cells of the grid in order.

## Main results

* `Curve.bijOn_grid`: the curve is a bijection onto its grid.
* `CurveTable.point?_of_build`: the table of the curve lists its points.
* `Layout.exists_enumerates`: a layout that is not sparse goes through the grid one-to-one.
* `Layout.existsUnique_locate`: a layout that is not sparse places exactly one sample at each
  cell.
-/

namespace Bytescope

/-- The cell lies on the grid of a side. -/
def Point.OnGrid (p : Point) (side : ℕ) : Prop := p.x < side ∧ p.y < side

instance (p : Point) (side : ℕ) : Decidable (p.OnGrid side) :=
  inferInstanceAs (Decidable (p.x < side ∧ p.y < side))

/-! ### Cells by their places -/

/-- The cell at a place in the storage of a raster. -/
def Point.ofSlot (side slot : ℕ) : Point := ⟨slot % side, slot / side⟩

theorem Point.onGrid_ofSlot {side slot : ℕ} (h : slot < side * side) :
    (ofSlot side slot).OnGrid side := by
  have hpos : 0 < side := Nat.pos_of_mul_pos_right (Nat.zero_lt_of_lt h)
  exact ⟨Nat.mod_lt _ hpos, Nat.div_lt_of_lt_mul h⟩

@[simp] theorem Raster.slot_ofSlot (side slot : ℕ) :
    Raster.slot side (Point.ofSlot side slot) = slot :=
  Nat.div_add_mod' slot side

theorem Point.ofSlot_slot {side : ℕ} {q : Point} (hq : q.OnGrid side) :
    ofSlot side (Raster.slot side q) = q := by
  obtain ⟨x, y⟩ := q
  obtain ⟨hx, -⟩ : x < side ∧ y < side := hq
  have hpos : 0 < side := Nat.zero_lt_of_lt hx
  rw [ofSlot, Raster.slot, Nat.mul_comm, Nat.mul_add_mod, Nat.mod_eq_of_lt hx,
    Nat.mul_add_div hpos, Nat.div_eq_of_lt hx, Nat.add_zero]

/-! ### The quadrants of a grid -/

namespace Quadrant

/-- The quadrants cover the grid. -/
theorem exists_place_eq {s : ℕ} {q : Point} (hq : q.OnGrid (2 * s)) :
    ∃ (a : Quadrant) (p : Point), p.OnGrid s ∧ a.place s p = q := by
  obtain ⟨x, y⟩ := q
  obtain ⟨hx, hy⟩ : x < 2 * s ∧ y < 2 * s := hq
  rcases Nat.lt_or_ge x s with hleft | hright
  · rcases Nat.lt_or_ge y s with htop | hbottom
    · exact ⟨.first, ⟨y, x⟩, ⟨htop, hleft⟩, rfl⟩
    · refine ⟨.second, ⟨x, y - s⟩, ⟨hleft, by dsimp only; omega⟩, ?_⟩
      rw [place, Point.mk.injEq]
      exact ⟨rfl, by dsimp only; omega⟩
  · rcases Nat.lt_or_ge y s with htop | hbottom
    · refine ⟨.fourth, ⟨s - 1 - y, 2 * s - 1 - x⟩, ⟨by dsimp only; omega, by dsimp only; omega⟩, ?_⟩
      rw [place, Point.mk.injEq]
      exact ⟨by dsimp only; omega, by dsimp only; omega⟩
    · refine ⟨.third, ⟨x - s, y - s⟩, ⟨by dsimp only; omega, by dsimp only; omega⟩, ?_⟩
      rw [place, Point.mk.injEq]
      exact ⟨by dsimp only; omega, by dsimp only; omega⟩

/-- The quadrants do not meet, and each holds every cell of the smaller grid once. -/
theorem place_inj {s : ℕ} {p q : Point} {a b : Quadrant} (hp : p.OnGrid s) (hq : q.OnGrid s)
    (h : a.place s p = b.place s q) : a = b ∧ p = q := by
  obtain ⟨x, y⟩ := p
  obtain ⟨x', y'⟩ := q
  obtain ⟨hx, hy⟩ : x < s ∧ y < s := hp
  obtain ⟨hx', hy'⟩ : x' < s ∧ y' < s := hq
  cases a <;> cases b <;>
    simp only [place, Point.mk.injEq, reduceCtorEq, true_and, false_and] at h ⊢ <;> omega

/-- The digit that chooses a quadrant. -/
def digit : Quadrant → ℕ
  | .first => 0
  | .second => 1
  | .third => 2
  | .fourth => 3

theorem digit_lt (a : Quadrant) : a.digit < 4 := by cases a <;> decide

@[simp] theorem ofDigit_digit (a : Quadrant) : ofDigit a.digit = a := by cases a <;> rfl

theorem digit_ofDigit {digit : ℕ} (h : digit < 4) : (ofDigit digit).digit = digit := by
  match digit, h with
  | 0, _ | 1, _ | 2, _ | 3, _ => rfl

end Quadrant

/-! ### The curve -/

namespace Curve

theorem onGrid_cell (level index : ℕ) : (cell level index).OnGrid (2 ^ level) :=
  cell_lt level index

/-- The curve visits every cell. -/
theorem exists_cell_eq (level : ℕ) {q : Point} (hq : q.OnGrid (2 ^ level)) :
    ∃ index < 4 ^ level, cell level index = q := by
  induction level generalizing q with
  | zero =>
    obtain ⟨x, y⟩ := q
    obtain ⟨hx, hy⟩ : x < 1 ∧ y < 1 := hq
    obtain rfl := Nat.lt_one_iff.mp hx
    obtain rfl := Nat.lt_one_iff.mp hy
    exact ⟨0, Nat.one_pos, rfl⟩
  | succ level ih =>
    rw [Nat.pow_succ, Nat.mul_comm] at hq
    obtain ⟨a, p, hp, rfl⟩ := Quadrant.exists_place_eq hq
    obtain ⟨index, hindex, rfl⟩ := ih hp
    have hdigit := a.digit_lt
    refine ⟨4 ^ level * a.digit + index, ?_, ?_⟩
    · calc 4 ^ level * a.digit + index < 4 ^ level * (a.digit + 1) := by
            rw [Nat.mul_succ]
            omega
        _ ≤ 4 ^ level * 4 := Nat.mul_le_mul_left _ hdigit
    · rw [cell_succ _ _ _ hindex, Quadrant.ofDigit_digit, Nat.one_shiftLeft]

/-- The curve visits no cell twice. -/
theorem cell_inj (level : ℕ) {i j : ℕ} (hi : i < 4 ^ level) (hj : j < 4 ^ level)
    (h : cell level i = cell level j) : i = j := by
  induction level generalizing i j with
  | zero =>
    rw [Nat.pow_zero] at hi hj
    omega
  | succ level ih =>
    have hpos : 0 < 4 ^ level := Nat.pow_pos (by decide)
    rw [Nat.pow_succ] at hi hj
    have hmodi := Nat.mod_lt i hpos
    have hmodj := Nat.mod_lt j hpos
    rw [← Nat.div_add_mod i (4 ^ level), ← Nat.div_add_mod j (4 ^ level),
      cell_succ _ _ _ hmodi, cell_succ _ _ _ hmodj, Nat.one_shiftLeft] at h
    obtain ⟨hquadrant, hcell⟩ := Quadrant.place_inj (onGrid_cell ..) (onGrid_cell ..) h
    have hdigit := congrArg Quadrant.digit hquadrant
    rw [Quadrant.digit_ofDigit (Nat.div_lt_of_lt_mul hi),
      Quadrant.digit_ofDigit (Nat.div_lt_of_lt_mul hj)] at hdigit
    rw [← Nat.div_add_mod i (4 ^ level), ← Nat.div_add_mod j (4 ^ level), hdigit,
      ih hmodi hmodj hcell]

/-- The curve is a bijection from the indices of a grid onto its cells. -/
theorem bijOn_grid (level : ℕ) :
    Set.BijOn (cell level) (Set.Iio (4 ^ level)) {p | p.OnGrid (2 ^ level)} :=
  ⟨fun index _ => onGrid_cell level index, fun _ hi _ hi' h => cell_inj level hi hi' h,
    fun _ hp => exists_cell_eq level hp⟩

/-- A power of two is the side of the grid of its own level. -/
theorem level_two_pow (k : ℕ) : level (2 ^ k) = k := by
  cases k with
  | zero => rfl
  | succ k =>
    have hpos : 0 < 2 ^ k := Nat.two_pow_pos k
    have hpow : 2 ^ (k + 1) = 2 ^ k + 2 ^ k := by rw [Nat.pow_succ, Nat.mul_two]
    have hlog : (2 ^ (k + 1) - 1).log2 = k :=
      (Nat.log2_eq_iff (by omega)).mpr ⟨by omega, by omega⟩
    rw [level, if_neg (by omega), hlog]

theorem two_pow_level {side : ℕ} (h : isPowerOfTwo side = true) : 2 ^ level side = side := by
  rw [isPowerOfTwo, Bool.and_eq_true, beq_iff_eq, Nat.one_shiftLeft] at h
  rw [← h.2, level_two_pow]

theorem four_pow_level {side : ℕ} (h : 2 ^ level side = side) : 4 ^ level side = side * side := by
  rw [show 4 = 2 * 2 from rfl, Nat.mul_pow, h]

end Curve

/-! ### Tables of the curve -/

/-- A table is refused for its side and for nothing else: no size that it needs is too large. -/
theorem CurveTable.build_eq (side : ℕ) : CurveTable.build side =
    if isPowerOfTwo side then
      if side ≤ maxWindowSide then .ok ⟨side, Curve.visit (Curve.level side)⟩
      else .error (.side side (.sideAboveMaximum maxWindowSide))
    else .error (.side side .sideNotPowerOfTwo) := by
  rw [build]
  by_cases hpower : isPowerOfTwo side = true
  · by_cases hside : side ≤ maxWindowSide
    · rw [if_neg (by simp [hpower]), if_neg (Nat.not_lt.mpr hside), product_side hside,
        if_pos hpower, if_pos hside]
      dsimp only [bind, Except.bind]
      rw [product_cells hside (by decide)]
      dsimp only
      rw [reserve_cells _ hside (by decide) (by decide)]
      rfl
    · rw [if_neg (by simp [hpower]), if_pos (Nat.lt_of_not_le hside), if_pos hpower, if_neg hside]
      rfl
  · rw [if_pos (Bool.eq_false_iff.mpr hpower), if_neg hpower]
    rfl

theorem CurveTable.build_eq_error {side : ℕ} {e : Error} (h : CurveTable.build side = .error e) :
    ∃ fault, e = .side side fault := by
  rw [build_eq] at h
  split_ifs at h <;> exact ⟨_, (Except.error.inj h).symm⟩

/-- The table of the curve holds its cells for all indices on the grid. -/
theorem CurveTable.eq_of_build {side : ℕ} {table : CurveTable}
    (h : CurveTable.build side = .ok table) :
    2 ^ Curve.level side = side ∧ table = ⟨side, Curve.visit (Curve.level side)⟩ := by
  rw [build_eq] at h
  split_ifs at h with hpower hmax
  exact ⟨Curve.two_pow_level hpower, (Except.ok.inj h).symm⟩

/-- The table of the curve lists the points of all indices on the grid, and no more. -/
theorem CurveTable.point?_of_build {side : ℕ} {table : CurveTable}
    (h : CurveTable.build side = .ok table) (index : ℕ) :
    table.point? index = if index < side * side then some (Curve.point side index) else none := by
  obtain ⟨hpow, rfl⟩ := CurveTable.eq_of_build h
  rw [point?, Curve.getElem?_visit, Curve.four_pow_level hpow]
  rfl

theorem CurveTable.size_of_build {side : ℕ} {table : CurveTable}
    (h : CurveTable.build side = .ok table) : table.size = side * side := by
  obtain ⟨hpow, rfl⟩ := CurveTable.eq_of_build h
  rw [size, Curve.size_visit, Curve.four_pow_level hpow]

/-! ### Layouts -/

namespace Layout

variable {mapping : Mapping} {side : ℕ} {layout : Layout}

/-- A layout is built of its mapping, its side, and the table that the mapping needs. -/
theorem build_eq_ok_iff : build mapping side = .ok layout ↔
    ∃ table?, buildTable? mapping side = .ok table? ∧
      layout = ⟨mapping, side, side - 1, table?⟩ := by
  rw [build, bind_eq_ok_iff]
  simp [pure, Except.pure, eq_comm]

theorem side_eq_of_build (h : build mapping side = .ok layout) :
    layout.side = side ∧ layout.mapping = mapping := by
  obtain ⟨table?, -, rfl⟩ := build_eq_ok_iff.mp h
  exact ⟨rfl, rfl⟩

theorem build_curve_eq_ok_iff : build .curve side = .ok layout ↔
    ∃ table, CurveTable.build side = .ok table ∧
      layout = ⟨.curve, side, side - 1, some table⟩ := by
  rw [build_eq_ok_iff, buildTable?]
  cases CurveTable.build side <;> simp [Except.map]

/-- A layout is refused for its side and for nothing else. -/
theorem build_eq_error {e : Error} (h : build mapping side = .error e) :
    ∃ fault, e = .side side fault := by
  cases mapping with
  | raster | tuple => cases h
  | curve =>
    cases hbuild : CurveTable.build side with
    | ok table =>
      rw [build_curve_eq_ok_iff.mpr ⟨table, hbuild, rfl⟩] at h
      cases h
    | error fault =>
      rw [build, buildTable?, hbuild] at h
      obtain rfl := Except.error.inj h
      exact CurveTable.build_eq_error hbuild

/-- A layout has a table exactly if its mapping is the curve. -/
theorem isSome_table?_of_build (h : build mapping side = .ok layout) :
    layout.table?.isSome = true ↔ mapping = .curve := by
  cases mapping with
  | raster | tuple =>
    obtain rfl := Except.ok.inj h
    simp
  | curve =>
    obtain ⟨table, -, rfl⟩ := build_curve_eq_ok_iff.mp h
    simp

/-- The layout gives the samples at the first offsets the cells of the grid, one-to-one and
whatever their bytes are, and no cell to the others. -/
structure Enumerates (layout : Layout) (side : ℕ) (cell : ℕ → Point) : Prop where
  locate_eq : ∀ (offset : ℕ) (sample : List UInt8),
    layout.locate offset sample = if offset < side * side then some (cell offset) else none
  bijOn : Set.BijOn cell (Set.Iio (side * side)) {q | q.OnGrid side}

/-- Row by row, the cells of the grid come in the order of their places. -/
theorem enumerates_raster (hside : 1 ≤ side) (h : build .raster side = .ok layout) :
    layout.Enumerates side (Point.ofSlot side) where
  locate_eq offset sample := by
    have hrow : offset / side < side ↔ offset < side * side := Nat.div_lt_iff_lt_mul hside
    obtain rfl := Except.ok.inj h
    rw [← if_congr hrow rfl rfl]
    exact if_neg (Nat.ne_of_gt hside)
  bijOn := by
    refine ⟨fun offset hoffset => Point.onGrid_ofSlot hoffset, fun i _ j _ heq => ?_,
      fun q hq => ⟨Raster.slot side q, Raster.slot_lt hq.1 hq.2, Point.ofSlot_slot hq⟩⟩
    rw [← Raster.slot_ofSlot side i, heq, Raster.slot_ofSlot]

/-- Along the curve, they come in the order of the visit. -/
theorem enumerates_curve (h : build .curve side = .ok layout) :
    layout.Enumerates side (Curve.point side) := by
  obtain ⟨table, htable, rfl⟩ := build_curve_eq_ok_iff.mp h
  have hpow := (CurveTable.eq_of_build htable).1
  refine ⟨fun offset sample => ?_, ?_⟩
  · have hpos : side ≠ 0 := by
      rw [← hpow]
      exact Nat.ne_of_gt (Nat.two_pow_pos _)
    rw [← CurveTable.point?_of_build htable]
    exact if_neg hpos
  · have hgrid := Curve.bijOn_grid (Curve.level side)
    rwa [Curve.four_pow_level hpow, hpow] at hgrid

theorem exists_enumerates (hdense : mapping.isSparse = false) (hside : 1 ≤ side)
    (h : build mapping side = .ok layout) : ∃ cell, layout.Enumerates side cell := by
  cases mapping with
  | tuple => cases hdense
  | raster => exact ⟨_, enumerates_raster hside h⟩
  | curve => exact ⟨_, enumerates_curve h⟩

/-- **Every cell has its sample.** A layout that is not sparse places exactly one sample at each
cell, whatever the bytes of the samples. -/
theorem existsUnique_locate (hdense : mapping.isSparse = false)
    (hbuild : Layout.build mapping side = .ok layout) {q : Point}
    (hq : q.OnGrid side) (samples : ℕ → List UInt8) :
    ∃! offset, offset < side * side ∧ layout.locate offset (samples offset) = some q := by
  obtain ⟨cell, hcells⟩ := exists_enumerates hdense (Nat.zero_lt_of_lt hq.1) hbuild
  obtain ⟨offset, hoffset, rfl⟩ := hcells.bijOn.surjOn hq
  refine ⟨offset, ⟨hoffset, ?_⟩, fun other ⟨hother, hlocate⟩ => ?_⟩
  · rw [hcells.locate_eq, if_pos (Set.mem_Iio.mp hoffset)]
  · rw [hcells.locate_eq, if_pos hother] at hlocate
    exact hcells.bijOn.injOn hother hoffset (Option.some.inj hlocate)

end Layout

end Bytescope
