import Bytescope.Proofs.Curve.Words
import Mathlib.Data.List.Nodup
import Mathlib.Data.List.Perm.Subperm

/-!
# Tables that visit every cell once

A table is checked entry by entry. The check keeps a mark for each cell of the grid, and ends with
a refusal where an entry is off the grid or its cell is marked already. So the marks stand at the
cells of the entries that were read, and those are different cells of the grid.

A table that gets past the first test has as many entries as the grid has cells. If its entries are
different cells, then none is left out, and the last test, that all cells are marked, never fails.
The other way round, if no cell is left out then no entry is off the grid and none is there twice.

The check is also written over 64-bit words. It then has no answer if a number does not fit into a
word, or if it looks for a mark beyond the last one.

## Main definitions

* `Point.gridCells`: the cells of a grid, row by row.
* `DistinctCells`: points that are different cells of a grid.
* `Marks`: the marks of the points that were read.
* `CurveTable.check?`: the check in words.

## Main results

* `distinctCells_iff_existsUnique`: as many points as cells are different cells exactly if each
  cell is there once.
* `Marks.mark`, `Marks.foldlM`: one entry of the check, and all of them.
* `CurveTable.isBijection_of_build`: the table of the curve passes.
* `CurveTable.isBijection_iff_existsUnique`: a table passes exactly if it has every cell once.
-/

namespace Bytescope

/-! ### The cells of a grid -/

namespace Point

/-- The cells of a grid, row by row. -/
def gridCells (side : ℕ) : List Point := (List.range (side * side)).map (ofSlot side)

theorem length_gridCells (side : ℕ) : (gridCells side).length = side * side := by
  rw [gridCells, List.length_map, List.length_range]

theorem mem_gridCells {side : ℕ} {q : Point} : q ∈ gridCells side ↔ q.OnGrid side := by
  rw [gridCells, List.mem_map]
  constructor
  · rintro ⟨slot, hslot, rfl⟩
    exact onGrid_ofSlot (List.mem_range.mp hslot)
  · intro hq
    exact ⟨Raster.slot side q, List.mem_range.mpr (Raster.slot_lt hq.1 hq.2), ofSlot_slot hq⟩

theorem nodup_gridCells (side : ℕ) : (gridCells side).Nodup :=
  List.nodup_range.map (Function.LeftInverse.injective (Raster.slot_ofSlot side))

end Point

/-- The points are different cells of the grid. -/
structure DistinctCells (side : ℕ) (points : List Point) : Prop where
  nodup : points.Nodup
  onGrid : ∀ p ∈ points, p.OnGrid side

section DistinctCells

variable {side : ℕ} {points : List Point}

theorem distinctCells_nil (side : ℕ) : DistinctCells side [] :=
  ⟨List.nodup_nil, fun _ hp => absurd hp List.not_mem_nil⟩

/-- One more point has to be a new cell of the grid. -/
theorem distinctCells_concat_iff {p : Point} : DistinctCells side (points ++ [p]) ↔
    DistinctCells side points ∧ p.OnGrid side ∧ p ∉ points := by
  have hnodup : (points ++ [p]).Nodup ↔ p ∉ points ∧ points.Nodup := by
    rw [← List.concat_eq_append]
    exact List.nodup_concat points p
  have hgrid : (∀ q ∈ points ++ [p], q.OnGrid side) ↔
      (∀ q ∈ points, q.OnGrid side) ∧ p.OnGrid side := by
    rw [List.forall_mem_append, List.forall_mem_singleton]
  constructor
  · intro h
    obtain ⟨hnew, hpoints⟩ := hnodup.mp h.nodup
    obtain ⟨hcells, hp⟩ := hgrid.mp h.onGrid
    exact ⟨⟨hpoints, hcells⟩, hp, hnew⟩
  · rintro ⟨h, hp, hnew⟩
    exact ⟨hnodup.mpr ⟨hnew, h.nodup⟩, hgrid.mpr ⟨h.onGrid, hp⟩⟩

theorem DistinctCells.of_append {more : List Point} (h : DistinctCells side (points ++ more)) :
    DistinctCells side points :=
  ⟨h.nodup.of_append_left, fun p hp => h.onGrid p (List.mem_append_left more hp)⟩

/-- Different cells, as many as the grid has, are all its cells. -/
theorem DistinctCells.perm_gridCells (h : DistinctCells side points)
    (hlength : points.length = side * side) : points.Perm (Point.gridCells side) := by
  have hsubset : points ⊆ Point.gridCells side :=
    fun p hp => Point.mem_gridCells.mpr (h.onGrid p hp)
  refine (h.nodup.subperm hsubset).perm_of_length_le ?_
  rw [Point.length_gridCells, hlength]

/-- No more points than the grid has cells, and all its cells among them, are its cells. -/
theorem perm_gridCells_of_forall_mem (hlength : points.length = side * side)
    (hall : ∀ q : Point, q.OnGrid side → q ∈ points) : points.Perm (Point.gridCells side) := by
  have hsubset : Point.gridCells side ⊆ points := fun q hq => hall q (Point.mem_gridCells.mp hq)
  refine (((Point.nodup_gridCells side).subperm hsubset).perm_of_length_le ?_).symm
  rw [Point.length_gridCells, hlength]

theorem DistinctCells.of_perm (h : points.Perm (Point.gridCells side)) :
    DistinctCells side points where
  nodup := h.nodup_iff.mpr (Point.nodup_gridCells side)
  onGrid _ hp := Point.mem_gridCells.mp (h.mem_iff.mp hp)

/-- **As many points as cells** are different cells exactly if each cell is there once. Either way
they are the cells of the grid in some order. -/
theorem distinctCells_iff_existsUnique (hlength : points.length = side * side) :
    DistinctCells side points ↔
      ∀ q : Point, q.OnGrid side → ∃! index : ℕ, points[index]? = some q := by
  constructor
  · intro h q hq
    have hmem : q ∈ points := (h.perm_gridCells hlength).mem_iff.mpr (Point.mem_gridCells.mpr hq)
    obtain ⟨index, hindex⟩ := List.mem_iff_getElem?.mp hmem
    have hlt := (List.getElem?_eq_some_iff.mp hindex).1
    refine ⟨index, hindex, fun other hother => ?_⟩
    exact ((List.getElem?_inj hlt h.nodup).mp (hindex.trans hother.symm)).symm
  · intro h
    refine .of_perm (perm_gridCells_of_forall_mem hlength fun q hq => ?_)
    obtain ⟨index, hindex, -⟩ := h q hq
    exact List.mem_of_getElem? hindex

end DistinctCells

/-! ### The marks -/

/-- The points that were read are different cells of the grid, and the marks stand at them. -/
structure Marks (side : ℕ) (marks : Array Bool) (seen : List Point) : Prop where
  distinct : DistinctCells side seen
  size_eq : marks.size = side * side
  getElem?_slot : ∀ q : Point, q.OnGrid side →
    marks[Raster.slot side q]? = some (decide (q ∈ seen))

namespace CurveTable

variable {side : ℕ} {marks : Array Bool} {p : Point}

theorem mark_of_onGrid (hp : p.OnGrid side) : mark side marks p =
    if marks[Raster.slot side p]? = some true then none
    else some (marks.setIfInBounds (Raster.slot side p) true) :=
  if_pos hp

theorem mark_of_not_onGrid (hp : ¬ p.OnGrid side) : mark side marks p = none := if_neg hp

end CurveTable

namespace Marks

open CurveTable

variable {side : ℕ} {marks : Array Bool} {seen : List Point} {p : Point}

/-- Before the first entry. -/
theorem replicate (side : ℕ) : Marks side (Array.replicate (side * side) false) [] where
  distinct := distinctCells_nil side
  size_eq := Array.size_replicate
  getElem?_slot q hq := by
    rw [Array.getElem?_replicate, if_pos (Raster.slot_lt hq.1 hq.2)]
    simp only [List.not_mem_nil, decide_false]

/-- A new cell of the grid gets its mark, and the mark is at no other cell. -/
theorem set (h : Marks side marks seen) (hp : p.OnGrid side) (hnew : p ∉ seen) :
    Marks side (marks.setIfInBounds (Raster.slot side p) true) (seen ++ [p]) where
  distinct := distinctCells_concat_iff.mpr ⟨h.distinct, hp, hnew⟩
  size_eq := by rw [Array.size_setIfInBounds, h.size_eq]
  getElem?_slot q hq := by
    by_cases heq : q = p
    · subst heq
      have hlt : Raster.slot side q < marks.size := h.size_eq ▸ Raster.slot_lt hq.1 hq.2
      rw [Array.getElem?_setIfInBounds_self_of_lt hlt]
      simp only [List.mem_append, List.mem_singleton, or_true, decide_true]
    · have hne : Raster.slot side p ≠ Raster.slot side q :=
        fun hslot => heq (Raster.slot_inj hp.1 hq.1 hslot).symm
      rw [Array.getElem?_setIfInBounds_ne hne, h.getElem?_slot q hq]
      simp only [List.mem_append, List.mem_singleton, heq, or_false]

/-- **One entry** is refused exactly if it is no new cell of the grid. -/
theorem mark (h : Marks side marks seen) (p : Point) :
    (∃ next, CurveTable.mark side marks p = some next ∧ Marks side next (seen ++ [p])) ∨
      (CurveTable.mark side marks p = none ∧ ¬ DistinctCells side (seen ++ [p])) := by
  rw [distinctCells_concat_iff]
  by_cases hp : p.OnGrid side
  · rw [mark_of_onGrid hp, h.getElem?_slot p hp]
    by_cases hseen : p ∈ seen
    · rw [decide_eq_true hseen, if_pos rfl]
      exact .inr ⟨rfl, fun hdistinct => hdistinct.2.2 hseen⟩
    · rw [decide_eq_false hseen, if_neg (by decide)]
      exact .inl ⟨_, rfl, h.set hp hseen⟩
  · rw [mark_of_not_onGrid hp]
    exact .inr ⟨rfl, fun hdistinct => hp hdistinct.2.1⟩

/-- **All entries** are read exactly if they are different cells of the grid. -/
theorem foldlM (h : Marks side marks seen) (points : List Point) :
    (∃ final, points.foldlM (CurveTable.mark side) marks = some final ∧
        Marks side final (seen ++ points)) ∨
      (points.foldlM (CurveTable.mark side) marks = none ∧
        ¬ DistinctCells side (seen ++ points)) := by
  induction points generalizing marks seen with
  | nil => exact .inl ⟨marks, rfl, by rwa [List.append_nil]⟩
  | cons p points ih =>
    rw [List.foldlM_cons, List.append_cons]
    rcases h.mark p with ⟨next, hnext, hmarks⟩ | ⟨hrefused, hnot⟩
    · rw [hnext]
      exact ih hmarks
    · rw [hrefused]
      -- What comes after the entry cannot make it a new cell.
      exact .inr ⟨rfl, fun hdistinct => hnot hdistinct.of_append⟩

/-- If no cell is left out, every cell is marked. -/
theorem all_of_forall_mem (h : Marks side marks seen)
    (hall : ∀ q : Point, q.OnGrid side → q ∈ seen) : marks.all id = true := by
  refine Array.all_eq_true.mpr fun slot hslot => ?_
  have hq := Point.onGrid_ofSlot (h.size_eq ▸ hslot)
  have hmark := h.getElem?_slot _ hq
  rw [Raster.slot_ofSlot, decide_eq_true (hall _ hq), Array.getElem?_eq_getElem hslot] at hmark
  exact Option.some.inj hmark

end Marks

namespace CurveTable

/-! ### The check -/

/-- What the check makes of the marks at its end, if it gets there. -/
theorem isBijection_eq (t : CurveTable) : t.isBijection = (t.size == t.side * t.side &&
    (t.points.toList.foldlM (mark t.side) (Array.replicate t.size false)).any (·.all id)) := by
  rw [isBijection, Array.foldlM_toList]
  cases t.points.foldlM (mark t.side) (Array.replicate t.size false) <;> rfl

/-- A table passes exactly if its entries are different cells, as many as the grid has. -/
theorem isBijection_iff_distinctCells {t : CurveTable} :
    t.isBijection = true ↔
      t.size = t.side * t.side ∧ DistinctCells t.side t.points.toList := by
  rw [isBijection_eq, Bool.and_eq_true, beq_iff_eq]
  refine and_congr_right fun hsize => ?_
  rw [hsize]
  rcases (Marks.replicate t.side).foldlM t.points.toList with
    ⟨final, hfinal, hmarks⟩ | ⟨hrefused, hnot⟩
  · have hlength : t.points.toList.length = t.side * t.side := Array.length_toList.trans hsize
    have hperm := hmarks.distinct.perm_gridCells hlength
    -- The last test cannot fail: as many different cells as the grid has leave none out.
    have hall := hmarks.all_of_forall_mem fun q hq =>
      hperm.mem_iff.mpr (Point.mem_gridCells.mpr hq)
    rw [hfinal, Option.any_some, hall]
    exact iff_of_true rfl hmarks.distinct
  · rw [hrefused, Option.any_none]
    exact iff_of_false Bool.false_ne_true hnot

/-- The table of the curve passes. -/
theorem isBijection_of_build {side : ℕ} {table : CurveTable} (h : build side = .ok table) :
    table.isBijection = true := by
  have hsize := size_of_build h
  obtain ⟨hpow, rfl⟩ := eq_of_build h
  refine isBijection_iff_distinctCells.mpr ⟨hsize, .of_perm ?_⟩
  refine perm_gridCells_of_forall_mem (Array.length_toList.trans hsize) fun q hq => ?_
  rw [← hpow] at hq
  obtain ⟨index, hindex, rfl⟩ := Curve.exists_cell_eq _ hq
  refine List.mem_of_getElem? (i := index) ?_
  rw [Array.getElem?_toList, Curve.getElem?_visit, if_pos hindex]

/-! ### The check in words -/

/-- The place of the mark of a cell, if words can hold what comes out. -/
def slot? (side : ℕ) (p : Point) : Option ℕ := do
  let above ← word? (p.y * side)
  word? (above + p.x)

/-- The check from an entry on, with the marks that were made so far. -/
def checkFrom? (side : ℕ) : Array Bool → List Point → Option Bool
  | marks, [] => some (marks.all id)
  | marks, p :: points =>
    if p.OnGrid side then do
      let slot ← slot? side p
      let marked ← marks[slot]?
      if marked then return false
      checkFrom? side (marks.setIfInBounds slot true) points
    else some false

/-- The check in words. There is no answer if a word cannot hold what comes out, or if there is no
mark at the place of a cell. -/
def check? (t : CurveTable) : Option Bool := do
  let cells ← word? (t.side * t.side)
  if t.size = cells then
    checkFrom? t.side (Array.replicate t.size false) t.points.toList
  else return false

section Words

variable {side : ℕ} {p : Point} {marks : Array Bool}

/-- On the grid, words can hold the place of a mark if they can hold the number of cells. -/
theorem slot?_of_onGrid (hside : side * side < wordSize) (hp : p.OnGrid side) :
    slot? side p = some (Raster.slot side p) := by
  have hlt : p.y * side + p.x < wordSize := (Raster.slot_lt hp.1 hp.2).trans hside
  have habove : p.y * side < wordSize := (Nat.le_add_right _ _).trans_lt hlt
  rw [slot?, word?_of_lt habove]
  exact word?_of_lt hlt

/-- The check in words from an entry on has an answer, and it is that of the check. -/
theorem checkFrom?_eq (hside : side * side < wordSize) (hmarks : marks.size = side * side)
    (points : List Point) : checkFrom? side marks points =
      some ((points.foldlM (mark side) marks).any (·.all id)) := by
  induction points generalizing marks with
  | nil => rfl
  | cons p points ih =>
    rw [List.foldlM_cons, checkFrom?]
    by_cases hp : p.OnGrid side
    · have hlt : Raster.slot side p < marks.size := hmarks ▸ Raster.slot_lt hp.1 hp.2
      obtain ⟨marked, hmarked⟩ : ∃ marked, marks[Raster.slot side p]? = some marked :=
        ⟨_, Array.getElem?_eq_getElem hlt⟩
      rw [if_pos hp, slot?_of_onGrid hside hp, mark_of_onGrid hp]
      simp only [Option.bind_eq_bind, Option.bind_some, hmarked]
      cases marked with
      | true => rfl
      | false => exact ih (by rw [Array.size_setIfInBounds, hmarks])
    · rw [if_neg hp, mark_of_not_onGrid hp]
      rfl

end Words

/-- The check in words has an answer if a word can hold the number of cells, and it is that of the
check. -/
theorem check?_eq {t : CurveTable} (hside : t.side * t.side < wordSize) :
    t.check? = some t.isBijection := by
  rw [check?, word?_of_lt hside, Option.bind_eq_bind, Option.bind_some, isBijection_eq]
  by_cases hsize : t.size = t.side * t.side
  · have hmarks : (Array.replicate t.size false).size = t.side * t.side :=
      Array.size_replicate.trans hsize
    rw [if_pos hsize, checkFrom?_eq hside hmarks, hsize, beq_self_eq_true, Bool.true_and]
  · rw [if_neg hsize, beq_false_of_ne hsize, Bool.false_and]
    rfl

/-- **The check of a table.** For every table, whatever its side and its entries, as long as a word
can hold the number of cells of the grid: no number that the check computes is too large for a word
and no mark that it looks for is missing, so that it has an answer, and it is positive exactly if
the table has as many entries as the grid has cells and every cell of the grid is at exactly one
index. -/
theorem isBijection_iff_existsUnique (t : CurveTable) (hside : t.side * t.side < wordSize) :
    t.check? = some t.isBijection ∧
      (t.isBijection = true ↔ t.size = t.side * t.side ∧
        ∀ q : Point, q.OnGrid t.side → ∃! index, t.point? index = some q) := by
  refine ⟨check?_eq hside, isBijection_iff_distinctCells.trans (and_congr_right fun hsize => ?_)⟩
  rw [distinctCells_iff_existsUnique (Array.length_toList.trans hsize)]
  simp only [point?, Array.getElem?_toList]

/-- A table that leaps about on its grid, and one that comes to a cell twice. -/
theorem isBijection_iff_existsUnique_of_leaps :
    (∃ t : CurveTable, t = ⟨2, #[⟨1, 1⟩, ⟨0, 0⟩, ⟨1, 0⟩, ⟨0, 1⟩]⟩ ∧ t.side * t.side < wordSize ∧
      t.check? = some true ∧ ∀ q : Point, q.OnGrid 2 → ∃! index, t.point? index = some q) ∧
    ∃ t : CurveTable, t = ⟨2, #[⟨1, 1⟩, ⟨0, 0⟩, ⟨1, 1⟩, ⟨0, 1⟩]⟩ ∧ t.side * t.side < wordSize ∧
      t.check? = some false ∧ ¬ ∀ q : Point, q.OnGrid 2 → ∃! index, t.point? index = some q := by
  have hside : 2 * 2 < wordSize := by decide
  refine ⟨⟨_, rfl, hside, ?_⟩, ⟨_, rfl, hside, ?_⟩⟩
  · have hpass : (⟨2, #[⟨1, 1⟩, ⟨0, 0⟩, ⟨1, 0⟩, ⟨0, 1⟩]⟩ : CurveTable).isBijection = true := by
      decide +kernel
    obtain ⟨hwords, hiff⟩ :=
      isBijection_iff_existsUnique ⟨2, #[⟨1, 1⟩, ⟨0, 0⟩, ⟨1, 0⟩, ⟨0, 1⟩]⟩ hside
    exact ⟨hwords.trans (congrArg some hpass), (hiff.mp hpass).2⟩
  · have hfail : (⟨2, #[⟨1, 1⟩, ⟨0, 0⟩, ⟨1, 1⟩, ⟨0, 1⟩]⟩ : CurveTable).isBijection = false := by
      decide +kernel
    obtain ⟨hwords, hiff⟩ :=
      isBijection_iff_existsUnique ⟨2, #[⟨1, 1⟩, ⟨0, 0⟩, ⟨1, 1⟩, ⟨0, 1⟩]⟩ hside
    refine ⟨hwords.trans (congrArg some hfail), fun hcells => ?_⟩
    exact Bool.false_ne_true (hfail.symm.trans (hiff.mpr ⟨rfl, hcells⟩))

end CurveTable

end Bytescope
