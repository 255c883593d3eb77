/-!
# A space-filling curve over square grids

The curve visits the cells of a `2 ^ k × 2 ^ k` grid one after the other, each step going to a
neighbouring cell. A grid of level `k + 1` consists of four quadrants, each of them a grid of
level `k`; the two highest binary digits of an index choose the quadrant, and the remaining
digits the cell within it. So that the four pieces join, the first quadrant is reflected in the
main diagonal and the last one in the other diagonal.

## Main definitions

* `Point`: a cell of a grid.
* `Quadrant`, `Quadrant.place`: the four quadrants in the order of the visit, and the map from
  a grid into each of them.
* `Curve.cell`: the cell that a grid of a given level has at an index.
* `Curve.level`, `Curve.point`: the same for a grid given by its side.
* `Curve.visit`: all cells of a grid in the order of the visit.
-/

namespace Bytescope

/-- A cell of a grid: column and row. -/
structure Point where
  /-- The column, counted from the left. -/
  x : Nat
  /-- The row, counted from the top. -/
  y : Nat
  deriving DecidableEq, Repr, Inhabited

/-- The quadrants of a grid in the order in which the curve visits them. -/
inductive Quadrant
  /-- Top left. -/
  | first
  /-- Bottom left. -/
  | second
  /-- Bottom right. -/
  | third
  /-- Top right. -/
  | fourth
  deriving DecidableEq, Repr

namespace Quadrant

/-- The quadrant chosen by the two lowest binary digits of a number. -/
def ofDigit (digit : Nat) : Quadrant :=
  match digit % 4 with
  | 0 => .first
  | 1 => .second
  | 2 => .third
  | _ => .fourth

/-- Maps a grid of side `s` into a quadrant of the grid of side `2 * s`. -/
def place (s : Nat) (p : Point) : Quadrant → Point
  | .first => ⟨p.y, p.x⟩
  | .second => ⟨p.x, s + p.y⟩
  | .third => ⟨s + p.x, s + p.y⟩
  | .fourth => ⟨s + (s - 1 - p.y), s - 1 - p.x⟩

end Quadrant

namespace Curve

/-- The cell at an index on the grid of side `2 ^ level`; only the lowest `level` digits to
base four count. -/
def cell : (level : Nat) → (index : Nat) → Point
  | 0, _ => ⟨0, 0⟩
  | level + 1, index =>
    (Quadrant.ofDigit (index >>> (2 * level))).place (1 <<< level) (cell level index)

/-- The least level at which the grid is at least `side` cells wide. -/
def level (side : Nat) : Nat :=
  if side ≤ 1 then 0 else (side - 1).log2 + 1

/-- The cell at an index on the smallest grid that is at least `side` cells wide. -/
def point (side index : Nat) : Point := cell (level side) index

/-- The cells of the grid of side `2 ^ level` in the order of the visit: those of the four
quadrants, one after the other. -/
def visit : (level : Nat) → Array Point
  | 0 => #[⟨0, 0⟩]
  | level + 1 =>
    let cells := visit level
    let s := 1 <<< level
    cells.map (Quadrant.first.place s ·) ++ cells.map (Quadrant.second.place s ·) ++
      cells.map (Quadrant.third.place s ·) ++ cells.map (Quadrant.fourth.place s ·)

end Curve

end Bytescope
