import Bytescope.Capacity
import Bytescope.Curve

/-!
# Tables of the curve

A table lists the cell of every index in order. It is built for a side that is a power of two
and no larger than a channel's window, and it can be asked whether it visits every cell of its
grid exactly once.

## Main definitions

* `CurveTable`, `CurveTable.build`: the table, and the table of the curve.
* `CurveTable.isBijection`: the check that every cell appears exactly once.
-/

namespace Bytescope

/-- Whether a side is a power of two. -/
def isPowerOfTwo (side : Nat) : Bool :=
  side != 0 && 1 <<< side.log2 == side

/-- The cells of a grid in the order of a visit. -/
structure CurveTable where
  /-- The side of the grid. -/
  side : Nat
  /-- The cell at each index. -/
  points : Array Point
  deriving DecidableEq, Repr

namespace CurveTable

/-- The table of the curve on a grid of the given side, with two numbers of two bytes for each
cell. -/
def build (side : Nat) : Except Error CurveTable := do
  if isPowerOfTwo side = false then throw (.side side .sideNotPowerOfTwo)
  if maxWindowSide < side then throw (.side side (.sideAboveMaximum maxWindowSide))
  let cells ← product side side
  let numbers ← product cells 2
  reserve "curve table" 2 numbers
  return ⟨side, Curve.visit (Curve.level side)⟩

/-- Number of entries. -/
def size (t : CurveTable) : Nat := t.points.size

/-- The cell at an index, if the table goes that far. -/
def point? (t : CurveTable) (index : Nat) : Option Point := t.points[index]?

/-- Marks the cell of a point, unless it is off the grid or marked already. -/
def mark (side : Nat) (visited : Array Bool) (p : Point) : Option (Array Bool) :=
  if p.x < side ∧ p.y < side then
    if visited[p.y * side + p.x]? = some true then none
    else some (visited.setIfInBounds (p.y * side + p.x) true)
  else none

/-- Whether every cell of the grid appears exactly once. -/
def isBijection (t : CurveTable) : Bool :=
  t.size == t.side * t.side &&
    match t.points.foldlM (mark t.side) (Array.replicate t.size false) with
    | some visited => visited.all id
    | none => false

end CurveTable

end Bytescope
