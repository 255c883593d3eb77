import Bytescope.Curve.Table

/-!
# Where samples lie on the grid

A mapping decides where a sample is shown: row by row, at coordinates that its first two bytes
give, or along the curve. A layout is a mapping made ready for one side: it carries the last
coordinate of the grid and, for the curve alone, its table.

## Main definitions

* `Mapping`: the three mappings.
* `Layout`, `Layout.build`: a mapping for a given side.
* `Layout.locate`: the cell of a sample.
-/

namespace Bytescope

/-- How a sample finds its cell. -/
inductive Mapping
  /-- Row by row, from left to right. -/
  | raster
  /-- At the coordinates that the sample's first two bytes give. -/
  | tuple
  /-- Along the curve. -/
  | curve
  deriving DecidableEq, Repr

namespace Mapping

/-- The digit that stands for the mapping in a stream code. -/
def index : Mapping → Nat
  | .raster => 0
  | .tuple => 1
  | .curve => 2

/-- Bytes of each sample that are spent on its coordinates. -/
def extraBytes : Mapping → Nat
  | .raster | .curve => 0
  | .tuple => tupleExtraBytes

/-- Whether samples may leave cells uncovered, so that the grid has to be cleared before each
frame. -/
def isSparse : Mapping → Bool
  | .raster | .curve => false
  | .tuple => true

/-- The word for a mapping. -/
def name : Mapping → String
  | .raster => "raster"
  | .tuple => "tuple"
  | .curve => "curve"

/-- All mappings. -/
def all : List Mapping := [.raster, .tuple, .curve]

end Mapping

/-- A mapping made ready for a grid of one side. -/
structure Layout where
  /-- The mapping. -/
  mapping : Mapping
  /-- The side of the grid. -/
  side : Nat
  /-- The last coordinate of the grid. -/
  span : Nat
  /-- The table of the curve, if there is one. -/
  table? : Option CurveTable
  deriving DecidableEq, Repr

namespace Layout

/-- The table that a mapping needs for a side, if it needs one. Only the curve refuses sides. -/
def buildTable? (mapping : Mapping) (side : Nat) : Except Error (Option CurveTable) :=
  match mapping with
  | .raster | .tuple => .ok none
  | .curve => (CurveTable.build side).map some

/-- The layout of a mapping for a side. -/
def build (mapping : Mapping) (side : Nat) : Except Error Layout := do
  let table? ← buildTable? mapping side
  return { mapping, side, span := side - 1, table? }

/-- The coordinate that a byte gives on a grid whose last coordinate is `span`. The product
is held below `wordSize`, and the quotient is rounded down, so that only byte 255 reaches
`span`. -/
def coordinate (span : Nat) (byte : UInt8) : Nat :=
  min (min (byte.toNat * span) (wordSize - 1) / 255) span

/-- The factor from bytes to coordinates, for display. -/
def scale (layout : Layout) : Float := (UInt64.ofNat layout.span).toFloat / 255.0

/-- The cell of the sample at an offset. There is none on an empty grid, beyond the last cell,
or for a sample that is too short to hold its coordinates. -/
def locate (layout : Layout) (offset : Nat) (sample : List UInt8) : Option Point :=
  if layout.side = 0 then none
  else
    match layout.mapping, sample with
    | .raster, _ =>
      if offset / layout.side < layout.side then
        some ⟨offset % layout.side, offset / layout.side⟩
      else none
    | .tuple, x :: y :: _ => some ⟨coordinate layout.span x, coordinate layout.span y⟩
    | .tuple, _ => none
    | .curve, _ => layout.table?.bind (·.point? offset)

end Layout

end Bytescope
