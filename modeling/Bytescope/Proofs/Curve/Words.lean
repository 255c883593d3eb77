import Bytescope.Proofs.Curve.Bijection
import Mathlib.Data.Nat.Bitwise
import Mathlib.Order.Bounds.Basic

/-!
# The curve in words

The cell at an index can also be found from the lowest digit up. One turn of a loop reads a digit,
reflects the cell that was found so far as the quadrant of the digit asks for, moves it into that
quadrant and doubles the side, until the side is wide enough. The loop is written here over 64-bit
words, in which a difference may be negative and a sum or a product may not fit: then there is no
next turn.

The cell that was found so far lies on the grid of the side so far, so a reflection never fails.
The side is doubled only where it is less than the side that is asked for, so up to half of the
range of a word nothing else fails either.

## Main definitions

* `Climb`, `Climb.step?`: the loop and one turn of it.
* `Climbs`: what the loop comes to.

## Main results

* `Climb.step?_eq`: a turn places the cell into the quadrant of the lowest digit.
* `climbs_iff`: the loop goes through the cells of all levels up to that of the side.
* `isLeast_two_pow_level`: the least power of two that is wide enough.
* `Curve.arithmetic_of_point`: the loop ends with the cell at the index.
-/

namespace Bytescope

/-- A number, if it fits into a word. -/
def word? (n : ℕ) : Option ℕ := if n < wordSize then some n else none

/-- A difference of words, if it is not negative. -/
def difference? (m n : ℕ) : Option ℕ := if n ≤ m then some (m - n) else none

theorem word?_of_lt {n : ℕ} (h : n < wordSize) : word? n = some n := if_pos h

theorem difference?_of_le {m n : ℕ} (h : n ≤ m) : difference? m n = some (m - n) := if_pos h

namespace Curve

/-! ### The loop -/

/-- What the loop keeps from turn to turn. -/
structure Climb where
  /-- The cell found so far. -/
  point : Point
  /-- The index without the digits that were read. -/
  rest : ℕ
  /-- The side of the grid on which the cell was found. -/
  side : ℕ
  deriving DecidableEq, Repr

namespace Climb

/-- Before the first turn. -/
def start (index : ℕ) : Climb := ⟨⟨0, 0⟩, index, 1⟩

/-- Reflects a cell of a grid of side `s` as the two bits of a digit ask for. -/
def rotate? (s : ℕ) (p : Point) (rx ry : ℕ) : Option Point :=
  if ry = 0 then
    if rx = 1 then do
      let last ← difference? s 1
      let x ← difference? last p.x
      let y ← difference? last p.y
      return ⟨y, x⟩
    else some ⟨p.y, p.x⟩
  else some p

/-- Moves a cell into the quadrant of the next grid that the two bits choose. -/
def move? (s : ℕ) (p : Point) (rx ry : ℕ) : Option Point := do
  let right ← word? (s * rx)
  let x ← word? (p.x + right)
  let down ← word? (s * ry)
  let y ← word? (p.y + down)
  return ⟨x, y⟩

/-- One turn of the loop, unless a word cannot hold what comes out. -/
def step? (c : Climb) : Option Climb := do
  let rx := 1 &&& c.rest / 2
  let ry := 1 &&& (c.rest ^^^ rx)
  let rotated ← rotate? c.side c.point rx ry
  let moved ← move? c.side rotated rx ry
  let side ← word? (c.side * 2)
  return ⟨moved, c.rest / 4, side⟩

/-- The second bit of a digit after the first one was taken out of it. -/
theorem one_and_xor_eq (rest : ℕ) :
    1 &&& (rest ^^^ (rest / 2 % 2)) = (rest + rest / 2) % 2 := by
  rw [Nat.one_and_eq_mod_two, Nat.xor_mod_two_eq, Nat.add_mod_mod]

section Turn

variable {s : ℕ} {p : Point}

/-- On the grid, a reflection does not fail. -/
theorem rotate?_of_onGrid (h : p.OnGrid s) :
    rotate? s p 1 0 = some ⟨s - 1 - p.y, s - 1 - p.x⟩ := by
  obtain ⟨hx, hy⟩ : p.x < s ∧ p.y < s := h
  have hlast : difference? s 1 = some (s - 1) := difference?_of_le (by omega)
  have hcolumn : difference? (s - 1) p.x = some (s - 1 - p.x) := difference?_of_le (by omega)
  have hrow : difference? (s - 1) p.y = some (s - 1 - p.y) := difference?_of_le (by omega)
  simp only [rotate?, ↓reduceIte, hlast, hcolumn, hrow, Option.bind_eq_bind, Option.bind_some,
    Option.pure_def]

/-- On the grid, and if its side can be doubled, a move does not fail. -/
theorem move?_of_onGrid (h : p.OnGrid s) (hside : s * 2 < wordSize) {rx ry : ℕ} (hrx : rx ≤ 1)
    (hry : ry ≤ 1) : move? s p rx ry = some ⟨p.x + s * rx, p.y + s * ry⟩ := by
  obtain ⟨hx, hy⟩ : p.x < s ∧ p.y < s := h
  have hright : s * rx ≤ s * 1 := Nat.mul_le_mul_left s hrx
  have hdown : s * ry ≤ s * 1 := Nat.mul_le_mul_left s hry
  have hword {n : ℕ} (hn : n ≤ s * 2) : word? n = some n :=
    word?_of_lt (Nat.lt_of_le_of_lt hn hside)
  have hcolumn : word? (p.x + s * rx) = some (p.x + s * rx) := hword (by omega)
  have hrow : word? (p.y + s * ry) = some (p.y + s * ry) := hword (by omega)
  simp only [move?, hword (hright.trans (by omega)), hword (hdown.trans (by omega)), hcolumn, hrow,
    Option.bind_eq_bind, Option.bind_some, Option.pure_def]

/-- Rotating and moving a cell of the grid places it into the quadrant of the digit. -/
theorem rotate?_bind_move? (h : p.OnGrid s) (hside : s * 2 < wordSize) (digit : ℕ) :
    (rotate? s p (digit / 2 % 2) ((digit + digit / 2) % 2)).bind
        (move? s · (digit / 2 % 2) ((digit + digit / 2) % 2)) =
      some ((Quadrant.ofDigit digit).place s p) := by
  obtain ⟨hx, hy⟩ : p.x < s ∧ p.y < s := h
  have hrx : digit / 2 % 2 = digit % 4 / 2 := by omega
  have hry : (digit + digit / 2) % 2 = (digit % 4 + digit % 4 / 2) % 2 := by omega
  rw [hrx, hry, Quadrant.ofDigit]
  have hcases : digit % 4 = 0 ∨ digit % 4 = 1 ∨ digit % 4 = 2 ∨ digit % 4 = 3 := by omega
  rcases hcases with hdigit | hdigit | hdigit | hdigit
  all_goals rw [hdigit]
  · have hswapped : Point.OnGrid ⟨p.y, p.x⟩ s := ⟨hy, hx⟩
    exact move?_of_onGrid hswapped hside (Nat.zero_le _) (Nat.zero_le _)
  · rw [rotate?, if_neg Nat.one_ne_zero, Option.bind_some,
      move?_of_onGrid ⟨hx, hy⟩ hside (Nat.zero_le _) (Nat.le_refl _), Nat.mul_one, Nat.add_comm p.y]
    rfl
  · rw [rotate?, if_neg Nat.one_ne_zero, Option.bind_some,
      move?_of_onGrid ⟨hx, hy⟩ hside (Nat.le_refl _) (Nat.le_refl _), Nat.mul_one, Nat.add_comm p.x,
      Nat.add_comm p.y]
    rfl
  · have hreflected : Point.OnGrid ⟨s - 1 - p.y, s - 1 - p.x⟩ s :=
      ⟨by dsimp only; omega, by dsimp only; omega⟩
    rw [rotate?_of_onGrid ⟨hx, hy⟩, Option.bind_some,
      move?_of_onGrid hreflected hside (Nat.le_refl _) (Nat.zero_le _), Nat.mul_one,
      Nat.add_comm _ s]
    rfl

end Turn

/-- **A turn** places the cell into the quadrant of the lowest digit. On the grid, and if its side
can be doubled, nothing fails. -/
theorem step?_eq {c : Climb} (hgrid : c.point.OnGrid c.side) (hside : c.side * 2 < wordSize) :
    c.step? = some
      ⟨(Quadrant.ofDigit c.rest).place c.side c.point, c.rest / 4, c.side * 2⟩ := by
  have hplaced := rotate?_bind_move? hgrid hside c.rest
  obtain ⟨rotated, hrotated, hmoved⟩ := Option.bind_eq_some_iff.mp hplaced
  simp only [step?, Nat.one_and_eq_mod_two (c.rest / 2), one_and_xor_eq, hrotated, hmoved,
    word?_of_lt hside, Option.bind_eq_bind, Option.bind_some, Option.pure_def]

/-! ### The climb from level to level -/

/-- What the loop keeps when it has come to a level. -/
def atLevel (index j : ℕ) : Climb := ⟨cell j index, index / 4 ^ j, 2 ^ j⟩

theorem onGrid_atLevel (index j : ℕ) : (atLevel index j).point.OnGrid (atLevel index j).side :=
  onGrid_cell j index

/-- A turn goes from one level to the next. -/
theorem step?_atLevel {index j : ℕ} (h : 2 ^ j * 2 < wordSize) :
    (atLevel index j).step? = some (atLevel index (j + 1)) := by
  have hrest : index >>> (2 * j) = index / 4 ^ j := by
    rw [Nat.shiftRight_eq_div_pow, Nat.pow_mul]
  have hcell : cell (j + 1) index =
      (Quadrant.ofDigit (index / 4 ^ j)).place (2 ^ j) (cell j index) := by
    rw [cell, hrest, Nat.one_shiftLeft]
  rw [step?_eq (onGrid_atLevel index j) h, atLevel, atLevel, hcell, Nat.pow_succ, Nat.pow_succ,
    Nat.div_div_eq_div_mul]

end Climb

/-- What the loop comes to: it goes on as long as the side is not reached and a turn is possible. -/
inductive Climbs (side index : ℕ) : Climb → Prop
  /-- The loop begins. -/
  | start : Climbs side index (Climb.start index)
  /-- A turn is made. -/
  | turn {c next : Climb} (h : Climbs side index c) (hside : c.side < side)
      (hstep : c.step? = some next) : Climbs side index next

/-! ### The level of a side -/

/-- The levels below that of a side are those whose grids are not wide enough. -/
theorem two_pow_lt_iff {side j : ℕ} : 2 ^ j < side ↔ j < level side := by
  have hpos := Nat.two_pow_pos j
  rw [level]
  split
  next hone => omega
  next htwo =>
    have hne : side - 1 ≠ 0 := by omega
    rw [Nat.lt_succ_iff, Nat.le_log2 hne]
    omega

/-- The grid of the level of a side is the least one that is wide enough. -/
theorem isLeast_two_pow_level (side : ℕ) :
    IsLeast {n | side ≤ n ∧ ∃ k, n = 2 ^ k} (2 ^ level side) := by
  refine ⟨⟨?_, level side, rfl⟩, ?_⟩
  · exact Nat.not_lt.mp fun h => Nat.lt_irrefl _ (two_pow_lt_iff.mp h)
  · rintro _ ⟨hside, k, rfl⟩
    refine Nat.pow_le_pow_right Nat.two_pos (Nat.not_lt.mp fun h => ?_)
    exact absurd hside (Nat.not_le.mpr (two_pow_lt_iff.mpr h))

/-- Half of the range of a word is room enough for every turn. -/
theorem two_pow_mul_two_lt {side j : ℕ} (hside : side ≤ 2 ^ 63) (h : 2 ^ j < side) :
    2 ^ j * 2 < wordSize := by
  have hword : wordSize = 2 ^ 63 * 2 := rfl
  omega

/-- **The loop** goes through the levels up to that of the side, one after the other. -/
theorem climbs_iff {side index : ℕ} (hside : side ≤ 2 ^ 63) {c : Climb} :
    Climbs side index c ↔ ∃ j ≤ level side, c = Climb.atLevel index j := by
  constructor
  · intro h
    induction h with
    | start => exact ⟨0, Nat.zero_le _, by rw [Climb.atLevel, Nat.pow_zero, Nat.div_one]; rfl⟩
    | turn _ hlt hstep ih =>
      obtain ⟨j, -, rfl⟩ := ih
      rw [Climb.step?_atLevel (two_pow_mul_two_lt hside hlt)] at hstep
      exact ⟨j + 1, two_pow_lt_iff.mp hlt, (Option.some.inj hstep).symm⟩
  · rintro ⟨j, hj, rfl⟩
    induction j with
    | zero =>
      rw [Climb.atLevel, Nat.pow_zero, Nat.div_one]
      exact .start
    | succ j ih =>
      have hlt : 2 ^ j < side := two_pow_lt_iff.mpr hj
      exact .turn (ih (Nat.le_of_succ_le hj)) hlt
        (Climb.step?_atLevel (two_pow_mul_two_lt hside hlt))

/-- Only the remainder of an index by the number of cells counts. -/
theorem point_mod (side index : ℕ) :
    point side (index % (2 ^ level side) ^ 2) = point side index := by
  have hcells : (2 ^ level side) ^ 2 = 4 ^ level side := by
    rw [← Nat.pow_mul, Nat.mul_comm, Nat.pow_mul]
  have hsplit := cell_add_mul (level side) (index % 4 ^ level side) (index / 4 ^ level side)
  rw [Nat.mod_add_div] at hsplit
  rw [hcells, point, point, hsplit]

/-- **Arithmetic of the curve.** For every side up to half of the range of a word and every index,
the cell found so far lies on the grid of the side so far whenever a turn begins, and every turn
that begins is made: no difference is negative, and no sum and no product is too large for a word.
The loop ends with the cell at the index, on the grid whose side is the least power of two that is
wide enough, and indices with the same remainder by the number of its cells have the same cell. -/
theorem arithmetic_of_point {side : ℕ} (hside : side ≤ 2 ^ 63) (index : ℕ) :
    (∀ c, Climbs side index c → c.point.OnGrid c.side ∧
      (c.side < side → ∃ next, c.step? = some next)) ∧
    (∃! c, Climbs side index c ∧ side ≤ c.side) ∧
    (∀ c, Climbs side index c → side ≤ c.side → c.point = point side index ∧
      c.point.OnGrid c.side ∧ IsLeast {n | side ≤ n ∧ ∃ k, n = 2 ^ k} c.side ∧
      ∀ other, other % c.side ^ 2 = index % c.side ^ 2 → point side other = point side index) := by
  have hend (j : ℕ) (hj : j ≤ level side) :
      side ≤ (Climb.atLevel index j).side ↔ j = level side := by
    rw [← Nat.not_lt, Climb.atLevel, two_pow_lt_iff]
    omega
  refine ⟨fun c hc => ?_, ⟨Climb.atLevel index (level side), ⟨?_, ?_⟩, ?_⟩, ?_⟩
  · obtain ⟨j, -, rfl⟩ := (climbs_iff hside).mp hc
    exact ⟨Climb.onGrid_atLevel index j, fun hlt =>
      ⟨_, Climb.step?_atLevel (two_pow_mul_two_lt hside hlt)⟩⟩
  · exact (climbs_iff hside).mpr ⟨_, Nat.le_refl _, rfl⟩
  · exact (hend _ (Nat.le_refl _)).mpr rfl
  · rintro c ⟨hc, hreached⟩
    obtain ⟨j, hj, rfl⟩ := (climbs_iff hside).mp hc
    rw [(hend j hj).mp hreached]
  · intro c hc hreached
    obtain ⟨j, hj, rfl⟩ := (climbs_iff hside).mp hc
    obtain rfl := (hend j hj).mp hreached
    refine ⟨rfl, Climb.onGrid_atLevel index _, isLeast_two_pow_level side, fun other hother => ?_⟩
    rw [← point_mod side other, ← point_mod side index]
    exact congrArg (point side) hother

/-- The last index of a word on a side that is no power of two. -/
theorem arithmetic_of_point_last : ∃ c, Climbs (2 ^ 63 - 1) (2 ^ 64 - 1) c ∧
    2 ^ 63 - 1 ≤ c.side ∧ c.point = ⟨0, 2 ^ 32 - 1⟩ := by
  obtain ⟨-, ⟨c, ⟨hc, hside⟩, -⟩, hend⟩ :=
    arithmetic_of_point (show 2 ^ 63 - 1 ≤ 2 ^ 63 by decide) (2 ^ 64 - 1)
  have hpoint : point (2 ^ 63 - 1) (2 ^ 64 - 1) = ⟨0, 2 ^ 32 - 1⟩ := by decide +kernel
  exact ⟨c, hc, hside, (hend c hc hside).1.trans hpoint⟩

end Curve

end Bytescope
