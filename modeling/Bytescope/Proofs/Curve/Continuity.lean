import Bytescope.Proofs.Curve.Bijection

/-!
# The curve never leaps

The curve begins in the top left corner of its grid and ends in the top right one. Placed into
the quadrants, its four copies therefore join: where one of them ends, the next one begins in a
neighbouring cell. Within a copy the steps are those of the smaller curve, and placing a grid
into a quadrant keeps neighbours, so by induction on the level all steps go to neighbours.

## Main definitions

* `Point.Neighbours`: two cells that share a side.

## Main results

* `Curve.cell_zero`, `Curve.cell_last`: the ends of the curve.
* `Quadrant.neighbours_joint`: the copies of the curve in the quadrants join.
* `Curve.neighbours_cell_succ`, `Curve.steps_of_point`: consecutive indices have neighbouring
  cells.
-/

namespace Bytescope

/-- The cells differ by one in one coordinate and agree in the other one. -/
def Point.Neighbours (p q : Point) : Prop :=
  p.x = q.x ∧ (p.y + 1 = q.y ∨ q.y + 1 = p.y) ∨ p.y = q.y ∧ (p.x + 1 = q.x ∨ q.x + 1 = p.x)

instance (p q : Point) : Decidable (p.Neighbours q) :=
  inferInstanceAs (Decidable (_ ∨ _))

namespace Quadrant

/-- Placing a grid into a quadrant keeps neighbours. -/
theorem neighbours_place {s : ℕ} {p q : Point} (hp : p.OnGrid s) (hq : q.OnGrid s)
    (h : p.Neighbours q) (a : Quadrant) : (a.place s p).Neighbours (a.place s q) := by
  obtain ⟨x, y⟩ := p
  obtain ⟨x', y'⟩ := q
  obtain ⟨hx, hy⟩ : x < s ∧ y < s := hp
  obtain ⟨hx', hy'⟩ : x' < s ∧ y' < s := hq
  cases a <;> simp only [place, Point.Neighbours] at h ⊢ <;> omega

/-- A quadrant ends, in the top right corner of the grid placed there, next to where the following
one begins, in the top left corner. -/
theorem neighbours_joint {s digit : ℕ} (hs : 0 < s) (h : digit + 1 < 4) :
    ((ofDigit digit).place s ⟨s - 1, 0⟩).Neighbours ((ofDigit (digit + 1)).place s ⟨0, 0⟩) := by
  match digit, h with
  | 0, _ | 1, _ | 2, _ =>
    simp only [ofDigit, Nat.reduceAdd, Nat.reduceMod, place, Point.Neighbours, true_and]
    omega

end Quadrant

namespace Curve

/-! ### The ends of the curve -/

/-- The curve begins in the top left corner. -/
theorem cell_zero (level : ℕ) : cell level 0 = ⟨0, 0⟩ := by
  induction level with
  | zero => rfl
  | succ level ih =>
    rw [cell, Nat.zero_shiftRight, ih]
    rfl

/-- The curve ends in the top right corner. -/
theorem cell_last (level : ℕ) : cell level (4 ^ level - 1) = ⟨2 ^ level - 1, 0⟩ := by
  induction level with
  | zero => rfl
  | succ level ih =>
    have hcells : 0 < 4 ^ level := Nat.pow_pos (by decide)
    have hside : 0 < 2 ^ level := Nat.two_pow_pos level
    have hlast : 4 ^ (level + 1) - 1 = 4 ^ level * 3 + (4 ^ level - 1) := by
      rw [Nat.pow_succ]
      omega
    rw [hlast, cell_succ _ _ _ (Nat.sub_lt hcells Nat.one_pos), ih, Nat.one_shiftLeft]
    simp only [Quadrant.ofDigit, Quadrant.place, Point.mk.injEq]
    rw [Nat.pow_succ]
    omega

/-! ### The steps of the curve -/

/-- **Every step goes to a neighbour.** -/
theorem neighbours_cell_succ (level : ℕ) {index : ℕ} (h : index + 1 < 4 ^ level) :
    (cell level index).Neighbours (cell level (index + 1)) := by
  induction level generalizing index with
  | zero => exact absurd h (by rw [Nat.pow_zero]; omega)
  | succ level ih =>
    have hpos : 0 < 4 ^ level := Nat.pow_pos (by decide)
    have hside : 0 < 2 ^ level := Nat.two_pow_pos level
    have hsplit := Nat.div_add_mod index (4 ^ level)
    have hmod := Nat.mod_lt index hpos
    rcases Nat.lt_or_ge (index % 4 ^ level + 1) (4 ^ level) with hin | hjoint
    · -- Both cells lie in one quadrant.
      rw [← hsplit, Nat.add_assoc, cell_succ _ _ _ hmod, cell_succ _ _ _ hin, Nat.one_shiftLeft]
      exact Quadrant.neighbours_place (onGrid_cell ..) (onGrid_cell ..) (ih hin) _
    · -- The first cell is the last one of its quadrant.
      have hlast : index % 4 ^ level = 4 ^ level - 1 := by omega
      have hnext : index + 1 = 4 ^ level * (index / 4 ^ level + 1) + 0 := by
        rw [Nat.mul_succ]
        omega
      have hdigit : index / 4 ^ level + 1 < 4 := by
        rw [hnext, Nat.add_zero, Nat.pow_succ] at h
        exact Nat.lt_of_mul_lt_mul_left h
      rw [hnext, cell_succ _ _ _ hpos, cell_zero]
      rw [← hsplit, hlast, cell_succ _ _ _ (Nat.sub_lt hpos Nat.one_pos), cell_last,
        Nat.one_shiftLeft, Nat.mul_add_div hpos, Nat.div_eq_of_lt (Nat.sub_lt hpos Nat.one_pos)]
      exact Quadrant.neighbours_joint hside hdigit

/-- **Steps and ends.** On a grid whose side is a power of two, consecutive indices have
neighbouring cells; the first index has the top left corner, and the last index the top right
one. -/
theorem steps_of_point (k : ℕ) :
    (∀ index, index + 1 < 2 ^ k * 2 ^ k →
      (point (2 ^ k) index).Neighbours (point (2 ^ k) (index + 1))) ∧
    point (2 ^ k) 0 = ⟨0, 0⟩ ∧ point (2 ^ k) (2 ^ k * 2 ^ k - 1) = ⟨2 ^ k - 1, 0⟩ := by
  have hcells : 2 ^ k * 2 ^ k = 4 ^ k := (Nat.mul_pow 2 2 k).symm
  simp only [point, level_two_pow, hcells]
  exact ⟨fun _ h => neighbours_cell_succ k h, cell_zero k, cell_last k⟩

/-- On the grid of side 8, the step from the third to the last quadrant goes up. -/
theorem steps_of_point_side_eight :
    47 + 1 < 2 ^ 3 * 2 ^ 3 ∧ point (2 ^ 3) 47 = ⟨7, 4⟩ ∧ point (2 ^ 3) 48 = ⟨7, 3⟩ ∧
      (point (2 ^ 3) 47).Neighbours (point (2 ^ 3) 48) := by
  refine ⟨by decide, ?_, ?_, (steps_of_point 3).1 47 (by decide)⟩ <;>
    rw [point, level_two_pow] <;> rfl

end Curve

end Bytescope
