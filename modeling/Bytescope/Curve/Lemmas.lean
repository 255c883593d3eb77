import Bytescope.Curve
import Mathlib.Algebra.Order.Ring.Nat

/-!
# The curve on its grid

The grid of level `k` has side `2 ^ k` and `4 ^ k` cells.

## Main results

* `cell_lt`: the curve stays on its grid.
* `cell_add_mul`: digits of an index beyond the level of the grid do not count.
* `getElem?_visit`: the visit lists the cells of all indices.
-/

namespace Bytescope

namespace Curve

/-! ### The curve stays on its grid -/

/-- A quadrant of a grid lies within the grid. -/
theorem place_lt {s : Nat} {p : Point} (hx : p.x < s) (hy : p.y < s) (q : Quadrant) :
    (q.place s p).x < 2 * s ∧ (q.place s p).y < 2 * s := by
  cases q <;> simp only [Quadrant.place] <;> omega

/-- Every cell of the curve lies on the grid. -/
theorem cell_lt (level index : Nat) :
    (cell level index).x < 2 ^ level ∧ (cell level index).y < 2 ^ level := by
  induction level with
  | zero => simp [cell]
  | succ level ih =>
    have h := place_lt ih.1 ih.2 (Quadrant.ofDigit (index >>> (2 * level)))
    simpa only [cell, Nat.one_shiftLeft, Nat.pow_succ, Nat.mul_comm] using h

/-! ### The visit lists the curve -/

/-- A grid of side `2 ^ level` has `4 ^ level` cells. -/
@[simp]
theorem size_visit (level : Nat) : (visit level).size = 4 ^ level := by
  induction level with
  | zero => rfl
  | succ level ih =>
    simp only [visit, Array.size_append, Array.size_map, ih, Nat.pow_succ]
    omega

/-- Digits of an index beyond the level of the grid do not count. -/
theorem cell_add_mul (level index high : Nat) :
    cell level (index + 4 ^ level * high) = cell level index := by
  induction level generalizing high with
  | zero => rfl
  | succ level ih =>
    have hsplit : index + 4 ^ (level + 1) * high = index + 4 ^ level * (4 * high) := by
      rw [Nat.pow_succ, Nat.mul_assoc]
    have hdigit : Quadrant.ofDigit ((index + 4 ^ level * (4 * high)) >>> (2 * level)) =
        Quadrant.ofDigit (index >>> (2 * level)) := by
      have hpow : 2 ^ (2 * level) = 4 ^ level := by rw [Nat.pow_mul]
      have hpos : 0 < 4 ^ level := Nat.pow_pos (by decide)
      simp only [Nat.shiftRight_eq_div_pow, hpow, Nat.add_mul_div_left _ _ hpos,
        Quadrant.ofDigit, Nat.add_mul_mod_self_left]
    rw [hsplit]
    simp only [cell, hdigit, ih]

/-- The cell in a quadrant, by the index within the quadrant. -/
theorem cell_succ (level digit index : Nat) (h : index < 4 ^ level) :
    cell (level + 1) (4 ^ level * digit + index) =
      (Quadrant.ofDigit digit).place (1 <<< level) (cell level index) := by
  have hpow : 2 ^ (2 * level) = 4 ^ level := by rw [Nat.pow_mul]
  have hdiv : (4 ^ level * digit + index) / 4 ^ level = digit := by
    rw [Nat.mul_add_div (Nat.pow_pos (by decide)), Nat.div_eq_of_lt h, Nat.add_zero]
  rw [cell, Nat.shiftRight_eq_div_pow, hpow, hdiv, Nat.add_comm, cell_add_mul]

/-- The visit lists the cells of all indices. -/
theorem getElem?_visit (level index : Nat) :
    (visit level)[index]? = if index < 4 ^ level then some (cell level index) else none := by
  induction level generalizing index with
  | zero =>
    match index with
    | 0 => rfl
    | index + 1 => simp [visit]
  | succ level ih =>
    simp only [visit, Array.getElem?_append, Array.size_append, Array.size_map, size_visit,
      Array.getElem?_map, ih]
    have hcase : ∀ digit, digit < 4 → ∀ i, i < 4 ^ level →
        index = 4 ^ level * digit + i → cell (level + 1) index =
          (Quadrant.ofDigit digit).place (1 <<< level) (cell level i) :=
      fun digit _ i hi h => h ▸ cell_succ level digit i hi
    have h4 : 4 ^ (level + 1) = 4 ^ level * 4 := Nat.pow_succ ..
    generalize 4 ^ level = n at *
    by_cases h0 : index < n
    · have := hcase 0 (by decide) index h0 (by omega)
      simp [h0, h4, this, Quadrant.ofDigit, show index < n + n from by omega,
        show index < n + n + n from by omega, show index < n * 4 from by omega]
    by_cases h1 : index < n + n
    · have hi : index - n < n := by omega
      have := hcase 1 (by decide) (index - n) hi (by omega)
      simp [h0, h1, hi, h4, this, Quadrant.ofDigit,
        show index < n + n + n from by omega, show index < n * 4 from by omega]
    by_cases h2 : index < n + n + n
    · have hi : index - (n + n) < n := by omega
      have := hcase 2 (by decide) (index - (n + n)) hi (by omega)
      simp [h1, h2, hi, h4, this, Quadrant.ofDigit, show index < n * 4 from by omega]
    by_cases h3 : index < n * 4
    · have hi : index - (n + n + n) < n := by omega
      have := hcase 3 (by decide) (index - (n + n + n)) hi (by omega)
      simp [h2, h3, hi, h4, this, Quadrant.ofDigit]
    · have hi : ¬ index - (n + n + n) < n := by omega
      simp [h2, h3, hi, h4]

end Curve

end Bytescope
