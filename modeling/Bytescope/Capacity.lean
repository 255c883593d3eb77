import Bytescope.Error
import Bytescope.Settings

/-!
# Buffers that may be refused

A buffer holds at most `maxBufferBytes` bytes. A request for more is an error that names the
buffer and the number of elements asked for; any other request is granted. The sizes of buffers
are products of 64-bit words, and a product that does not fit into a word ends the program.

## Main definitions

* `product`: a product of sizes.
* `reserve`: the request itself.
* `filled`: a granted buffer with one value everywhere.

## Main results

* `product_eq_ok_iff`: a product that comes out is the exact one.
* `filled_eq_ok_iff`: a request is granted exactly when it fits.
* `product_side`, `product_cells`, `reserve_cells`: the sides of windows are far from all limits.
-/

namespace Bytescope

/-- The product of two sizes. One that does not fit into a word ends the program. -/
def product (a b : Nat) : Except Error Nat :=
  if a * b < wordSize then .ok (a * b) else .error .overflow

/-- Grants `len` elements of `width` bytes each, or refuses them. -/
def reserve (what : String) (width len : Nat) : Except Error Unit :=
  if len * width ≤ maxBufferBytes then .ok () else .error (.allocation what len)

/-- A buffer of `len` copies of `value`, each taking `width` bytes. -/
def filled {α : Type} (what : String) (width len : Nat) (value : α) :
    Except Error (Array α) := do
  reserve what width len
  return Array.replicate len value

/-- A result that another one follows from. -/
theorem bind_eq_ok_iff {ε α β : Type} {x : Except ε α} {f : α → Except ε β} {b : β} :
    x >>= f = .ok b ↔ ∃ a, x = .ok a ∧ f a = .ok b := by
  cases x with
  | error e => simp [bind, Except.bind]
  | ok a => simp [bind, Except.bind]

/-- A refusal comes from the first result or from what follows. -/
theorem bind_eq_error_iff {ε α β : Type} {x : Except ε α} {f : α → Except ε β} {e : ε} :
    x >>= f = .error e ↔ x = .error e ∨ ∃ a, x = .ok a ∧ f a = .error e := by
  cases x with
  | error fault => simp [bind, Except.bind]
  | ok a => simp [bind, Except.bind]

/-- A product that comes out is the exact one. -/
theorem product_eq_ok_iff {a b size : Nat} :
    product a b = .ok size ↔ a * b < wordSize ∧ size = a * b := by
  by_cases h : a * b < wordSize
  · simp [product, h, eq_comm]
  · simp [product, h]

theorem product_of_lt {a b : Nat} (h : a * b < wordSize) : product a b = .ok (a * b) :=
  product_eq_ok_iff.mpr ⟨h, rfl⟩

theorem reserve_eq_ok_iff {what : String} {width len : Nat} :
    reserve what width len = .ok () ↔ len * width ≤ maxBufferBytes := by
  unfold reserve
  split <;> simp_all

theorem filled_eq_ok_iff {α : Type} {what : String} {width len : Nat} {value : α}
    {buffer : Array α} :
    filled what width len value = .ok buffer ↔
      len * width ≤ maxBufferBytes ∧ buffer = Array.replicate len value := by
  by_cases h : len * width ≤ maxBufferBytes
  · simp [filled, reserve, h, bind, Except.bind, pure, Except.pure, eq_comm]
  · simp [filled, reserve, h, bind, Except.bind]

/-! ### Sides of windows -/

section Sides

variable {side factor : Nat}

/-- The cells of a window can be counted. -/
theorem product_side (hside : side ≤ maxWindowSide) : product side side = .ok (side * side) :=
  product_of_lt (Nat.lt_of_le_of_lt (Nat.mul_le_mul hside hside) (by decide))

/-- So can a few bytes for each of them, as many as a sample has at most. -/
theorem product_cells (hside : side ≤ maxWindowSide) (hfactor : factor ≤ 6) :
    product (side * side) factor = .ok (side * side * factor) :=
  product_of_lt
    (Nat.lt_of_le_of_lt (Nat.mul_le_mul (Nat.mul_le_mul hside hside) hfactor) (by decide))

/-- A buffer of so many elements of one or two bytes is granted. -/
theorem reserve_cells (what : String) (hside : side ≤ maxWindowSide) (hfactor : factor ≤ 6)
    {width : Nat} (hwidth : width ≤ 2) : reserve what width (side * side * factor) = .ok () :=
  reserve_eq_ok_iff.mpr (Nat.le_trans
    (Nat.mul_le_mul (Nat.mul_le_mul (Nat.mul_le_mul hside hside) hfactor) hwidth) (by decide))

end Sides

end Bytescope
