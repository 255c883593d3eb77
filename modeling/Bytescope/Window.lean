import Bytescope.Capacity

/-!
# Windows over a stream of bytes

A window holds the bytes from which the next frame is made. Under the block clock it is filled
from the front, and a frame is due whenever it is full; under the slide clock new bytes push
out the oldest ones, and a frame is due after every intake.

## Main definitions

* `Clock`: the two clocks.
* `Window`, `Window.build`: the window, and a fresh one of a given length.
* `Window.ingest`: one intake.
-/

namespace Bytescope

/-- When a frame is due. -/
inductive Clock
  /-- Whenever the window has been filled. -/
  | block
  /-- After every intake. -/
  | slide
  deriving DecidableEq, Repr

namespace Clock

/-- The word for a clock. -/
def name : Clock → String
  | .block => "block"
  | .slide => "slide"

/-- All clocks. -/
def all : List Clock := [.block, .slide]

end Clock

/-- The bytes of the next frame, with the number of them that were written since the last
one. -/
structure Window where
  /-- The bytes, oldest first. -/
  data : Array UInt8
  /-- How many bytes were written since the last frame. -/
  fill : Nat
  /-- No more are written than there is room for. -/
  fill_le : fill ≤ data.size

/-- What one intake took, and whether a frame is due after it. -/
structure Intake where
  /-- The bytes taken from the front of the chunk. -/
  taken : List UInt8
  /-- Whether a frame is due. -/
  completed : Bool
  deriving DecidableEq, Repr

namespace Window

/-- The window of `length` zero bytes. -/
def zeroed (length : Nat) : Window := ⟨Array.replicate length 0, 0, Nat.zero_le _⟩

instance : Inhabited Window := ⟨zeroed 0⟩

/-- A fresh window, unless it is too long for a buffer. -/
def build (length : Nat) : Except Error Window := do
  reserve "raw window" 1 length
  return zeroed length

/-- Number of bytes. -/
def size (w : Window) : Nat := w.data.size

/-- Bytes that can still be written before the window is full. -/
def remaining (w : Window) : Nat := w.size - w.fill

/-- Writes bytes one after the other from a position on. -/
def overwrite (data : Array UInt8) (position : Nat) : List UInt8 → Array UInt8
  | [] => data
  | byte :: rest => overwrite (data.setIfInBounds position byte) (position + 1) rest

@[simp]
theorem size_overwrite (data : Array UInt8) (position : Nat) (bytes : List UInt8) :
    (overwrite data position bytes).size = data.size := by
  induction bytes generalizing data position with
  | nil => rfl
  | cons byte rest ih => simp [overwrite, ih]

/-- Takes the bytes for which there is room into the window. Under the slide clock the whole
window is room. -/
def ingest (w : Window) (clock : Clock) (chunk : List UInt8) : Window × Intake :=
  match clock with
  | .slide =>
    let taken := chunk.take w.size
    (⟨w.data.extract taken.length w.data.size ++ taken.toArray, 0, Nat.zero_le _⟩, ⟨taken, true⟩)
  | .block =>
    let taken := chunk.take w.remaining
    let data := overwrite w.data w.fill taken
    if h : w.fill + taken.length < w.size then
      (⟨data, w.fill + taken.length, by rw [size_overwrite]; exact Nat.le_of_lt h⟩,
        ⟨taken, false⟩)
    else (⟨data, 0, Nat.zero_le _⟩, ⟨taken, true⟩)

/-- An intake keeps the length of the window. -/
@[simp]
theorem size_ingest (w : Window) (clock : Clock) (chunk : List UInt8) :
    (w.ingest clock chunk).1.size = w.size := by
  cases clock with
  | slide =>
    have htake : (chunk.take w.size).length ≤ w.size := by
      rw [List.length_take]
      exact Nat.min_le_left _ _
    change (w.data.extract (chunk.take w.size).length w.data.size ++
      (chunk.take w.size).toArray).size = w.size
    rw [Array.size_append, Array.size_extract, Nat.min_self]
    exact Nat.sub_add_cancel htake
  | block =>
    rw [ingest]
    split <;> exact size_overwrite _ _ _

end Window

end Bytescope
