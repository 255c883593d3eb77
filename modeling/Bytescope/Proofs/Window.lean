import Bytescope.Window
import Mathlib.Data.Nat.Notation
import Mathlib.Tactic.SplitIfs

/-!
# What an intake leaves in a window

The bytes of a window after an intake, as a list: under the block clock the bytes taken stand
after those written since the last frame, under the slide clock they stand at the end.

## Main results

* `Window.toList_ingest_block`, `Window.toList_ingest_slide`: the bytes after an intake.
* `Window.completed_ingest_block`, `Window.fill_ingest_block`: when a block is complete.
-/

namespace Bytescope

namespace Window

/-- Bytes that are written over stand between those before and those after them. -/
theorem toList_overwrite (data : Array UInt8) (position : ℕ) (bytes : List UInt8)
    (h : position + bytes.length ≤ data.size) :
    (overwrite data position bytes).toList =
      data.toList.take position ++ bytes ++ data.toList.drop (position + bytes.length) := by
  induction bytes generalizing data position with
  | nil =>
    rw [overwrite, List.length_nil, Nat.add_zero, List.append_nil, List.take_append_drop]
  | cons byte rest ih =>
    rw [List.length_cons] at h
    have hlength : position < data.toList.length := by
      rw [Array.length_toList]
      omega
    have hset : (data.setIfInBounds position byte).toList =
        data.toList.take position ++ byte :: data.toList.drop (position + 1) := by
      rw [Array.toList_setIfInBounds, List.set_eq_take_append_cons_drop, if_pos hlength]
    have htake : (data.toList.take position).length = position :=
      List.length_take_of_le (Nat.le_of_lt hlength)
    have hfront : (data.toList.take position ++ byte :: data.toList.drop (position + 1)).take
        (position + 1) = data.toList.take position ++ [byte] := by
      rw [List.take_append, htake, List.take_of_length_le (by omega), Nat.add_sub_cancel_left]
      rfl
    have hback : (data.toList.take position ++ byte :: data.toList.drop (position + 1)).drop
        (position + 1 + rest.length) = data.toList.drop (position + 1 + rest.length) := by
      rw [List.drop_append, htake, List.drop_eq_nil_of_le (by omega),
        show position + 1 + rest.length - position = rest.length + 1 by omega,
        List.drop_succ_cons, List.drop_drop, List.nil_append]
    rw [overwrite, ih _ _ (by rw [Array.size_setIfInBounds]; omega), hset, hfront, hback,
      List.length_cons, Nat.add_right_comm, Nat.add_assoc, List.append_assoc, List.append_assoc,
      List.append_assoc]
    rfl

variable (w : Window) (chunk : List UInt8)

/-! ### The slide clock -/

/-- Under the slide clock the oldest bytes go and the bytes taken come last. -/
theorem toList_ingest_slide : (w.ingest .slide chunk).1.data.toList =
    w.data.toList.drop (chunk.take w.size).length ++ chunk.take w.size := by
  change (w.data.extract (chunk.take w.size).length w.data.size ++
    (chunk.take w.size).toArray).toList = _
  have hlength : (w.data.toList.drop (chunk.take w.size).length).length =
      w.data.size - (chunk.take w.size).length := by
    rw [List.length_drop, Array.length_toList]
  rw [Array.toList_append, Array.toList_extract, List.extract_eq_take_drop,
    List.take_of_length_le (Nat.le_of_eq hlength)]

/-! ### The block clock -/

@[simp] theorem taken_ingest_block :
    (w.ingest .block chunk).2.taken = chunk.take w.remaining := by
  rw [ingest]
  split_ifs <;> rfl

theorem length_taken_le : (chunk.take w.remaining).length ≤ w.size - w.fill := by
  rw [List.length_take]
  exact Nat.min_le_left _ _

theorem fill_add_taken_le : w.fill + (chunk.take w.remaining).length ≤ w.size := by
  have hfill : w.fill ≤ w.size := w.fill_le
  have htaken := length_taken_le w chunk
  omega

/-- Under the block clock the bytes taken follow those written since the last frame. -/
theorem toList_ingest_block : (w.ingest .block chunk).1.data.toList =
    w.data.toList.take w.fill ++ chunk.take w.remaining ++
      w.data.toList.drop (w.fill + (chunk.take w.remaining).length) := by
  rw [← toList_overwrite w.data w.fill (chunk.take w.remaining) (fill_add_taken_le w chunk), ingest]
  split_ifs <;> rfl

theorem fill_ingest_block : (w.ingest .block chunk).1.fill =
    if w.fill + (chunk.take w.remaining).length < w.size then
      w.fill + (chunk.take w.remaining).length
    else 0 := by
  rw [ingest]
  split_ifs <;> rfl

/-- A frame is due when the window has been filled. -/
theorem completed_ingest_block : (w.ingest .block chunk).2.completed =
    decide (w.fill + (chunk.take w.remaining).length = w.size) := by
  have hle := fill_add_taken_le w chunk
  rw [ingest]
  split_ifs with hroom
  · exact (decide_eq_false (Nat.ne_of_lt hroom)).symm
  · exact (decide_eq_true (by omega)).symm

theorem length_take_fill : (w.data.toList.take w.fill).length = w.fill :=
  List.length_take_of_le (Nat.le_trans w.fill_le (Nat.le_of_eq Array.length_toList.symm))

/-- An intake that leaves room writes on. -/
theorem take_fill_ingest_block (h : (w.ingest .block chunk).2.completed = false) :
    (w.ingest .block chunk).1.data.toList.take (w.ingest .block chunk).1.fill =
      w.data.toList.take w.fill ++ chunk.take w.remaining := by
  rw [completed_ingest_block] at h
  have hroom : w.fill + (chunk.take w.remaining).length < w.size :=
    Nat.lt_of_le_of_ne (fill_add_taken_le w chunk) (of_decide_eq_false h)
  have hfront : (w.data.toList.take w.fill ++ chunk.take w.remaining).length =
      w.fill + (chunk.take w.remaining).length := by
    rw [List.length_append, length_take_fill]
  rw [fill_ingest_block, if_pos hroom, toList_ingest_block, ← hfront, List.take_left]

/-- An intake that fills the window leaves nothing in it of what was there before. -/
theorem toList_ingest_block_of_completed (h : (w.ingest .block chunk).2.completed = true) :
    (w.ingest .block chunk).1.data.toList =
      w.data.toList.take w.fill ++ chunk.take w.remaining := by
  rw [completed_ingest_block] at h
  rw [toList_ingest_block, of_decide_eq_true h, List.drop_eq_nil_of_le, List.append_nil]
  exact Nat.le_of_eq Array.length_toList

/-- Taking nothing changes nothing. -/
theorem ingest_block_nil (h : w.fill < w.size) : w.ingest .block [] = (w, ⟨[], false⟩) := by
  rw [ingest]
  simp [overwrite, h]

end Window

end Bytescope
