/-!
# Borders of a byte sequence

A border of a sequence is a proper beginning of it that is also its end. The border table of a
sequence gives, for each beginning, the length of that beginning's longest border. With it a
search that fails after `k` matching bytes goes on from the longest border of those bytes
instead of starting over.

## Main definitions

* `BorderTable`: a table whose entries are shorter than the beginnings they belong to, which
  makes every chain of fallbacks end.
* `BorderTable.extend`: the number of matching bytes after one more byte.
* `BorderTable.ofBytes`: the table of a sequence.
-/

namespace Bytescope

/-- For each nonempty beginning of a sequence the length of a border of it. -/
structure BorderTable where
  /-- Entry `i` belongs to the first `i + 1` bytes. -/
  lengths : Array Nat
  /-- A border is shorter than its sequence. -/
  length_le : ∀ i (h : i < lengths.size), lengths[i] ≤ i

namespace BorderTable

/-- Adds the entry of the next beginning. -/
def push (t : BorderTable) (length : Nat) (h : length ≤ t.lengths.size) : BorderTable where
  lengths := t.lengths.push length
  length_le i hi := by
    rw [Array.getElem_push]
    split
    · exact t.length_le i _
    · rw [Array.size_push] at hi
      omega

/-- The number of bytes of the sequence that match after one more byte has been read, when `k`
of them matched before: the longest border of those `k` bytes, themselves included, that the
byte extends. -/
def extend (bytes : Array UInt8) (t : BorderTable) (byte : UInt8) (k : Nat)
    (hk : k ≤ t.lengths.size) : Nat :=
  if bytes[k]? = some byte then k + 1
  else
    match k, hk with
    | 0, _ => 0
    | k + 1, hk =>
      have hle := t.length_le k (by omega)
      extend bytes t byte t.lengths[k] (by omega)
termination_by k
decreasing_by omega

/-- Reading a byte lets at most one more byte match. -/
theorem extend_le (bytes : Array UInt8) (t : BorderTable) (byte : UInt8) (k : Nat)
    (hk : k ≤ t.lengths.size) : t.extend bytes byte k hk ≤ k + 1 := by
  induction k using Nat.strongRecOn with
  | _ k ih =>
    unfold extend
    split
    · exact Nat.le_refl _
    · match k, hk with
      | 0, _ => exact Nat.zero_le _
      | k + 1, hk =>
        have hle := t.length_le k (by omega)
        exact Nat.le_trans (ih _ (by omega) _) (by omega)

/-- Adds the entries of the beginnings that end with each of the given bytes in turn; `k` is
the last entry made. -/
def fill (bytes : Array UInt8) (t : BorderTable) (k : Nat) (hk : k < t.lengths.size) :
    List UInt8 → BorderTable
  | [] => t
  | byte :: rest =>
    have hle := t.extend_le bytes byte k (by omega)
    fill bytes (t.push (t.extend bytes byte k (by omega)) (by omega))
      (t.extend bytes byte k (by omega)) (by simp only [push, Array.size_push]; omega) rest

/-- The table of the empty sequence. -/
def empty : BorderTable := ⟨#[], fun _ h => absurd h (Nat.not_lt_zero _)⟩

/-- The border table of a sequence. A single byte has no border but the empty one. -/
def ofBytes (bytes : Array UInt8) : BorderTable :=
  match bytes.toList with
  | [] => empty
  | _ :: rest => fill bytes (empty.push 0 (Nat.zero_le _)) 0 (by simp [push, empty]) rest

theorem size_fill (bytes : Array UInt8) (t : BorderTable) (k : Nat) (hk : k < t.lengths.size)
    (rest : List UInt8) :
    (t.fill bytes k hk rest).lengths.size = t.lengths.size + rest.length := by
  induction rest generalizing t k with
  | nil => rfl
  | cons byte rest ih =>
    unfold fill
    rw [ih, push, Array.size_push, List.length_cons]
    omega

/-- The table has one entry for each byte. -/
@[simp]
theorem size_ofBytes (bytes : Array UInt8) : (ofBytes bytes).lengths.size = bytes.size := by
  unfold ofBytes
  split
  · rename_i h
    simp [empty, ← Array.length_toList, h]
  · rename_i byte rest h
    have hsize : bytes.size = rest.length + 1 := by
      rw [← Array.length_toList, h, List.length_cons]
    rw [size_fill, hsize]
    simp [push, empty, Nat.add_comm]

end BorderTable

end Bytescope
