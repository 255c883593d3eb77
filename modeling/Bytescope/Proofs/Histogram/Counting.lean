import Bytescope.Histogram
import Mathlib.Algebra.BigOperators.Fin

/-!
# What a histogram has counted

A histogram that has counted the bytes of a list, none of them beyond the limit of a bucket,
holds their numbers and is determined by them; its total is the length of the list.

## Main definitions

* `Histogram.Counts`: a histogram has counted exactly these bytes.

## Main results

* `Histogram.Counts.absorbAll`: counting goes on where it stopped.
* `Histogram.Counts.total_eq`: the total is the number of bytes counted.
* `Histogram.Counts.eq`: a histogram is determined by what it has counted.
-/

namespace Bytescope

namespace Histogram

/-- The histogram has counted exactly the bytes of the list. -/
def Counts (h : Histogram) (bytes : List UInt8) : Prop :=
  ∀ byte, h.count byte = bytes.count byte

variable {h k : Histogram} {seen bytes : List UInt8}

theorem counts_empty : empty.Counts [] := fun byte => count_empty byte

/-- Counting goes on where it stopped, as long as no bucket can reach its limit. -/
theorem Counts.absorbAll (hseen : h.Counts seen)
    (hlimit : seen.length + bytes.length ≤ bucketLimit) :
    (h.absorbAll bytes).Counts (seen ++ bytes) := by
  induction bytes generalizing h seen with
  | nil => simpa using hseen
  | cons byte rest ih =>
    rw [List.length_cons] at hlimit
    have hnext : (h.absorb byte).Counts (seen ++ [byte]) := fun other => by
      have hle : seen.count byte ≤ seen.length := List.count_le_length
      rw [count_absorb, hseen, hseen, List.count_append, List.count_singleton]
      by_cases heq : byte = other
      · subst heq
        rw [if_pos rfl, if_pos (beq_self_eq_true _), Nat.min_eq_left (by omega)]
      · rw [if_neg heq, if_neg (by simpa using heq), Nat.add_zero]
    have hrest := ih hnext (by rw [List.length_append, List.length_singleton]; omega)
    rwa [List.append_assoc] at hrest

/-- The histogram of a buffer has counted its bytes. -/
theorem counts_ofBytes {data : Array UInt8} (hsize : data.size ≤ bucketLimit) :
    (ofBytes data).Counts data.toList := by
  rw [ofBytes_eq_absorbAll]
  exact counts_empty.absorbAll (by simpa using hsize)

/-- A histogram is determined by what it has counted. -/
theorem Counts.eq (hh : h.Counts bytes) (hk : k.Counts bytes) : h = k := by
  have hcount (i : ℕ) (hi : i < 256) : h.counts[i] = k.counts[i] := by
    have hbyte := (hh (UInt8.ofFin ⟨i, hi⟩)).trans (hk (UInt8.ofFin ⟨i, hi⟩)).symm
    simpa [count, ByteTable.lookup] using hbyte
  cases h
  cases k
  exact congrArg Histogram.mk (Vector.ext hcount)

/-! ### The total -/

theorem total_eq_sum (h : Histogram) : h.total = ∑ i : Fin 256, h.count (UInt8.ofFin i) := by
  have hlist : h.counts.toList = List.ofFn fun i : Fin 256 => h.count (UInt8.ofFin i) := by
    refine List.ext_getElem (by rw [Vector.length_toList, List.length_ofFn]) fun i _ _ => ?_
    rw [List.getElem_ofFn, Vector.getElem_toList]
    rfl
  rw [total, ← Vector.foldl_toList, ← List.sum_eq_foldl_nat, hlist, List.sum_ofFn]

/-- The numbers of all bytes add up to the length of a list. -/
theorem sum_count (bytes : List UInt8) :
    ∑ i : Fin 256, bytes.count (UInt8.ofFin i) = bytes.length := by
  induction bytes with
  | nil => simp
  | cons byte rest ih =>
    have hone : ∑ i : Fin 256, (if byte == UInt8.ofFin i then 1 else 0) = 1 := by
      rw [Finset.sum_eq_single byte.toFin]
      · simp
      · intro i _ hne
        rw [if_neg]
        intro heq
        rw [eq_of_beq heq] at hne
        exact hne rfl
      · intro habsent
        exact absurd (Finset.mem_univ _) habsent
    simp only [List.count_cons, Finset.sum_add_distrib, ih, hone, List.length_cons]

/-- The total is the number of bytes counted. -/
theorem Counts.total_eq (hh : h.Counts bytes) : h.total = bytes.length := by
  rw [total_eq_sum, ← sum_count]
  exact Finset.sum_congr rfl fun i _ => hh _

/-- No bucket holds more than was counted. -/
theorem Counts.count_le (hh : h.Counts bytes) (byte : UInt8) : h.count byte ≤ bytes.length := by
  rw [hh]
  exact List.count_le_length

end Histogram

end Bytescope
