import Bytescope.Pattern.Borders
import Mathlib.Order.Bounds.Basic

/-!
# Border tables hold longest borders

A search keeps the length of the longest beginning of its pattern that ends the text read so
far. One more byte makes this beginning longer by at most one byte, and what remains after a
mismatch is found by going from border to border. The border table of a pattern is the record
of such a search of the pattern in itself, so one lemma about `BorderTable.extend` serves the
making of the table as well as its use.

## Main definitions

* `LongestMatch`: the longest beginning of a pattern that ends a text.
* `BorderTable.Longest`: every entry of a table is a longest border.

## Main results

* `BorderTable.Longest.extend`: reading a byte goes from longest match to longest match.
* `BorderTable.longest_ofBytes`: the table made of a pattern holds its longest borders.
-/

namespace Bytescope

/-- Of all beginnings of the pattern that are shorter than `bound` and end the text, the
longest one has length `k`. -/
def LongestMatch (pattern text : List UInt8) (bound k : ℕ) : Prop :=
  IsGreatest {j | j < bound ∧ pattern.take j <:+ text} k

section LongestMatch

variable {pattern text : List UInt8} {byte : UInt8} {bound j k : ℕ}

/-- A nonempty beginning ends a text with one more byte exactly when it is itself the
continuation by this byte of a beginning that ended the text before. -/
theorem take_succ_suffix_concat_iff (hj : j < pattern.length) :
    pattern.take (j + 1) <:+ text ++ [byte] ↔
      pattern.take j <:+ text ∧ pattern[j]? = some byte := by
  rw [List.take_succ_eq_append_getElem hj, List.getElem?_eq_getElem hj, List.suffix_concat_iff]
  constructor
  · rintro (h | ⟨u, hu, hsuffix⟩)
    · exact absurd h (List.append_ne_nil_of_right_ne_nil _ (List.cons_ne_nil _ _))
    · obtain ⟨rfl, hbyte⟩ := List.append_inj' hu rfl
      exact ⟨hsuffix, congrArg some (List.singleton_inj.mp hbyte)⟩
  · rintro ⟨hsuffix, hbyte⟩
    exact Or.inr ⟨_, by rw [Option.some.inj hbyte], hsuffix⟩

/-- One more byte makes the longest match longer by at most one byte. -/
theorem LongestMatch.le_succ (h : LongestMatch pattern text bound k)
    (hbound : bound ≤ pattern.length) (hj : j < bound + 1)
    (hsuffix : pattern.take j <:+ text ++ [byte]) : j ≤ k + 1 := by
  cases j with
  | zero => exact Nat.zero_le _
  | succ i =>
    have hi := ((take_succ_suffix_concat_iff (by omega)).mp hsuffix).1
    exact Nat.succ_le_succ (h.2 ⟨by omega, hi⟩)

end LongestMatch

namespace BorderTable

/-- Every entry of the table is the length of the longest border of its beginning of the
pattern. -/
def Longest (t : BorderTable) (pattern : List UInt8) : Prop :=
  ∀ i (h : i < t.lengths.size), LongestMatch pattern (pattern.take (i + 1)) (i + 1) t.lengths[i]

variable {bytes : Array UInt8} {t : BorderTable} {text : List UInt8} {byte : UInt8} {bound k : ℕ}

/-- **Reading a byte.** If no beginning longer than `k + 1` can end the text with the new byte,
and the beginning of length `k` ends the text without it, then going from border to border
finds the longest beginning that ends the text with it. -/
theorem Longest.extend (ht : t.Longest bytes.toList) (hk : k ≤ t.lengths.size)
    (hsuffix : bytes.toList.take k <:+ text) (hlt : k + 1 < bound)
    (hbound : bound ≤ bytes.size + 1)
    (hmax : ∀ j < bound, bytes.toList.take j <:+ text ++ [byte] → j ≤ k + 1) :
    LongestMatch bytes.toList (text ++ [byte]) bound (t.extend bytes byte k hk) := by
  induction k using Nat.strongRecOn with
  | _ k ih =>
    unfold BorderTable.extend
    have hget : bytes.toList[k]? = bytes[k]? := Array.getElem?_toList
    split
    · rename_i hbyte
      refine ⟨⟨hlt, ?_⟩, fun j hj => hmax j hj.1 hj.2⟩
      exact (take_succ_suffix_concat_iff (by rw [Array.length_toList]; omega)).mpr
        ⟨hsuffix, hget.trans hbyte⟩
    · rename_i hbyte
      have hle (j : ℕ) (hj : j < bound) (hend : bytes.toList.take j <:+ text ++ [byte]) :
          j ≤ k := by
        refine Nat.le_of_lt_succ (lt_of_le_of_ne (hmax j hj hend) ?_)
        rintro rfl
        rw [take_succ_suffix_concat_iff (by rw [Array.length_toList]; omega), hget] at hend
        exact hbyte hend.2
      match k, hk with
      | 0, _ =>
        exact ⟨⟨(Nat.zero_lt_succ _).trans hlt, List.nil_suffix⟩, fun j hj => hle j hj.1 hj.2⟩
      | k + 1, hk =>
        obtain ⟨⟨hlen, hborder⟩, hlongest⟩ := ht k (by omega)
        refine ih _ hlen _ (hborder.trans hsuffix) (by omega) fun j hj hend => ?_
        cases j with
        | zero => exact Nat.zero_le _
        | succ i =>
          -- A beginning that can be continued is a border of the one that ends the text.
          have hi := hle _ hj hend
          rw [take_succ_suffix_concat_iff (by rw [Array.length_toList]; omega)] at hend
          have hshort : (bytes.toList.take i).length ≤ (bytes.toList.take (k + 1)).length := by
            simp only [List.length_take]
            omega
          have hin := List.suffix_of_suffix_length_le hend.1 hsuffix hshort
          exact Nat.succ_le_succ (hlongest ⟨by omega, hin⟩)

/-- A table of longest borders stays one when the longest border of the next beginning is
added. -/
theorem Longest.push {pattern : List UInt8} (ht : t.Longest pattern) (h : k ≤ t.lengths.size)
    (hk : LongestMatch pattern (pattern.take (t.lengths.size + 1)) (t.lengths.size + 1) k) :
    (t.push k h).Longest pattern := by
  intro i hi
  simp only [BorderTable.push, Array.getElem_push]
  split
  · exact ht i _
  · have hlast : i = t.lengths.size := by
      simp only [BorderTable.push, Array.size_push] at hi
      omega
    rw [hlast]
    exact hk

/-- Filling a table goes on from the longest border of the beginning it has come to. -/
theorem Longest.fill {rest : List UInt8} (ht : t.Longest bytes.toList)
    (hk : k < t.lengths.size)
    (hlast : LongestMatch bytes.toList (bytes.toList.take t.lengths.size) t.lengths.size k)
    (hrest : bytes.toList = bytes.toList.take t.lengths.size ++ rest) :
    (t.fill bytes k hk rest).Longest bytes.toList := by
  induction rest generalizing t k with
  | nil => exact ht
  | cons byte rest ih =>
    have hlen : t.lengths.size < bytes.toList.length := by
      have := congrArg List.length hrest
      simp only [List.length_append, List.length_take, List.length_cons] at this
      omega
    have hsize : t.lengths.size < bytes.size := by simpa only [Array.length_toList] using hlen
    have htake : bytes.toList.take (t.lengths.size + 1) =
        bytes.toList.take t.lengths.size ++ [byte] := by
      have hget : bytes.toList[t.lengths.size]? = some byte := by
        rw [hrest, List.getElem?_append_right (by simp), List.length_take,
          Nat.min_eq_left (by omega), Nat.sub_self]
        rfl
      rw [List.take_succ_eq_append_getElem hlen]
      rw [List.getElem?_eq_getElem hlen] at hget
      rw [Option.some.inj hget]
    have hnext : LongestMatch bytes.toList (bytes.toList.take t.lengths.size ++ [byte])
        (t.lengths.size + 1) (t.extend bytes byte k (Nat.le_of_lt hk)) :=
      ht.extend (Nat.le_of_lt hk) hlast.1.2 (by omega) (by omega)
        fun j hj hend => hlast.le_succ (Nat.le_of_lt hlen) hj hend
    rw [← htake] at hnext
    have hpush (h) : (t.push (t.extend bytes byte k (Nat.le_of_lt hk)) h).lengths.size =
        t.lengths.size + 1 := Array.size_push _
    unfold BorderTable.fill
    refine ih (ht.push _ hnext) _ ?_ ?_
    · rw [hpush]
      exact hnext
    · rw [hpush, htake]
      simpa using hrest

/-- **The border table.** The table made of a pattern holds, for each of its beginnings, the
length of the longest border. -/
theorem longest_ofBytes (bytes : Array UInt8) : (ofBytes bytes).Longest bytes.toList := by
  unfold ofBytes
  split
  · intro i hi
    exact absurd hi (Nat.not_lt_zero _)
  · rename_i byte rest hbytes
    have hfirst : LongestMatch bytes.toList (bytes.toList.take 1) 1 0 :=
      ⟨⟨Nat.one_pos, List.nil_suffix⟩, fun j hj => Nat.le_of_lt_succ hj.1⟩
    have hempty : empty.Longest bytes.toList := fun i hi => absurd hi (Nat.not_lt_zero _)
    exact (hempty.push (Nat.zero_le _) hfirst).fill _ hfirst (by rw [hbytes]; rfl)

end BorderTable

end Bytescope
