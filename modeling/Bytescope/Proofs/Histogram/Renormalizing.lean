import Bytescope.Proofs.Histogram.Shares

/-!
# Scaling a histogram twice

The shares of a histogram are rounded one by one, so they need not add up to 255. Scaling them once
more makes up for what is missing, all at once and in proportion: a count moves by what is missing
at the most, and towards making it up. A histogram that has one frequent byte and many rare ones
loses nearly all of the rare ones to rounding when it is scaled, and scaling it again nearly doubles
the frequent one.

## Main results

* `Histogram.normalize_normalize`: by how much scaling again moves a count.
* `Histogram.normalize_normalize_mixed`: scaling again can move a count from 128 to 255.
-/

namespace Bytescope

namespace Histogram

variable {total count : ℕ}

/-! ### Shares and counts -/

theorem le_exactShare_sub_iff (hpos : 0 < total) (count : ℕ) (k : ℤ) :
    k ≤ exactShare total count - count ↔ 2 * total * k ≤ 2 * count * (255 - total) + total := by
  have hdouble : (0 : ℤ) < 2 * total := by omega
  rw [le_sub_iff_add_le, exactShare]
  push_cast
  rw [Int.le_ediv_iff_mul_le hdouble]
  constructor <;> intro h <;> linarith

theorem exactShare_sub_le_iff (hpos : 0 < total) (count : ℕ) (k : ℤ) :
    (exactShare total count - count : ℤ) ≤ k ↔
      2 * count * (255 - total) + total < 2 * total * (k + 1) := by
  rw [← Int.lt_add_one_iff, ← not_le, ← not_le, le_exactShare_sub_iff hpos]

/-- A share differs from its count by one at the most if the count, multiplied by what the total
is short of 255, is within three halves of the total. -/
theorem abs_exactShare_sub_le_one_iff (hpos : 0 < total) (count : ℕ) :
    |(exactShare total count - count : ℤ)| ≤ 1 ↔
      -(3 * total) ≤ 2 * count * (255 - total : ℤ) ∧
        2 * count * (255 - total : ℤ) < 3 * total := by
  rw [abs_le, le_exactShare_sub_iff hpos, exactShare_sub_le_iff hpos]
  constructor <;> rintro ⟨hlow, hhigh⟩ <;> constructor <;> linarith

/-- A count that is not beyond the total moves by what the total is short of 255, at the most, and
in that direction. -/
theorem exactShare_sub_mem (hpos : 0 < total) (hcount : count ≤ total) :
    |(exactShare total count - count : ℤ)| ≤ |(255 - total : ℤ)| ∧
      0 ≤ (exactShare total count - count : ℤ) * (255 - total) := by
  have htotal : (0 : ℤ) < total := by exact_mod_cast hpos
  have hcount' : (count : ℤ) ≤ total := by exact_mod_cast hcount
  have hnonneg : (0 : ℤ) ≤ count := Int.natCast_nonneg count
  rcases le_total (total : ℤ) 255 with hshort | hlong
  · have hmissing : (0 : ℤ) ≤ 255 - total := by omega
    have hlow : (0 : ℤ) ≤ exactShare total count - count := by
      rw [le_exactShare_sub_iff hpos]
      nlinarith
    have hhigh : (exactShare total count - count : ℤ) ≤ 255 - total := by
      rw [exactShare_sub_le_iff hpos]
      nlinarith
    exact ⟨by rwa [abs_of_nonneg hlow, abs_of_nonneg hmissing], mul_nonneg hlow hmissing⟩
  · have hsurplus : (255 - total : ℤ) ≤ 0 := by omega
    have hlow : (255 - total : ℤ) ≤ exactShare total count - count := by
      rw [le_exactShare_sub_iff hpos]
      nlinarith
    have hhigh : (exactShare total count - count : ℤ) ≤ 0 := by
      rw [exactShare_sub_le_iff hpos]
      nlinarith
    exact ⟨by rw [abs_of_nonpos hhigh, abs_of_nonpos hsurplus]; omega,
      mul_nonneg_of_nonpos_of_nonpos hhigh hsurplus⟩

/-! ### Scaling again -/

variable {h : Histogram}

theorem Fits.normalize (hfits : h.Fits) : h.normalize.Fits := fun byte =>
  (hfits.count_normalize_le byte).trans (by decide)

/-- **Scaling a histogram twice.** A histogram that has counted nothing stays as it is. Otherwise
the scaled counts add up to 255, give or take 128, and scaling them again gives each its share of
255 in that sum. A count moves by one at the most exactly if the count, times what the sum is short
of 255, is within three halves of the sum. It never moves by more than what is missing in all, nor
away from making it up; where nothing is missing, nothing moves. -/
theorem normalize_normalize (h : Histogram) (hfits : h.Fits) :
    let once := h.normalize
    let twice := once.normalize
    (h.total = 0 → once = h ∧ twice = h) ∧
    (0 < h.total →
      let missing : ℤ := 255 - once.total
      |missing| ≤ 128 ∧
      ∀ byte,
        let moved : ℤ := twice.count byte - once.count byte
        twice.count byte = (510 * once.count byte + once.total) / (2 * once.total) ∧
        (|moved| ≤ 1 ↔ -(3 * once.total) ≤ 2 * once.count byte * missing ∧
          2 * once.count byte * missing < 3 * once.total) ∧
        |moved| ≤ |missing| ∧ 0 ≤ moved * missing) := by
  intro once twice
  refine ⟨fun hnone => ?_, fun hpos => ?_⟩
  · have honce : once = h := normalize_of_total_eq_zero hnone
    exact ⟨honce, (congrArg normalize honce).trans honce⟩
  · intro missing
    obtain ⟨hlow, hhigh⟩ := hfits.total_normalize_mem hpos
    have honce : 0 < once.total := Nat.lt_of_lt_of_le (by decide) hlow
    refine ⟨abs_le.2 (by simp only [missing, once]; omega), fun byte => ?_⟩
    intro moved
    have hagain : twice.count byte = exactShare once.total (once.count byte) :=
      hfits.normalize.count_normalize honce byte
    have hmoved : moved = exactShare once.total (once.count byte) - once.count byte := by
      rw [← hagain]
    rw [hmoved]
    exact ⟨hagain, abs_exactShare_sub_le_one_iff honce _,
      exactShare_sub_mem honce (once.count_le_total byte)⟩

/-- Five bytes of one kind and one of another get 213 and 43, one too many in all: scaling again
takes it from the larger one. -/
theorem normalize_normalize_uneven :
    let h := ofBytes #[0, 0, 0, 0, 0, 1]
    (h.Fits ∧ 0 < h.total ∧ h.normalize.count 0 = 213 ∧ h.normalize.total = 256 ∧
      h.normalize.normalize.count 0 = 212) ∧
    empty.Fits ∧ empty.total = 0 ∧ empty.normalize.normalize = empty := by
  intro h
  have hcounts : h.Counts _ := counts_ofBytes (by decide)
  have htotal : h.total = 6 := hcounts.total_eq
  have hfits : h.Fits := fits_ofBytes _
  have hpos : 0 < h.total := by
    rw [htotal]
    decide
  have honce : h.normalize.count 0 = 213 := by
    rw [hfits.count_normalize hpos, htotal, hcounts]
    decide
  have hsum : h.normalize.total = 256 := by
    rw [hfits.total_normalize hpos, htotal, Finset.sum_congr rfl fun _ _ => by rw [hcounts]]
    decide +kernel
  obtain ⟨-, hscaled⟩ := normalize_normalize h hfits
  obtain ⟨hnothing, -⟩ := normalize_normalize empty fits_empty
  refine ⟨⟨hfits, hpos, honce, hsum, ?_⟩, fits_empty, counts_empty.total_eq,
    (hnothing counts_empty.total_eq).2⟩
  rw [((hscaled hpos).2 0).1, honce, hsum]

theorem count_ofFn_ofFin (byte : UInt8) : (List.ofFn UInt8.ofFin).count byte = 1 :=
  List.count_eq_one_of_mem (List.nodup_ofFn.2 fun _ _ heq => congrArg UInt8.toFin heq)
    (List.mem_ofFn.2 ⟨byte.toFin, rfl⟩)

/-- Scaling a histogram again is not within one of scaling it once. Of 511 bytes one value takes
256 and all others one each. Their shares are rounded to nothing and the frequent value gets 128;
scaled again, it gets everything. -/
theorem normalize_normalize_mixed :
    let h := ofBytes (Array.replicate 255 0 ++ Array.ofFn UInt8.ofFin)
    h.Fits ∧ h.normalize.count 0 = 128 ∧ h.normalize.normalize.count 0 = 255 ∧
      ¬ |(h.normalize.normalize.count 0 : ℤ) - h.normalize.count 0| ≤ 1 := by
  intro h
  have hsize : (Array.replicate 255 0 ++ Array.ofFn UInt8.ofFin).size = 511 := by
    rw [Array.size_append, Array.size_replicate, Array.size_ofFn]
    rfl
  have hcounts : h.Counts _ := counts_ofBytes (by rw [hsize]; decide)
  have htotal : h.total = 511 := by
    rw [hcounts.total_eq, Array.length_toList, hsize]
  have hcount (byte : UInt8) : h.count byte = if byte = 0 then 256 else 1 := by
    rw [hcounts, Array.toList_append, Array.toList_replicate, Array.toList_ofFn, List.count_append,
      List.count_replicate, count_ofFn_ofFin]
    by_cases hzero : byte = 0
    · rw [if_pos hzero, hzero]
      rfl
    · rw [if_neg hzero, if_neg (by simpa using Ne.symm hzero)]
  have hfits : h.Fits := fits_ofBytes _
  have hpos : 0 < h.total := by
    rw [htotal]
    decide
  have honce : h.normalize.count 0 = 128 := by
    rw [hfits.count_normalize hpos, htotal, hcount]
    decide
  have hsum : h.normalize.total = 128 := by
    rw [hfits.total_normalize hpos, htotal, Finset.sum_congr rfl fun _ _ => by rw [hcount]]
    decide +kernel
  have htwice : h.normalize.normalize.count 0 = 255 := by
    rw [hfits.normalize.count_normalize (by rw [hsum]; decide), hsum, honce]
    decide
  refine ⟨hfits, honce, htwice, ?_⟩
  rw [honce, htwice]
  decide

end Histogram

end Bytescope
