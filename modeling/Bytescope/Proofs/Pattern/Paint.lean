import Bytescope.Proofs.Pattern.Scan

/-!
# What a scan paints

The opacities that a scan leaves depend on the patterns and on the window alone. Every sample is
painted when its first byte is read, before any occurrence can touch it, so nothing remains of
the opacities that were there before.

## Main definitions

* `Paint.Agree`: opacities that are equal on the samples begun so far.

## Main results

* `PatternSet.alpha_scan_congr`: a scan does not depend on what the last scan left.
-/

namespace Bytescope

/-- Two paints that can differ only in the samples from `n` on. -/
structure Paint.Agree (n : ℕ) (p q : Paint) : Prop where
  /-- There are equally many samples. -/
  size_eq : p.alpha.size = q.alpha.size
  /-- The next sample starts with the same opacity. -/
  running_eq : p.running = q.running
  /-- The first samples have the same opacity. -/
  alpha_eq : ∀ i < n, p.alpha[i]? = q.alpha[i]?

namespace Paint

@[simp] theorem size_fill (alpha : Array UInt8) (first count : ℕ) (value : UInt8) :
    (fill alpha first count value).size = alpha.size := by
  induction count with
  | zero => rfl
  | succ count ih =>
    rw [fill, Nat.fold_succ, Array.size_setIfInBounds]
    exact ih

/-- Filling paints the samples in its range and no other. -/
theorem getElem?_fill (alpha : Array UInt8) (first count : ℕ) (value : UInt8) (i : ℕ) :
    (fill alpha first count value)[i]? =
      if first ≤ i ∧ i < first + count ∧ i < alpha.size then some value else alpha[i]? := by
  induction count with
  | zero =>
    rw [if_neg (by omega)]
    rfl
  | succ count ih =>
    have hstep : fill alpha first (count + 1) value =
        (fill alpha first count value).setIfInBounds (first + count) value :=
      Nat.fold_succ ..
    rw [hstep, Array.getElem?_setIfInBounds, ih, size_fill]
    by_cases hlast : first + count = i
    · by_cases hsize : i < alpha.size
      · rw [if_pos hlast, if_pos (by omega), if_pos ⟨by omega, by omega, hsize⟩]
      · rw [if_pos hlast, if_neg (by omega), if_neg (by omega),
          Array.getElem?_eq_none (Nat.le_of_not_lt hsize)]
    · rw [if_neg hlast]
      exact if_congr (by omega) rfl rfl

/-! ### Samples begun -/

/-- How many samples have their first byte before a position. -/
def begun (footprint position : ℕ) : ℕ := (position + footprint - 1) / footprint

section Begun

variable {footprint : ℕ} (hfoot : 0 < footprint) (position : ℕ)
include hfoot

theorem begun_mul (samples : ℕ) : begun footprint (samples * footprint) = samples := by
  rw [begun, Nat.add_sub_assoc hfoot, Nat.mul_comm, Nat.mul_add_div hfoot,
    Nat.div_eq_of_lt (by omega), Nat.add_zero]

theorem begun_succ : begun footprint (position + 1) = position / footprint + 1 := by
  rw [begun, show position + 1 + footprint - 1 = position + footprint by omega,
    Nat.add_div_right _ hfoot]

/-- Within a sample the number stays. -/
theorem begun_of_mod_ne_zero (h : position % footprint ≠ 0) :
    begun footprint position = position / footprint + 1 := by
  cases position with
  | zero => exact absurd (Nat.zero_mod _) h
  | succ position =>
    rw [begun_succ hfoot, Nat.succ_div, if_neg (fun hdvd => h (Nat.mod_eq_zero_of_dvd hdvd)),
      Nat.add_zero]

end Begun

/-! ### What two scans agree on -/

variable {n : ℕ} {p q : Paint} {footprint position : ℕ}

/-- Beginning a sample makes two paints agree on it. -/
theorem Agree.enter (hfoot : 0 < footprint) (h : Agree (begun footprint position) p q) :
    Agree (begun footprint (position + 1)) (p.enter footprint position)
      (q.enter footprint position) := by
  rw [begun_succ hfoot]
  unfold Paint.enter
  split_ifs with hbegin
  · obtain ⟨samples, rfl⟩ := Nat.dvd_of_mod_eq_zero hbegin
    rw [Nat.mul_comm, begun_mul hfoot] at h
    rw [Nat.mul_div_cancel_left _ hfoot]
    refine ⟨by simp only [Array.size_setIfInBounds, h.size_eq], h.running_eq, fun i hi => ?_⟩
    rw [Array.getElem?_setIfInBounds, Array.getElem?_setIfInBounds, h.size_eq, h.running_eq]
    split_ifs with heq
    · rfl
    · rfl
    · exact h.alpha_eq i (by omega)
  · rwa [begun_of_mod_ne_zero hfoot position hbegin] at h

/-- An occurrence paints the same samples of both. -/
theorem Agree.occur (h : Agree n p q) (pattern : Pattern) :
    Agree n (p.occur footprint position pattern) (q.occur footprint position pattern) := by
  unfold Paint.occur
  by_cases hlast : position / footprint < q.alpha.size
  · simp only [h.size_eq, hlast, ↓reduceIte, h.running_eq]
    refine ⟨by simp only [size_fill, h.size_eq], rfl, fun i hi => ?_⟩
    simp only [getElem?_fill, h.size_eq, h.alpha_eq i hi]
  · simp only [h.size_eq, hlast, ↓reduceIte, h.running_eq]
    exact ⟨h.size_eq, rfl, h.alpha_eq⟩

/-- So does a byte that is shown to all patterns. -/
theorem Agree.read (h : Agree n p q) (byte : UInt8) (hunts : List Hunt) :
    Agree n (PatternSet.read footprint position byte hunts p).2
      (PatternSet.read footprint position byte hunts q).2 := by
  induction hunts generalizing p q with
  | nil => exact h
  | cons hunt rest ih =>
    rw [PatternSet.read, PatternSet.read]
    split
    · exact ih (h.occur _)
    · exact ih h

/-- After a run of bytes they agree on all samples begun by then. -/
theorem Agree.readFrom (hfoot : 0 < footprint) (bytes : List UInt8) (hunts : List Hunt)
    (h : Agree (begun footprint position) p q) :
    Agree (begun footprint (position + bytes.length))
      (PatternSet.readFrom footprint position hunts p bytes).2
      (PatternSet.readFrom footprint position hunts q bytes).2 := by
  induction bytes generalizing position hunts p q with
  | nil => exact h
  | cons byte rest ih =>
    rw [PatternSet.readFrom, PatternSet.readFrom, List.length_cons, Nat.add_comm rest.length,
      ← Nat.add_assoc]
    dsimp only
    rw [PatternSet.fst_read, PatternSet.fst_read]
    exact ih _ ((h.enter hfoot).read byte hunts)

theorem size_enter (p : Paint) (footprint position : ℕ) :
    (p.enter footprint position).alpha.size = p.alpha.size := by
  unfold Paint.enter
  split_ifs
  · exact Array.size_setIfInBounds
  · rfl

theorem size_occur (p : Paint) (footprint position : ℕ) (pattern : Pattern) :
    (p.occur footprint position pattern).alpha.size = p.alpha.size := by
  unfold Paint.occur
  dsimp only
  split_ifs
  · exact size_fill ..
  · rfl

theorem size_read (p : Paint) (footprint position : ℕ) (byte : UInt8) (hunts : List Hunt) :
    (PatternSet.read footprint position byte hunts p).2.alpha.size = p.alpha.size := by
  induction hunts generalizing p with
  | nil => rfl
  | cons hunt rest ih =>
    rw [PatternSet.read]
    split
    · exact (ih _).trans (size_occur ..)
    · exact ih p

theorem size_readFrom (p : Paint) (footprint position : ℕ) (bytes : List UInt8)
    (hunts : List Hunt) :
    (PatternSet.readFrom footprint position hunts p bytes).2.alpha.size = p.alpha.size := by
  induction bytes generalizing p position hunts with
  | nil => rfl
  | cons byte rest ih => exact (ih _ _ _).trans ((size_read ..).trans (size_enter ..))

end Paint

namespace PatternSet

/-- A scan gives every sample an opacity. -/
@[simp] theorem size_alpha_scan (s : PatternSet) (window : Array UInt8) (footprint : ℕ)
    (alpha : Array UInt8) : (s.scan window footprint alpha).alpha.size = alpha.size :=
  Paint.size_readFrom ..

/-- **A scan starts from nothing.** If every sample has its bytes in the window, then the
opacities after a scan depend on the patterns and the window alone, and neither on what matched
of the patterns nor on the opacities before. -/
theorem alpha_scan_congr {s t : PatternSet} (hpatterns : s.patterns = t.patterns)
    {window : Array UInt8} {footprint : ℕ} (hfoot : 0 < footprint) {alpha beta : Array UInt8}
    (hsize : alpha.size = beta.size) (hwindow : window.size = alpha.size * footprint) :
    (s.scan window footprint alpha).alpha = (t.scan window footprint beta).alpha := by
  have hhunts : s.trackers.map Hunt.start = t.trackers.map Hunt.start := by
    have hstart (u : PatternSet) : u.trackers.map Hunt.start =
        u.patterns.map fun p => ⟨Tracker.start p, 0⟩ := by
      rw [patterns, List.map_map]
      rfl
    rw [hstart, hstart, hpatterns]
  have hbegin : Paint.Agree (Paint.begun footprint 0) ⟨alpha, opaqueAlpha⟩ ⟨beta, opaqueAlpha⟩ := by
    rw [← Nat.zero_mul footprint, Paint.begun_mul hfoot]
    exact ⟨hsize, rfl, fun i hi => absurd hi (Nat.not_lt_zero i)⟩
  have hend := hbegin.readFrom hfoot window.toList (t.trackers.map Hunt.start)
  rw [Nat.zero_add, Array.length_toList, hwindow, Paint.begun_mul hfoot] at hend
  change (readFrom (max footprint 1) 0 (s.trackers.map Hunt.start) ⟨alpha, opaqueAlpha⟩
    window.toList).2.alpha = (readFrom (max footprint 1) 0 (t.trackers.map Hunt.start)
    ⟨beta, opaqueAlpha⟩ window.toList).2.alpha
  rw [hhunts, Nat.max_eq_left hfoot]
  refine Array.ext_getElem? fun i => ?_
  rcases Nat.lt_or_ge i alpha.size with hlt | hge
  · exact hend.alpha_eq i hlt
  · rw [Array.getElem?_eq_none (by rw [Paint.size_readFrom]; exact hge),
      Array.getElem?_eq_none (by rw [Paint.size_readFrom, ← hsize]; exact hge)]

end PatternSet

end Bytescope
