import Bytescope.Proofs.Pattern.Occurrences

/-!
# What a scan counts

A scan shows every byte of a window to all patterns of a set. Each pattern goes its own way, so
what is counted of it are its occurrences in the window.

## Main definitions

* `Hunt.seeAll`: a pattern during a scan, without the other ones.
* `PatternSet.tally`: how often each pattern occurs.

## Main results

* `PatternSet.fst_readFrom`: the patterns of a set do not disturb each other.
* `PatternSet.counts_scan`: a scan reports the numbers of occurrences, held at `bucketLimit`.
* `occurrences_found`: trackers and scans find exactly the occurrences.
-/

namespace Bytescope

/-! ### One pattern during a scan -/

namespace Hunt

/-- The pattern after one byte of the scan. -/
def see (h : Hunt) (byte : UInt8) : Hunt :=
  if (h.tracker.advance byte).2 then count ⟨(h.tracker.advance byte).1, h.matched⟩
  else ⟨(h.tracker.advance byte).1, h.matched⟩

/-- The pattern after all of the given bytes. -/
def seeAll (h : Hunt) (bytes : List UInt8) : Hunt := bytes.foldl see h

@[simp] theorem tracker_see (h : Hunt) (byte : UInt8) :
    (h.see byte).tracker = (h.tracker.advance byte).1 := by
  unfold see count
  split_ifs <;> rfl

@[simp] theorem tracker_seeAll (h : Hunt) (bytes : List UInt8) :
    (h.seeAll bytes).tracker = h.tracker.readAll bytes := by
  induction bytes generalizing h with
  | nil => rfl
  | cons byte rest ih =>
    exact (ih _).trans (congrArg (fun t : Tracker => t.readAll rest) (tracker_see h byte))

theorem matched_see (h : Hunt) (byte : UInt8) :
    (h.see byte).matched =
      if (h.tracker.advance byte).2 ∧ h.tracker.pattern.flags.event then
        min (h.matched + 1) bucketLimit
      else h.matched := by
  unfold see count
  rw [Tracker.pattern_advance]
  split_ifs <;> simp_all

/-- A pattern whose occurrences are events counts what its tracker finds. -/
theorem matched_seeAll (h : Hunt) (hle : h.matched ≤ bucketLimit) (position : ℕ)
    (bytes : List UInt8) :
    (h.seeAll bytes).matched =
      if h.tracker.pattern.flags.event then
        min (h.matched + (h.tracker.stops position bytes).length) bucketLimit
      else h.matched := by
  induction bytes generalizing h position with
  | nil =>
    change h.matched = _
    split_ifs
    · exact (Nat.min_eq_left hle).symm
    · rfl
  | cons byte rest ih =>
    have hsee := matched_see h byte
    have hle' : (h.see byte).matched ≤ bucketLimit := by
      rw [hsee]
      split_ifs
      · exact Nat.min_le_right _ _
      · exact hle
    have hrest := ih (h.see byte) hle' (position + 1)
    rw [tracker_see, Tracker.pattern_advance] at hrest
    rw [seeAll, List.foldl_cons, ← seeAll, hrest, hsee, Tracker.stops]
    by_cases hevent : h.tracker.pattern.flags.event
    · by_cases hstop : (h.tracker.advance byte).2
      · simp only [hevent, hstop, and_self, ↓reduceIte, List.length_cons]
        omega
      · simp only [hevent, hstop, and_true, Bool.false_eq_true, ↓reduceIte]
    · simp only [hevent, and_false, Bool.false_eq_true, ↓reduceIte]

end Hunt

namespace PatternSet

variable {footprint position : ℕ} {byte : UInt8} {paint : Paint}

/-- Every pattern sees the byte on its own. -/
theorem fst_read (hunts : List Hunt) :
    (read footprint position byte hunts paint).1 = hunts.map (·.see byte) := by
  induction hunts generalizing paint with
  | nil => rfl
  | cons hunt rest ih =>
    rw [List.map_cons, read, Hunt.see]
    split
    · rename_i tracker hadvance
      simp only [hadvance, ↓reduceIte, ih]
    · rename_i tracker hadvance
      simp only [hadvance, Bool.false_eq_true, ↓reduceIte, ih]

theorem fst_readFrom (hunts : List Hunt) (bytes : List UInt8) :
    (readFrom footprint position hunts paint bytes).1 = hunts.map (·.seeAll bytes) := by
  induction bytes generalizing hunts position paint with
  | nil => exact (List.map_id' _).symm
  | cons byte rest ih =>
    rw [readFrom]
    dsimp only
    rw [ih, fst_read, List.map_map]
    rfl

/-- During a scan every pattern starts over and then sees the window on its own. -/
theorem fst_readFrom_start (s : PatternSet) (window : Array UInt8) :
    (readFrom footprint 0 (s.trackers.map Hunt.start) paint window.toList).1 =
      s.trackers.map fun t => (Hunt.start t).seeAll window.toList := by
  rw [fst_readFrom, List.map_map]
  rfl

@[simp] theorem patterns_scan (s : PatternSet) (window : Array UInt8) (footprint : ℕ)
    (alpha : Array UInt8) : (s.scan window footprint alpha).patterns.patterns = s.patterns := by
  change ((readFrom (max footprint 1) 0 (s.trackers.map Hunt.start) ⟨alpha, opaqueAlpha⟩
    window.toList).1.map Hunt.tracker).map Tracker.pattern = _
  rw [fst_readFrom_start, List.map_map, List.map_map, patterns]
  refine List.map_congr_left fun t _ => ?_
  simp [Hunt.start, Tracker.start]

/-! ### Counting -/

/-- How often the patterns of a set occur in a text, those whose occurrences are events and that
do occur. -/
def tally (s : PatternSet) (text : List UInt8) : List MatchCount :=
  s.patterns.filterMap fun p =>
    let found := occurrences p.bytes.toList text 0
    if p.flags.event ∧ found ≠ [] then some ⟨p.id, found.length⟩ else none

/-- **What a scan reports.** It reports the numbers of occurrences, held at `bucketLimit`. -/
theorem counts_scan (s : PatternSet) (window : Array UInt8) (footprint : ℕ)
    (alpha : Array UInt8) :
    (s.scan window footprint alpha).counts =
      (s.tally window.toList).map fun found => ⟨found.id, min found.count bucketLimit⟩ := by
  change List.filterMap Hunt.report? (readFrom (max footprint 1) 0 (s.trackers.map Hunt.start)
    ⟨alpha, opaqueAlpha⟩ window.toList).1 = _
  rw [fst_readFrom_start, tally, patterns, List.filterMap_map, List.filterMap_map,
    List.map_filterMap]
  refine congrArg (fun f => s.trackers.filterMap f) (funext fun t => ?_)
  have hmatched := Hunt.matched_seeAll (Hunt.start t) (Nat.zero_le _) 0 window.toList
  have hstops : (Tracker.start t.pattern).stops 0 window.toList =
      occurrences t.pattern.bytes.toList window.toList 0 :=
    Tracker.stops_eq_occurrences _ _
  simp only [Hunt.start, hstops, Nat.zero_add] at hmatched
  have hid : ((Hunt.start t).seeAll window.toList).tracker.pattern.id = t.pattern.id := by
    rw [Hunt.tracker_seeAll, Tracker.pattern_readAll]
    rfl
  simp only [Function.comp_apply, Hunt.report?, Hunt.start] at hid ⊢
  rw [hmatched, hid]
  cases hfound : occurrences t.pattern.bytes.toList window.toList 0 with
  | nil => split_ifs <;> simp_all [Tracker.start]
  | cons stop rest =>
    by_cases hevent : t.pattern.flags.event <;>
      simp [hevent, Tracker.start, bucketLimit]

/-- A window of no more than `bucketLimit` bytes holds no more occurrences. -/
theorem counts_scan_of_size_le (s : PatternSet) {window : Array UInt8}
    (hsize : window.size ≤ bucketLimit) (footprint : ℕ) (alpha : Array UInt8) :
    (s.scan window footprint alpha).counts = s.tally window.toList := by
  rw [counts_scan, tally, List.map_filterMap]
  refine congrArg (fun f => s.patterns.filterMap f) (funext fun p => ?_)
  have hlen : (occurrences p.bytes.toList window.toList 0).length ≤ window.size :=
    length_occurrences_le _ window.toList 0
  dsimp only
  split_ifs
  · rw [Option.map_some, Nat.min_eq_left (hlen.trans hsize)]
  · rfl

end PatternSet

/-- **Exact matching.** A pattern can be made of any bytes but none. Its tracker finds the
occurrences one after the other in every text, and its progress is the longest match since the
last of them. A scan reports how often each pattern occurs in the window, whatever was read
before and whatever other patterns there are; counts stop at `bucketLimit`, which no shorter
window can exceed. -/
theorem occurrences_found :
    (∀ bytes : Array UInt8, 0 < bytes.size → ∀ (alpha : UInt8) (id : ℕ) (flags : PatternFlags),
      ∃ p, Pattern.build bytes alpha id flags = .ok p ∧ p.bytes = bytes ∧
        ∀ text : List UInt8,
          (Tracker.start p).stops 0 text = occurrences bytes.toList text 0 ∧
          LongestMatch bytes.toList (text.drop (resumption bytes.toList text 0)) bytes.size
            ((Tracker.start p).readAll text).progress) ∧
    ∀ (s : PatternSet) (window : Array UInt8) (footprint : ℕ) (alpha : Array UInt8),
      (s.scan window footprint alpha).counts =
          (s.tally window.toList).map (fun found => ⟨found.id, min found.count bucketLimit⟩) ∧
        (window.size ≤ bucketLimit →
          (s.scan window footprint alpha).counts = s.tally window.toList) := by
  refine ⟨fun bytes hbytes alpha id flags => ?_, fun s window footprint alpha =>
    ⟨s.counts_scan window footprint alpha,
      fun hsize => s.counts_scan_of_size_le hsize footprint alpha⟩⟩
  obtain ⟨p, hp, rfl⟩ : ∃ p, Pattern.build bytes alpha id flags = .ok p ∧ p.bytes = bytes :=
    ⟨_, dif_pos hbytes, rfl⟩
  exact ⟨p, hp, rfl, fun text =>
    ⟨Tracker.stops_eq_occurrences p text, Tracker.longestMatch_readAll p text⟩⟩

/-- A pattern that overlaps itself: seven bytes that are all equal hold it three times without
overlap. -/
theorem occurrences_found_of_overlap :
    0 < (#[7, 7] : Array UInt8).size ∧ (#[7, 7, 7, 7, 7, 7, 7] : Array UInt8).size ≤ bucketLimit ∧
      ∃ p, Pattern.build #[7, 7] 64 5 ⟨false, true⟩ = .ok p ∧
        (Tracker.start p).stops 0 [7, 7, 7, 7, 7, 7, 7] = [1, 3, 5] ∧
        ((PatternSet.empty.register p).scan #[7, 7, 7, 7, 7, 7, 7] 1 #[]).counts = [⟨5, 3⟩] := by
  have hvalue : occurrences [7, 7] [7, 7, 7, 7, 7, 7, 7] 0 = [1, 3, 5] := by
    rw [occurrences_eq_cons (show StandsAt _ _ 0 1 by decide) (by decide) (by decide) (by decide),
      occurrences_eq_cons (show StandsAt _ _ 2 3 by decide) (by decide) (by decide) (by decide),
      occurrences_eq_cons (show StandsAt _ _ 4 5 by decide) (by decide) (by decide) (by decide),
      occurrences_eq_nil (by decide)]
  obtain ⟨p, hp, -, hfound⟩ := occurrences_found.1 #[7, 7] (by decide) 64 5 ⟨false, true⟩
  refine ⟨by decide, by decide, p, hp, (hfound _).1.trans hvalue, ?_⟩
  rw [(occurrences_found.2 _ _ _ _).2 (by decide)]
  obtain rfl : _ = p := Except.ok.inj ((dif_pos (by decide)).symm.trans hp)
  simp only [PatternSet.tally, PatternSet.patterns, PatternSet.register, PatternSet.empty,
    List.nil_append, List.map_cons, List.map_nil, Tracker.start, List.filterMap_cons,
    List.filterMap_nil, hvalue]
  rfl

end Bytescope
