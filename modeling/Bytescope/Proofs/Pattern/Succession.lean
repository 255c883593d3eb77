import Bytescope.Proofs.Pattern.Scan
import Mathlib.Data.List.Sort

/-!
# The occurrences of a set in succession

A scan comes to the occurrences of all patterns of a set one after the other: those that end
earlier come first, and of those that end with the same byte the one whose pattern was registered
first. They are listed here in this order, from the positions at which each pattern occurs by
itself, and a scan is shown to come to them byte by byte.

## Main definitions

* `Occurrence`, `Occurrence.Precedes`: an occurrence of a pattern of a set, and their order.
* `PatternSet.succession`: the occurrences in a text in order.
* `PatternSet.counted`: how many of the occurrences belong to each pattern.

## Main results

* `PatternSet.mem_succession_iff`, `PatternSet.pairwise_succession`: which occurrences are listed,
  and in which order.
* `PatternSet.stoppingNow_eq`: a scan comes to them in this order.
* `PatternSet.tally_eq_counted`: the numbers of occurrences that a scan reports are theirs.
-/

namespace Bytescope

/-- An occurrence of a pattern of a set in a text. -/
structure Occurrence where
  /-- The position of its last byte. -/
  stop : ℕ
  /-- The place of the pattern in the order of registration. -/
  place : ℕ
  /-- The pattern. -/
  pattern : Pattern

/-- The occurrence ends before the other one, or it ends with the same byte and its pattern was
registered before. -/
def Occurrence.Precedes (a b : Occurrence) : Prop :=
  a.stop < b.stop ∨ a.stop = b.stop ∧ a.place < b.place

/-! ### The positions of one pattern -/

section Positions

variable {pattern text : List UInt8} {start stop : ℕ}

/-- A position among the occurrences is in the text, and the pattern stands there. -/
theorem of_mem_occurrences (h : stop ∈ occurrences pattern text start) :
    start ≤ stop ∧ stop < text.length ∧ StandsAt pattern text start stop := by
  fun_induction occurrences pattern text start with
  | case1 => cases h
  | case2 start first hfind hmem ih =>
    rcases List.mem_cons.mp h with rfl | hlater
    · exact ⟨hmem.1, by omega, by simpa using List.find?_some hfind⟩
    · obtain ⟨hle, hlt, hfits, hstands⟩ := ih hlater
      exact ⟨by omega, hlt, by omega, hstands⟩

theorem pairwise_occurrences (pattern text : List UInt8) (start : ℕ) :
    (occurrences pattern text start).Pairwise (· < ·) := by
  fun_induction occurrences pattern text start with
  | case1 => exact List.Pairwise.nil
  | case2 start first hfind hmem ih =>
    exact List.pairwise_cons.mpr ⟨fun stop hstop => (of_mem_occurrences hstop).1, ih⟩

end Positions

namespace Tracker

theorem le_of_mem_stops {t : Tracker} {position : ℕ} {bytes : List UInt8} {stop : ℕ}
    (h : stop ∈ t.stops position bytes) : position ≤ stop := by
  induction bytes generalizing t position with
  | nil => cases h
  | cons byte rest ih =>
    rw [stops] at h
    split_ifs at h
    · rcases List.mem_cons.mp h with rfl | hlater
      · exact Nat.le_refl _
      · exact Nat.le_of_succ_le (ih hlater)
    · exact Nat.le_of_succ_le (ih h)

/-- A tracker finds an occurrence at a byte exactly when it says so after the bytes before. -/
theorem add_mem_stops_iff (t : Tracker) (position : ℕ) (bytes : List UInt8) (i : ℕ) :
    position + i ∈ t.stops position bytes ↔
      ∃ h : i < bytes.length, ((t.readAll (bytes.take i)).advance bytes[i]).2 = true := by
  induction bytes generalizing t position i with
  | nil => simp [stops]
  | cons byte rest ih =>
    have hpast (t : Tracker) : position ∉ t.stops (position + 1) rest :=
      fun h => absurd (le_of_mem_stops h) (Nat.not_succ_le_self position)
    cases i with
    | zero =>
      rw [Nat.add_zero, stops]
      split_ifs with hfound
      · exact iff_of_true List.mem_cons_self ⟨Nat.zero_lt_succ _, hfound⟩
      · exact iff_of_false (hpast _) fun h => hfound h.2
    | succ i =>
      have hlater : position + (i + 1) = position + 1 + i := by omega
      have hrest := ih (t.advance byte).1 (position + 1) i
      rw [hlater, stops]
      simp only [List.length_cons, Nat.add_lt_add_iff_right, List.getElem_cons_succ,
        List.take_succ_cons]
      refine Iff.trans ?_ hrest
      split_ifs
      · rw [List.mem_cons]
        exact or_iff_right (by omega)
      · exact Iff.rfl

/-- Started over and shown a text, a tracker says at each byte whether an occurrence ends there. -/
theorem advance_readAll_iff (p : Pattern) {text : List UInt8} {i : ℕ} (h : i < text.length) :
    (((start p).readAll (text.take i)).advance text[i]).2 = true ↔
      i ∈ occurrences p.bytes.toList text 0 := by
  have hstops := (start p).add_mem_stops_iff 0 text i
  rw [Nat.zero_add, stops_eq_occurrences] at hstops
  exact ⟨fun hfound => hstops.mpr ⟨h, hfound⟩, fun hmem => (hstops.mp hmem).2⟩

end Tracker

namespace PatternSet

variable {s : PatternSet} {text : List UInt8}

/-! ### The occurrences of all patterns -/

/-- The occurrences that end at one position, by the places of their patterns. -/
def stopping (s : PatternSet) (text : List UInt8) (stop : ℕ) : List Occurrence :=
  s.patterns.zipIdx.filterMap fun (p, place) =>
    if stop ∈ occurrences p.bytes.toList text 0 then some ⟨stop, place, p⟩ else none

/-- The occurrences of the patterns of a set in a text, one after the other. -/
def succession (s : PatternSet) (text : List UInt8) : List Occurrence :=
  (List.range text.length).flatMap (s.stopping text)

theorem mem_stopping_iff {stop : ℕ} {o : Occurrence} :
    o ∈ s.stopping text stop ↔ o.stop = stop ∧ s.patterns[o.place]? = some o.pattern ∧
      stop ∈ occurrences o.pattern.bytes.toList text 0 := by
  obtain ⟨last, place, p⟩ := o
  simp only [stopping, List.mem_filterMap, Prod.exists, List.mk_mem_zipIdx_iff_getElem?,
    Option.ite_none_right_eq_some, Option.some.injEq, Occurrence.mk.injEq]
  constructor
  · rintro ⟨q, j, hget, hmem, rfl, rfl, rfl⟩
    exact ⟨rfl, hget, hmem⟩
  · rintro ⟨rfl, hget, hmem⟩
    exact ⟨p, place, hget, hmem, rfl, rfl, rfl⟩

/-- The occurrences are those of each registered pattern. -/
theorem mem_succession_iff {o : Occurrence} :
    o ∈ s.succession text ↔ s.patterns[o.place]? = some o.pattern ∧
      o.stop ∈ occurrences o.pattern.bytes.toList text 0 := by
  simp only [succession, List.mem_flatMap, List.mem_range, mem_stopping_iff]
  constructor
  · rintro ⟨stop, -, rfl, hget, hmem⟩
    exact ⟨hget, hmem⟩
  · rintro ⟨hget, hmem⟩
    exact ⟨o.stop, (of_mem_occurrences hmem).2.1, rfl, hget, hmem⟩

theorem pairwise_stopping (s : PatternSet) (text : List UInt8) (stop : ℕ) :
    (s.stopping text stop).Pairwise Occurrence.Precedes := by
  have hplaces : s.patterns.zipIdx.Pairwise fun a b => a.2 < b.2 := by
    rw [← List.pairwise_map, List.zipIdx_map_snd]
    exact List.pairwise_lt_range'
  refine List.pairwise_filterMap.mpr (hplaces.imp fun {a b} hlt o ho o' ho' => ?_)
  rw [Option.ite_none_right_eq_some] at ho ho'
  obtain rfl := Option.some.inj ho.2
  obtain rfl := Option.some.inj ho'.2
  exact Or.inr ⟨rfl, hlt⟩

/-- They are listed in the order of their ends and, among those with the same end, in the order of
registration. -/
theorem pairwise_succession (s : PatternSet) (text : List UInt8) :
    (s.succession text).Pairwise Occurrence.Precedes := by
  refine List.pairwise_flatMap.mpr ⟨fun stop _ => s.pairwise_stopping text stop,
    List.pairwise_lt_range.imp fun {a b} hlt o ho o' ho' => Or.inl ?_⟩
  rw [(mem_stopping_iff.mp ho).1, (mem_stopping_iff.mp ho').1]
  exact hlt

/-- An occurrence begins in the text. -/
theorem size_le_of_mem_succession {o : Occurrence} (h : o ∈ s.succession text) :
    o.pattern.size ≤ o.stop + 1 := by
  have hfits := (of_mem_occurrences (mem_succession_iff.mp h).2).2.2.1
  rwa [Array.length_toList, Nat.zero_add] at hfits

/-! ### The order of a scan -/

/-- The patterns, in order, of which an occurrence ends with a byte. -/
def stoppingNow (hunts : List Hunt) (byte : UInt8) : List Pattern :=
  (hunts.filter fun h => (h.tracker.advance byte).2).map (·.tracker.pattern)

/-- A byte paints the occurrences that end with it one after the other. -/
theorem snd_read (footprint position : ℕ) (byte : UInt8) (hunts : List Hunt) (paint : Paint) :
    (read footprint position byte hunts paint).2 =
      (stoppingNow hunts byte).foldl (·.occur footprint position ·) paint := by
  induction hunts generalizing paint with
  | nil => rfl
  | cons hunt rest ih =>
    rw [read, stoppingNow, List.filter_cons]
    split
    · rename_i tracker hadvance
      have hpattern : tracker.pattern = hunt.tracker.pattern := by
        rw [← hunt.tracker.pattern_advance byte, hadvance]
      simp only [hadvance, ↓reduceIte, List.map_cons, List.foldl_cons, hpattern, ih, stoppingNow]
    · rename_i tracker hadvance
      simp only [hadvance, Bool.false_eq_true, ↓reduceIte, ih, stoppingNow]

/-- A scan that has come to a byte finds the occurrences that end with it. -/
theorem stoppingNow_eq (s : PatternSet) {text : List UInt8} {i : ℕ} (h : i < text.length) :
    stoppingNow (s.trackers.map fun t => (Hunt.start t).seeAll (text.take i)) text[i] =
      (s.stopping text i).map (·.pattern) := by
  have hfilter : s.patterns.filter (fun p => i ∈ occurrences p.bytes.toList text 0) =
      (s.stopping text i).map (·.pattern) := by
    conv_lhs => rw [← List.zipIdx_map_fst 0 s.patterns, ← List.filterMap_eq_filter,
      List.filterMap_map]
    rw [stopping, List.map_filterMap]
    refine congrArg (fun f => s.patterns.zipIdx.filterMap f) (funext fun (p, place) => ?_)
    simp only [Function.comp_apply, Option.guard, decide_eq_true_eq]
    split_ifs <;> rfl
  rw [← hfilter, stoppingNow, patterns, List.filter_map, List.filter_map, List.map_map]
  have hpattern (t : Tracker) :
      ((Hunt.start t).seeAll (text.take i)).tracker.pattern = t.pattern := by
    rw [Hunt.tracker_seeAll, Tracker.pattern_readAll]
    rfl
  simp only [Function.comp_def, hpattern]
  refine congrArg (List.map Tracker.pattern) (List.filter_congr fun t _ => ?_)
  rw [Hunt.tracker_seeAll, Bool.eq_iff_iff, decide_eq_true_eq]
  exact Tracker.advance_readAll_iff t.pattern h

/-! ### Counting -/

/-- How many of the given occurrences belong to each pattern, for those whose occurrences are
events and that have any. -/
def counted (s : PatternSet) (found : List Occurrence) : List MatchCount :=
  s.patterns.zipIdx.filterMap fun (p, place) =>
    let own := found.filter (·.place = place)
    if p.flags.event ∧ own ≠ [] then some ⟨p.id, own.length⟩ else none

/-- The occurrences of one pattern end where the pattern occurs by itself. -/
theorem map_stop_filter_place {p : Pattern} {place : ℕ} (h : s.patterns[place]? = some p) :
    ((s.succession text).filter (·.place = place)).map (·.stop) =
      occurrences p.bytes.toList text 0 := by
  have hsorted :
      (((s.succession text).filter (·.place = place)).map (·.stop)).Pairwise (· < ·) := by
    rw [List.pairwise_map, List.pairwise_filter]
    refine (s.pairwise_succession text).imp fun {o o'} hprecedes hplace hplace' => ?_
    rw [decide_eq_true_eq] at hplace hplace'
    rcases hprecedes with hlt | ⟨-, hlt⟩
    · exact hlt
    · omega
  refine hsorted.eq_of_mem_iff (pairwise_occurrences _ _ _) fun stop => ?_
  simp only [List.mem_map, List.mem_filter, mem_succession_iff, decide_eq_true_eq]
  constructor
  · rintro ⟨o, ⟨⟨hget, hmem⟩, rfl⟩, rfl⟩
    rw [h] at hget
    rwa [Option.some.inj hget]
  · intro hmem
    exact ⟨⟨stop, place, p⟩, ⟨⟨h, hmem⟩, rfl⟩, rfl⟩

/-- The numbers of occurrences are numbers of members of the succession. -/
theorem tally_eq_counted (s : PatternSet) (text : List UInt8) :
    s.tally text = s.counted (s.succession text) := by
  rw [tally, counted]
  conv_lhs => rw [← List.zipIdx_map_fst 0 s.patterns, List.filterMap_map]
  refine List.filterMap_congr fun entry hmem => ?_
  obtain ⟨p, place⟩ := entry
  have hstops : ((s.succession text).filter (·.place = place)).map (·.stop) =
      occurrences p.bytes.toList text 0 :=
    map_stop_filter_place (List.mk_mem_zipIdx_iff_getElem?.mp hmem)
  simp only [Function.comp_apply, ← hstops, List.length_map, ne_eq, List.map_eq_nil_iff]

end PatternSet

end Bytescope
