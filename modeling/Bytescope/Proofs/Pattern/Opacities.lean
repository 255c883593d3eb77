import Bytescope.Proofs.Pattern.Paint
import Bytescope.Proofs.Pattern.Succession

/-!
# Which opacity a scan leaves to a sample

A sample takes the opacity of the last occurrence that touches it, wherever in the window that
occurrence began. A sample that no occurrence touches keeps what it got when its first byte was
read: the opacity of the last persistent occurrence before it, or full opacity. A scan keeps this
up byte by byte: a sample is begun before any occurrence can touch it, and an occurrence paints
the samples it touches over what they had.

## Main definitions

* `Occurrence.Touches`, `Occurrence.PersistsTo`: how an occurrence reaches a sample.
* `opacityAfter`: the opacity that a succession of occurrences leaves to a sample.
* `Paint.Shows`: the opacities of the samples begun so far are those of the occurrences so far.

## Main results

* `Paint.Shows.enter`, `Paint.Shows.occur`: beginning a sample and painting an occurrence.
* `PatternSet.shows_readFrom`: a scan of a window.
* `PatternSet.painted_scan`: the opacities and the counts of a scan.
-/

namespace Bytescope

/-! ### How an occurrence reaches a sample -/

namespace Occurrence

/-- The occurrence has a byte in the sample. -/
def Touches (footprint sample : ℕ) (o : Occurrence) : Prop :=
  (o.stop + 1 - o.pattern.size) / footprint ≤ sample ∧ sample ≤ o.stop / footprint

/-- The occurrence ends before the sample begins, and its opacity stays. -/
def PersistsTo (footprint sample : ℕ) (o : Occurrence) : Prop :=
  o.pattern.flags.persist = true ∧ o.stop < sample * footprint

instance (footprint sample : ℕ) (o : Occurrence) : Decidable (o.Touches footprint sample) :=
  inferInstanceAs (Decidable (_ ∧ _))

instance (footprint sample : ℕ) (o : Occurrence) : Decidable (o.PersistsTo footprint sample) :=
  inferInstanceAs (Decidable (_ ∧ _))

end Occurrence

/-- The opacity of the last of the occurrences that meet a condition. -/
def latest? (found : List Occurrence) (condition : Occurrence → Prop) [DecidablePred condition] :
    Option UInt8 :=
  (found.filter fun o => condition o).getLast?.map (·.pattern.alpha)

/-- The opacity that occurrences, one after the other, leave to a sample: that of the last one
that touches it, else that of the last one that persists to it, else full opacity. -/
def opacityAfter (found : List Occurrence) (footprint sample : ℕ) : UInt8 :=
  ((latest? found (·.Touches footprint sample)).or
    (latest? found (·.PersistsTo footprint sample))).getD opaqueAlpha

section Latest

variable {found : List Occurrence} {o : Occurrence}

theorem latest?_concat (condition : Occurrence → Prop) [DecidablePred condition] :
    latest? (found ++ [o]) condition =
      if condition o then some o.pattern.alpha else latest? found condition := by
  rw [latest?, List.filter_append]
  split_ifs with ho
  · have hone : [o].filter (fun o => condition o) = [o] := by simp [ho]
    rw [hone, List.getLast?_concat, Option.map_some]
  · have hnone : [o].filter (fun o => condition o) = [] := by simp [ho]
    rw [hnone, List.append_nil, latest?]

theorem latest?_eq_none {condition : Occurrence → Prop} [DecidablePred condition]
    (h : ∀ o ∈ found, ¬ condition o) : latest? found condition = none := by
  rw [latest?, List.filter_eq_nil_iff.mpr fun o ho => by simpa using h o ho]
  rfl

theorem latest?_congr {condition condition' : Occurrence → Prop} [DecidablePred condition]
    [DecidablePred condition'] (h : ∀ o ∈ found, (condition o ↔ condition' o)) :
    latest? found condition = latest? found condition' := by
  rw [latest?, latest?, List.filter_congr fun o ho => decide_eq_decide.mpr (h o ho)]

end Latest

/-! ### What a scan has shown so far -/

namespace Paint

/-- After the bytes before a position, the running default is the opacity of the last persistent
occurrence so far, and every sample begun has the opacity that the occurrences leave to it. -/
structure Shows (footprint position : ℕ) (found : List Occurrence) (paint : Paint) : Prop where
  /-- The next sample starts with the opacity that persists. -/
  running_eq : paint.running =
    (latest? found (·.pattern.flags.persist = true)).getD opaqueAlpha
  /-- The samples begun have their opacities. -/
  alpha_eq : ∀ sample < begun footprint position, sample < paint.alpha.size →
    paint.alpha[sample]? = some (opacityAfter found footprint sample)

variable {paint : Paint} {footprint position : ℕ} {found : List Occurrence}

/-- **Beginning a sample.** No occurrence so far touches it, and all of them end before it. -/
theorem Shows.enter (hfoot : 0 < footprint) (h : paint.Shows footprint position found)
    (hbefore : ∀ o ∈ found, o.stop < position) :
    (paint.enter footprint position).Shows footprint (position + 1) found := by
  unfold Paint.enter
  split_ifs with hbegin
  · obtain ⟨first, rfl⟩ := Nat.dvd_of_mod_eq_zero hbegin
    have hbegun : begun footprint (footprint * first) = first := by
      rw [Nat.mul_comm, begun_mul hfoot]
    have hfresh : paint.running = opacityAfter found footprint first := by
      have htouch : latest? found (·.Touches footprint first) = none :=
        latest?_eq_none fun o ho htouches =>
          absurd (Nat.div_lt_of_lt_mul (hbefore o ho)) (Nat.not_lt.mpr htouches.2)
      have hpersist : latest? found (·.PersistsTo footprint first) =
          latest? found (·.pattern.flags.persist = true) :=
        latest?_congr fun o ho => and_iff_left (by rw [Nat.mul_comm]; exact hbefore o ho)
      rw [opacityAfter, htouch, hpersist, Option.none_or]
      exact h.running_eq
    refine ⟨h.running_eq, fun sample hsample hsize => ?_⟩
    rw [begun_succ hfoot, Nat.mul_div_cancel_left _ hfoot] at hsample
    rw [Array.size_setIfInBounds] at hsize
    rw [Nat.mul_div_cancel_left _ hfoot, Array.getElem?_setIfInBounds]
    split_ifs with heq hfirst
    · rw [hfresh, heq]
    · exact absurd (heq ▸ hsize) hfirst
    · exact h.alpha_eq sample (by omega) hsize
  · refine ⟨h.running_eq, fun sample hsample => h.alpha_eq sample ?_⟩
    rwa [begun_of_mod_ne_zero hfoot position hbegin, ← begun_succ hfoot]

/-- **Painting an occurrence.** It gives its opacity to the samples it touches, and it persists to
none of those begun so far. -/
theorem Shows.occur {o : Occurrence} (hfoot : 0 < footprint)
    (h : paint.Shows footprint (o.stop + 1) found) (hlast : o.stop / footprint < paint.alpha.size) :
    (paint.occur footprint o.stop o.pattern).Shows footprint (o.stop + 1) (found ++ [o]) := by
  unfold Paint.occur
  simp only [hlast, ↓reduceIte]
  constructor
  · rw [latest?_concat]
    split_ifs
    · rfl
    · exact h.running_eq
  · intro sample hsample hsize
    rw [size_fill] at hsize
    have hbegun := h.alpha_eq sample hsample hsize
    rw [begun_succ hfoot, Nat.lt_succ_iff] at hsample
    have hpersist : ¬ o.PersistsTo footprint sample := fun hpersists =>
      absurd hpersists.2 (Nat.not_lt.mpr ((Nat.le_div_iff_mul_le hfoot).mp hsample))
    have htouch : o.Touches footprint sample ↔
        (o.stop + 1 - o.pattern.size) / footprint ≤ sample := and_iff_left hsample
    rw [opacityAfter, latest?_concat, latest?_concat, if_neg hpersist, getElem?_fill]
    by_cases hfirst : (o.stop + 1 - o.pattern.size) / footprint ≤ sample
    · rw [if_pos ⟨hfirst, by omega, hsize⟩, if_pos (htouch.mpr hfirst)]
      rfl
    · rw [if_neg fun h => hfirst h.1, if_neg fun h => hfirst (htouch.mp h)]
      exact hbegun

/-- The occurrences that end with one byte are painted one after the other. -/
theorem Shows.foldl_occur (hfoot : 0 < footprint) (h : paint.Shows footprint (position + 1) found)
    (hlast : position / footprint < paint.alpha.size) (next : List Occurrence)
    (hnext : ∀ o ∈ next, o.stop = position) :
    ((next.map (·.pattern)).foldl (·.occur footprint position ·) paint).Shows footprint
      (position + 1) (found ++ next) := by
  induction next generalizing paint found with
  | nil =>
    rw [List.append_nil]
    exact h
  | cons o rest ih =>
    obtain rfl := hnext o List.mem_cons_self
    rw [List.append_cons]
    exact ih (h.occur hfoot hlast) (by rwa [size_occur])
      fun o' ho' => hnext o' (List.mem_cons_of_mem _ ho')

end Paint

namespace PatternSet

variable {s : PatternSet} {footprint : ℕ}

/-- The occurrences that end in a beginning of a text. -/
theorem stop_lt_of_mem_flatMap {text : List UInt8} {position : ℕ} {o : Occurrence}
    (h : o ∈ (List.range position).flatMap (s.stopping text)) : o.stop < position := by
  obtain ⟨stop, hstop, hmem⟩ := List.mem_flatMap.mp h
  rw [(mem_stopping_iff.mp hmem).1]
  exact List.mem_range.mp hstop

/-- **A run of bytes.** A scan that has shown the occurrences so far goes on to show all of
them. -/
theorem shows_readFrom (hfoot : 0 < footprint) (text rest : List UInt8) {read : List UInt8}
    (htext : read ++ rest = text) {paint : Paint}
    (hsize : text.length ≤ paint.alpha.size * footprint)
    (h : paint.Shows footprint read.length ((List.range read.length).flatMap (s.stopping text))) :
    (readFrom footprint read.length (s.trackers.map fun t => (Hunt.start t).seeAll read) paint
      rest).2.Shows footprint text.length (s.succession text) := by
  induction rest generalizing read paint with
  | nil =>
    obtain rfl : read = text := by rw [← htext, List.append_nil]
    exact h
  | cons byte rest ih =>
    have happend : (read ++ [byte]) ++ rest = text := by rw [List.append_assoc]; exact htext
    have hread : (read ++ [byte]).length = read.length + 1 := List.length_append
    have hlt : read.length < text.length := by
      rw [← happend, List.length_append, hread]
      omega
    have hsee : (s.trackers.map fun t => (Hunt.start t).seeAll read).map (·.see byte) =
        s.trackers.map fun t => (Hunt.start t).seeAll (read ++ [byte]) := by
      rw [List.map_map]
      refine List.map_congr_left fun t _ => ?_
      simp only [Function.comp_apply, Hunt.seeAll, List.foldl_append, List.foldl_cons,
        List.foldl_nil]
    have hnow := s.stoppingNow_eq hlt
    have htake : text.take read.length = read := by
      rw [← htext, List.take_left]
    have hget : text[read.length] = byte := by
      simp only [← htext, List.getElem_append_right (Nat.le_refl _), Nat.sub_self,
        List.getElem_cons_zero]
    rw [htake, hget] at hnow
    have hbegun := h.enter hfoot fun o ho => stop_lt_of_mem_flatMap ho
    have hlast : read.length / footprint < (paint.enter footprint read.length).alpha.size := by
      rw [Paint.size_enter]
      exact (Nat.div_lt_iff_lt_mul hfoot).mpr (Nat.lt_of_lt_of_le hlt hsize)
    have hpainted := hbegun.foldl_occur hfoot hlast (s.stopping text read.length)
      fun o ho => (mem_stopping_iff.mp ho).1
    rw [← hnow, ← snd_read] at hpainted
    rw [readFrom]
    dsimp only
    rw [fst_read, hsee, ← hread]
    refine ih happend (by rwa [Paint.size_read, Paint.size_enter]) ?_
    rw [hread, List.range_succ, List.flatMap_append, List.flatMap_singleton]
    exact hpainted

/-- The opacities that a scan leaves are those that the occurrences leave to the samples. -/
theorem alpha_scan_eq (s : PatternSet) {window : Array UInt8} (hfoot : 0 < footprint)
    {alpha : Array UInt8} (hwindow : window.size = alpha.size * footprint) :
    (s.scan window footprint alpha).alpha =
      Array.ofFn fun sample : Fin alpha.size =>
        opacityAfter (s.succession window.toList) footprint sample := by
  have hstart : (⟨alpha, opaqueAlpha⟩ : Paint).Shows footprint ([] : List UInt8).length
      ((List.range ([] : List UInt8).length).flatMap (s.stopping window.toList)) := by
    refine ⟨rfl, fun sample hsample => ?_⟩
    rw [List.length_nil, ← Nat.zero_mul footprint, Paint.begun_mul hfoot] at hsample
    exact absurd hsample (Nat.not_lt_zero sample)
  have hend := shows_readFrom hfoot window.toList window.toList (List.nil_append _)
    (Nat.le_of_eq hwindow) hstart
  refine Array.ext_getElem? fun sample => ?_
  rw [Array.getElem?_ofFn]
  split_ifs with hsample
  · change (readFrom (max footprint 1) 0 (s.trackers.map Hunt.start) ⟨alpha, opaqueAlpha⟩
      window.toList).2.alpha[sample]? = _
    rw [Nat.max_eq_left hfoot]
    refine hend.alpha_eq sample ?_ (by rwa [Paint.size_readFrom])
    rwa [Array.length_toList, hwindow, Paint.begun_mul hfoot]
  · exact Array.getElem?_eq_none (by rw [size_alpha_scan]; exact Nat.le_of_not_lt hsample)

/-- **What a scan paints and counts.** Take the occurrences of all patterns in the order of their
ends and, among those with the same end, of registration. Each of them begins in the window. A
scan leaves to every sample the opacity of the last occurrence that touches it, else of the last
persistent one that ends before it, else full opacity, whatever the samples had before and
whatever matched of the patterns. It reports, in the order of registration, how many occurrences
the patterns have that are events and have any; counts stop at `bucketLimit`, which no shorter
window can exceed. -/
theorem painted_scan (s : PatternSet) {window : Array UInt8} {footprint : ℕ}
    (hfoot : 0 < footprint) {alpha : Array UInt8}
    (hwindow : window.size = alpha.size * footprint) :
    (∀ o, o ∈ s.succession window.toList ↔ s.patterns[o.place]? = some o.pattern ∧
        o.stop ∈ occurrences o.pattern.bytes.toList window.toList 0) ∧
      (s.succession window.toList).Pairwise Occurrence.Precedes ∧
      (∀ o ∈ s.succession window.toList, o.pattern.size ≤ o.stop + 1) ∧
      (s.scan window footprint alpha).alpha =
        (Array.ofFn fun sample : Fin alpha.size =>
          opacityAfter (s.succession window.toList) footprint sample) ∧
      (s.scan window footprint alpha).counts =
        (s.counted (s.succession window.toList)).map
          (fun found => ⟨found.id, min found.count bucketLimit⟩) ∧
      (window.size ≤ bucketLimit → (s.scan window footprint alpha).counts =
        s.counted (s.succession window.toList)) := by
  rw [← tally_eq_counted]
  exact ⟨fun _ => mem_succession_iff, s.pairwise_succession _,
    fun _ ho => size_le_of_mem_succession ho, s.alpha_scan_eq hfoot hwindow,
    s.counts_scan window footprint alpha,
    fun hsize => s.counts_scan_of_size_le hsize footprint alpha⟩

/-- Two patterns that overlap, the first of which persists: the second one paints over it, the
sample before them keeps full opacity, and the one after them the opacity that persists. -/
theorem painted_scan_of_overlap :
    0 < 2 ∧ (#[0, 0, 5, 1, 2, 9, 9, 9, 1, 2] : Array UInt8).size =
        (#[0, 0, 0, 0, 0] : Array UInt8).size * 2 ∧
      ∃ p q, Pattern.build #[1, 2] 10 7 ⟨true, true⟩ = .ok p ∧
        Pattern.build #[2, 9] 20 8 ⟨false, true⟩ = .ok q ∧
        (((empty.register p).register q).scan #[0, 0, 5, 1, 2, 9, 9, 9, 1, 2] 2
          #[0, 0, 0, 0, 0]).alpha = #[255, 10, 20, 10, 10] ∧
        (((empty.register p).register q).scan #[0, 0, 5, 1, 2, 9, 9, 9, 1, 2] 2
          #[0, 0, 0, 0, 0]).counts = [⟨7, 2⟩, ⟨8, 1⟩] := by
  have hfirst : occurrences [1, 2] [0, 0, 5, 1, 2, 9, 9, 9, 1, 2] 0 = [4, 9] := by
    rw [occurrences_eq_cons (show StandsAt _ _ 0 4 by decide) (by decide) (by decide) (by decide),
      occurrences_eq_cons (show StandsAt _ _ 5 9 by decide) (by decide) (by decide) (by decide),
      occurrences_eq_nil (by decide)]
  have hsecond : occurrences [2, 9] [0, 0, 5, 1, 2, 9, 9, 9, 1, 2] 0 = [5] := by
    rw [occurrences_eq_cons (show StandsAt _ _ 0 5 by decide) (by decide) (by decide) (by decide),
      occurrences_eq_nil (by decide)]
  refine ⟨by decide, by decide, _, _, dif_pos (by decide), dif_pos (by decide), ?_⟩
  generalize hp : (⟨#[1, 2], 10, 7, ⟨true, true⟩, _, _, rfl⟩ : Pattern) = p
  generalize hq : (⟨#[2, 9], 20, 8, ⟨false, true⟩, _, _, rfl⟩ : Pattern) = q
  obtain ⟨-, -, -, halpha, -, hcounts⟩ := painted_scan ((empty.register p).register q)
    (by decide : 0 < 2) (by decide : (#[0, 0, 5, 1, 2, 9, 9, 9, 1, 2] : Array UInt8).size =
        (#[0, 0, 0, 0, 0] : Array UInt8).size * 2)
  have hfound : ((empty.register p).register q).succession [0, 0, 5, 1, 2, 9, 9, 9, 1, 2] =
      [⟨4, 0, p⟩, ⟨5, 1, q⟩, ⟨9, 0, p⟩] := by
    have hstopping (stop : ℕ) : ((empty.register p).register q).stopping
        [0, 0, 5, 1, 2, 9, 9, 9, 1, 2] stop = (if stop ∈ [4, 9] then [⟨stop, 0, p⟩] else []) ++
          (if stop ∈ [5] then [⟨stop, 1, q⟩] else []) := by
      have hplaces : ((empty.register p).register q).patterns.zipIdx = [(p, 0), (q, 1)] := rfl
      have hbytes : p.bytes.toList = [1, 2] ∧ q.bytes.toList = [2, 9] := by
        rw [← hp, ← hq]
        decide
      simp only [stopping, hplaces, List.filterMap_cons, List.filterMap_nil, hbytes, hfirst,
        hsecond]
      split_ifs <;> rfl
    rw [succession, funext hstopping]
    rfl
  rw [halpha, hcounts (by decide), hfound, ← hp, ← hq]
  exact ⟨by decide, rfl⟩

end PatternSet

end Bytescope
