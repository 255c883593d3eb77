import Bytescope.Proofs.Channel.WellFormed
import Bytescope.Proofs.Histogram.Counting
import Bytescope.Proofs.Window
import Bytescope.Sink.Transcript

/-!
# The histogram belongs to the window

A channel counts bytes when it takes them in, and under the block clock it does not count the
window again if the total of the histogram is the length of the window. Frames that are made
before the window is full, refused frames, and switches of clock, mapping and packing leave the
count behind or ahead of the window. It is then never equal in total: either the bytes written
since the last frame have been counted and nothing else, which is less than a window, or a whole
window has been counted and everything taken in after it.

## Main definitions

* `Tally`: what can have been counted when a window is as it is.
* `Channel.Coherent`, `Channel.DueCoherent`: a channel has counted such bytes, between
  operations and when a frame is due.

## Main results

* `Session.coherent_run`: every channel that can be reached is coherent.
* `Session.histogram_of_run`: frames are made with the histogram and the entropy of their windows.
-/

namespace Bytescope

/-! ### What has been counted -/

/-- The bytes that can have been counted when a window is as it is: those written since the last
frame, or at least as many as the window holds. -/
inductive Tally (w : Window) : List UInt8 → Prop
  | written : Tally w (w.data.toList.take w.fill)
  | windowful {seen : List UInt8} (hle : w.size ≤ seen.length)
      (hlength : seen.length ≤ w.size + w.fill)
      (heq : seen.length = w.size → seen = w.data.toList) : Tally w seen

namespace Tally

variable {w : Window} {seen : List UInt8}

theorem length_le (h : Tally w seen) : seen.length ≤ w.size + w.fill := by
  cases h with
  | written =>
    rw [List.length_take]
    omega
  | windowful _ hlength _ => exact hlength

/-- A count that adds up to the length of the window is that of the window. -/
theorem eq_of_length_eq (h : Tally w seen) (hfill : w.fill < w.size)
    (hlength : seen.length = w.size) : seen = w.data.toList := by
  cases h with
  | written =>
    rw [List.length_take] at hlength
    omega
  | windowful _ _ heq => exact heq hlength

/-- A window that has just been counted. -/
theorem window (w : Window) : Tally w w.data.toList :=
  .windowful (Nat.le_of_eq Array.length_toList.symm)
    (Nat.le_trans (Nat.le_of_eq Array.length_toList) (Nat.le_add_right _ _)) fun _ => rfl

/-- Nothing has been written and nothing counted. -/
theorem nil (h : w.fill = 0) : Tally w [] := by
  have hwritten : Tally w (w.data.toList.take w.fill) := .written
  rwa [h, List.take_zero] at hwritten

/-- An intake under the block clock that leaves room counts what it writes. -/
theorem ingest_block (h : Tally w seen) (chunk : List UInt8)
    (hopen : (w.ingest .block chunk).2.completed = false) :
    Tally (w.ingest .block chunk).1 (seen ++ chunk.take w.remaining) := by
  cases h with
  | written =>
    rw [← Window.take_fill_ingest_block w chunk hopen]
    exact .written
  | windowful hle hlength heq =>
    rw [Window.completed_ingest_block] at hopen
    have hroom : w.fill + (chunk.take w.remaining).length < w.size :=
      Nat.lt_of_le_of_ne (w.fill_add_taken_le chunk) (of_decide_eq_false hopen)
    have hfill : (w.ingest .block chunk).1.fill = w.fill + (chunk.take w.remaining).length := by
      rw [Window.fill_ingest_block, if_pos hroom]
    refine .windowful ?_ ?_ fun htotal => ?_
    · rw [Window.size_ingest, List.length_append]
      omega
    · rw [Window.size_ingest, hfill, List.length_append]
      omega
    · -- Only an intake of nothing keeps the count at the length of the window.
      rw [Window.size_ingest, List.length_append] at htotal
      have hnone : chunk.take w.remaining = [] := List.length_eq_zero_iff.mp (by omega)
      rw [Window.toList_ingest_block, hnone, List.append_nil, List.append_nil, List.length_nil,
        Nat.add_zero, List.take_append_drop]
      exact heq (by omega)

/-- An intake under the block clock that fills the window has counted exactly the window or
more than that. -/
theorem eq_of_completed (h : Tally w seen) (hfill : w.fill < w.size) (chunk : List UInt8)
    (hdone : (w.ingest .block chunk).2.completed = true)
    (htotal : (seen ++ chunk.take w.remaining).length = w.size) :
    seen ++ chunk.take w.remaining = (w.ingest .block chunk).1.data.toList := by
  cases h with
  | written => exact (Window.toList_ingest_block_of_completed w chunk hdone).symm
  | windowful hle _ _ =>
    rw [Window.completed_ingest_block] at hdone
    have hfull : w.fill + (chunk.take w.remaining).length = w.size := of_decide_eq_true hdone
    rw [List.length_append] at htotal
    omega

end Tally

namespace Channel

variable {c d : Channel}

/-! ### Coherence between operations -/

/-- The histogram has counted the bytes of a tally of the window. -/
def Coherent (c : Channel) : Prop := ∃ seen, c.histogram.Counts seen ∧ Tally c.window seen

/-- Even the bytes of several windows are far from the limit of a bucket. -/
theorem WellFormed.three_mul_size_lt (h : c.WellFormed) : 3 * c.window.size < bucketLimit := by
  have hsize := h.size_le
  simp only [maxWindowSide] at hsize
  simp only [bucketLimit]
  omega

theorem WellFormed.counts_ofBytes (h : c.WellFormed) :
    (Histogram.ofBytes c.window.data).Counts c.window.data.toList := by
  have hlimit := h.three_mul_size_lt
  exact Histogram.counts_ofBytes (by rw [Window.size] at hlimit; omega)

theorem Coherent.count_lt (h : c.Coherent) (hwell : c.WellFormed) (byte : UInt8) :
    c.histogram.count byte < bucketLimit := by
  obtain ⟨seen, hcounts, htally⟩ := h
  have hcount := hcounts.count_le byte
  have hlength := htally.length_le
  have hfill := hwell.fill_lt
  have hlimit := hwell.three_mul_size_lt
  omega

/-- A histogram that adds up to the length of the window is that of the window. -/
theorem Coherent.counts_of_total (h : c.Coherent) (hwell : c.WellFormed)
    (htotal : c.histogram.total = c.window.size) : c.histogram.Counts c.window.data.toList := by
  obtain ⟨seen, hcounts, htally⟩ := h
  rw [hcounts.total_eq] at htotal
  obtain rfl := htally.eq_of_length_eq hwell.fill_lt htotal
  exact hcounts

/-- Every change but an intake keeps the count coherent. -/
theorem Coherent.change (h : c.Coherent) (hchange : Change c d) : d.Coherent := by
  cases hchange with
  | renew hvalid packing => exact ⟨[], Histogram.counts_empty, Tally.nil rfl⟩
  | _ => exact h

/-- So does an intake after which no frame is due. -/
theorem Coherent.absorb (h : c.Coherent) (hwell : c.WellFormed) {chunk : List UInt8}
    (hopen : (c.absorb chunk).2.completed = false) : (c.absorb chunk).1.Coherent := by
  obtain ⟨seen, hcounts, htally⟩ := h
  cases hclock : c.clock with
  | slide =>
    rw [Channel.absorb, hclock] at hopen
    cases hopen
  | block =>
    have hlimit := hwell.three_mul_size_lt
    have hlength := htally.length_le
    have hfill := hwell.fill_lt
    have htaken := c.window.length_taken_le chunk
    rw [Channel.absorb, hclock] at hopen
    rw [Channel.absorb, hclock]
    refine ⟨seen ++ chunk.take c.window.remaining, ?_, htally.ingest_block chunk hopen⟩
    dsimp only
    rw [Window.taken_ingest_block]
    exact hcounts.absorbAll (by omega)

/-! ### Coherence when a frame is due -/

/-- What the histogram has counted when a frame is due. Under the slide clock that need not be a
tally, since the window is counted again anyway. -/
def DueCoherent (c : Channel) : Prop :=
  ∃ seen, c.histogram.Counts seen ∧ seen.length ≤ 3 * c.window.size ∧
    (c.clock = .block → seen.length = c.window.size → seen = c.window.data.toList)

theorem Coherent.due (h : c.Coherent) (hwell : c.WellFormed) : c.DueCoherent := by
  obtain ⟨seen, hcounts, htally⟩ := h
  have hlength := htally.length_le
  have hfill := hwell.fill_lt
  exact ⟨seen, hcounts, by omega, fun _ => htally.eq_of_length_eq hfill⟩

theorem Coherent.due_absorb (h : c.Coherent) (hwell : c.WellFormed) {chunk : List UInt8}
    (hdone : (c.absorb chunk).2.completed = true) : (c.absorb chunk).1.DueCoherent := by
  obtain ⟨seen, hcounts, htally⟩ := h
  have hlimit := hwell.three_mul_size_lt
  have hlength := htally.length_le
  have hfill := hwell.fill_lt
  have hsize : (c.absorb chunk).1.window.size = c.window.size := Window.size_ingest ..
  have hcount (taken : List UInt8) (heq : (c.window.ingest c.clock chunk).2.taken = taken)
      (htaken : taken.length ≤ c.window.size) :
      (c.absorb chunk).1.histogram.Counts (seen ++ taken) := by
    subst heq
    have hsum : seen.length + (c.window.ingest c.clock chunk).2.taken.length ≤ bucketLimit := by
      omega
    exact hcounts.absorbAll hsum
  rw [DueCoherent, hsize]
  cases hclock : c.clock with
  | slide =>
    have htaken : (chunk.take c.window.size).length ≤ c.window.size := by
      rw [List.length_take]
      exact Nat.min_le_left _ _
    refine ⟨seen ++ chunk.take c.window.size, hcount _ (by rw [hclock]; rfl) htaken, ?_, ?_⟩
    · rw [List.length_append]
      omega
    · intro hblock
      cases hclock.symm.trans hblock
  | block =>
    have htaken := c.window.length_taken_le chunk
    rw [Channel.absorb, hclock] at hdone
    refine ⟨seen ++ chunk.take c.window.remaining,
      hcount _ (by rw [hclock, Window.taken_ingest_block]) (by omega), ?_, fun _ htotal => ?_⟩
    · rw [List.length_append]
      omega
    · rw [Channel.absorb, hclock]
      exact htally.eq_of_completed hfill chunk hdone htotal

theorem DueCoherent.count_lt (h : c.DueCoherent) (hwell : c.WellFormed) (byte : UInt8) :
    c.histogram.count byte < bucketLimit := by
  obtain ⟨seen, hcounts, hlength, -⟩ := h
  exact Nat.lt_of_le_of_lt (Nat.le_trans (hcounts.count_le byte) hlength) hwell.three_mul_size_lt

/-- A frame is made with the histogram of its window, whether it is counted again or not. -/
theorem DueCoherent.currentHistogram_eq (h : c.DueCoherent) (hwell : c.WellFormed) :
    c.currentHistogram = .ofBytes c.window.data := by
  obtain ⟨seen, hcounts, -, heq⟩ := h
  rw [currentHistogram]
  split_ifs with hagain
  · rfl
  · rw [not_or, not_not] at hagain
    have hblock : c.clock = .block := by
      cases hclock : c.clock with
      | block => rfl
      | slide => exact absurd hclock hagain.1
    obtain rfl := heq hblock (hcounts.total_eq ▸ hagain.2)
    exact hcounts.eq hwell.counts_ofBytes

/-- After a frame the window has been counted. -/
theorem DueCoherent.compose (h : c.DueCoherent) (hwell : c.WellFormed) :
    c.compose.2.Coherent := by
  refine ⟨c.window.data.toList, ?_, Tally.window c.window⟩
  change c.currentHistogram.Counts c.window.data.toList
  rw [h.currentHistogram_eq hwell]
  exact hwell.counts_ofBytes

theorem Coherent.settle (h : c.Coherent) (accepted : Bool) : (c.settle accepted).Coherent := by
  rw [Channel.settle]
  split_ifs <;> exact h

/-- The count can start over when nothing has been written. -/
theorem Coherent.conclude (h : c.Coherent) {operation : Operation}
    (hfill : ∀ chunk, operation = .ingest chunk → c.window.fill = 0) (accepted : Bool) :
    (c.conclude operation accepted).Coherent := by
  cases operation with
  | ingest chunk =>
    rw [Channel.conclude]
    split_ifs
    · exact ⟨[], Histogram.counts_empty, Tally.nil (hfill chunk rfl)⟩
    · exact h
  | _ => exact h

/-- There is one status before a frame, and it tells the entropy under the histogram in use. -/
theorem entropy_of_mem_notices {sequence processed : ℕ} {entropy : Float}
    (h : Notice.status sequence processed entropy ∈ c.compose.1.notices) :
    entropy = unitEntropy (shannonEntropyWith c.window.data c.currentHistogram) := by
  rw [Channel.compose] at h
  dsimp only at h
  rw [List.cons_append, List.mem_cons, List.mem_append, List.mem_map] at h
  rcases h with hstatus | hstream | ⟨found, -, hfound⟩
  · cases hstatus
    rfl
  · split_ifs at hstream
    · cases List.mem_singleton.mp hstream
    · cases hstream
  · cases hfound

/-! ### Whole runs -/

/-- After an intake that makes a frame due nothing is written yet of the next window. -/
theorem fill_absorb {chunk : List UInt8} (hdone : (c.absorb chunk).2.completed = true) :
    (c.absorb chunk).1.window.fill = 0 := by
  cases hclock : c.clock with
  | slide =>
    rw [Channel.absorb, hclock]
    rfl
  | block =>
    rw [Channel.absorb, hclock, Window.completed_ingest_block] at hdone
    rw [Channel.absorb, hclock]
    dsimp only
    rw [Window.fill_ingest_block, if_neg]
    rw [of_decide_eq_true hdone]
    exact Nat.lt_irrefl _

theorem Coherent.prepare (h : c.Coherent) (hwell : c.WellFormed) {operation : Operation}
    (hquiet : c.isDue operation = false) : (c.prepare operation).Coherent := by
  rcases change_prepare c operation with ⟨chunk, rfl⟩ | hchange
  · exact h.absorb hwell hquiet
  · exact h.change hchange

theorem Coherent.due_prepare (h : c.Coherent) (hwell : c.WellFormed) {operation : Operation}
    (hdue : c.isDue operation = true) : (c.prepare operation).DueCoherent := by
  rcases change_prepare c operation with ⟨chunk, rfl⟩ | hchange
  · exact h.due_absorb hwell hdue
  · exact (h.change hchange).due (hwell.change hchange)

end Channel

namespace Session

variable {σ : Type} [FrameSink σ] {sink : σ} {config : ChannelConfig} {s : Session σ}

/-- Every channel that can be reached is coherent. -/
theorem coherent_run (h : start sink config = .ok s) (operations : List Operation) :
    (s.run operations).channel.Coherent := by
  have hbuild := build_of_start h
  have hstart : s.channel.Coherent := by
    obtain ⟨layout, -, heq⟩ := Channel.build_eq_ok hbuild
    rw [heq]
    exact ⟨[], Histogram.counts_empty, Tally.nil rfl⟩
  refine (run_invariant (I := fun c => c.WellFormed ∧ c.Coherent)
    (D := fun operation c => (c.WellFormed ∧ c.DueCoherent) ∧
      ∀ chunk, operation = .ingest chunk → c.window.fill = 0) ?_ ?_ ?_ s
    ⟨Channel.wellFormed_build hbuild, hstart⟩ operations).2
  · exact fun c operation ⟨hwell, hc⟩ hquiet => ⟨hwell.prepare operation, hc.prepare hwell hquiet⟩
  · rintro c operation ⟨hwell, hc⟩ hdue
    refine ⟨⟨hwell.prepare operation, hc.due_prepare hwell hdue⟩, ?_⟩
    rintro chunk rfl
    exact Channel.fill_absorb hdue
  · rintro c operation accepted ⟨⟨hwell, hc⟩, hfill⟩
    refine ⟨(hwell.compose.settle accepted).conclude operation accepted, ?_⟩
    refine ((hc.compose hwell).settle accepted).conclude (fun chunk hchunk => ?_) accepted
    rw [Channel.settle]
    split_ifs <;> exact hfill chunk hchunk

theorem dueCoherent_of_presents (h : start sink config = .ok s) {operations : List Operation}
    {operation : Operation} {c : Channel} (hc : (s.run operations).Presents operation c) :
    c.DueCoherent := by
  obtain ⟨hdue, rfl⟩ := hc
  exact (coherent_run h operations).due_prepare (wellFormed_run h operations) hdue

/-- **Frames are made with the histogram of their window.** In every channel that can be reached,
whatever the receiver refuses, no bucket is near its limit, and a histogram that adds up to the
length of the window is that of the window. When a frame is made, the histogram that is used and
kept is that of the window, and the status sent before the frame tells the entropy of the
window. -/
theorem histogram_of_run (h : start sink config = .ok s) (operations : List Operation) :
    (∀ c, c = (s.run operations).channel →
      (∀ byte, c.histogram.count byte < bucketLimit) ∧
        (c.histogram.total = c.window.size →
          c.histogram = .ofBytes c.window.data ∧ c.histogram.Counts c.window.data.toList)) ∧
      ∀ operation c, (s.run operations).Presents operation c →
        (∀ byte, c.histogram.count byte < bucketLimit) ∧
        c.compose.2.histogram = .ofBytes c.window.data ∧
        c.compose.2.histogram.Counts c.window.data.toList ∧
        (∀ sequence processed entropy,
          Notice.status sequence processed entropy ∈ c.compose.1.notices →
            entropy = unitEntropy (shannonEntropy c.window.data)) ∧
        ((s.run operations).perform operation).2.2.sink =
          (FrameSink.flush (notifyAll (s.run operations).sink c.compose.1.notices)
            c.compose.1.raster).2 := by
  constructor
  · rintro c rfl
    have hwell := wellFormed_run h operations
    have hcoherent := coherent_run h operations
    refine ⟨hcoherent.count_lt hwell, fun htotal => ?_⟩
    have hcounts := hcoherent.counts_of_total hwell htotal
    exact ⟨hcounts.eq hwell.counts_ofBytes, hcounts⟩
  · intro operation c hc
    have hwell := wellFormed_of_presents h hc
    have hcoherent := dueCoherent_of_presents h hc
    have hhistogram : c.compose.2.histogram = .ofBytes c.window.data :=
      hcoherent.currentHistogram_eq hwell
    refine ⟨hcoherent.count_lt hwell, hhistogram, ?_, fun sequence processed entropy hmem => ?_,
      hc.sink_eq⟩
    · rw [hhistogram]
      exact hwell.counts_ofBytes
    · rw [Channel.entropy_of_mem_notices hmem, hcoherent.currentHistogram_eq hwell]
      rfl

/-- Three of four bytes, a frame made too early, another clock and a refused frame. -/
theorem histogram_of_run_refused : ∃ s c, start (Transcript.expecting [true, false])
    { side := 2, packing := .intensity } = .ok s ∧
      (s.run [.ingest [1, 2, 3], .forceStep, .apply (.clock .slide), .ingest [4],
        .apply (.clock .block), .ingest [5]]).Presents .forceStep c ∧
      c.compose.2.histogram = .ofBytes c.window.data := by
  have hstart : start (Transcript.expecting [true, false])
      { side := 2, packing := .intensity } = .ok _ := rfl
  exact ⟨_, _, hstart, ⟨rfl, rfl⟩, ((histogram_of_run hstart _).2 _ _ ⟨rfl, rfl⟩).2.1⟩

end Session

end Bytescope
