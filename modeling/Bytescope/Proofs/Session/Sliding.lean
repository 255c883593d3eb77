import Bytescope.Proofs.Session.Answers
import Bytescope.Proofs.Session.Deliveries
import Bytescope.Proofs.Session.Streaming
import Mathlib.Data.List.DropRight

/-!
# Streams under the slide clock

Under the slide clock every intake makes a frame and moves the window on, so that the window
holds the bytes that came last. What an intake leaves of a chunk is offered again. In the end the
window holds what came last of all the bytes, whatever the chunks are and whichever frames the
receiver refuses.

## Main definitions

* `Session.feedThrough`, `Session.streamThrough`: feeds chunks until nothing is left of them,
  whatever the receiver answers.
* `Session.Recent`: a session whose window holds what came last.
* `Session.SlidesOver`: what an intake under the slide clock does.
* `Session.KeepsRecent`: what the window holds after an intake, after several, and after streams.

## Main results

* `Session.Recent.ingest`, `Session.Recent.feedThrough`, `Session.Recent.streamThrough`: what an
  intake, a chunk and a stream add.
* `Session.recent_bytes_of_slide`: an intake under the slide clock, and streams of them.
-/

namespace Bytescope

/-! ### What comes last -/

/-- What comes last of a list depends on what came last of its front. -/
theorem rtake_rtake_append {α : Type} (count : ℕ) (front back : List α) :
    (front.rtake count ++ back).rtake count = (front ++ back).rtake count := by
  have hfront : front.rtake count ++ back = (front ++ back).drop (front.length - count) :=
    (List.drop_append_of_le_length (Nat.sub_le _ _)).symm
  rw [hfront, List.rtake, List.rtake, List.drop_drop, List.length_drop, List.length_append]
  congr 1
  omega

namespace Window

theorem toList_eq_rtake (w : Window) : w.data.toList = w.data.toList.rtake w.size := by
  rw [List.rtake, Array.length_toList, size, Nat.sub_self, List.drop_zero]

/-- An intake under the slide clock keeps what came last. -/
theorem toList_ingest_slide_eq_rtake (w : Window) (chunk : List UInt8) :
    (w.ingest .slide chunk).1.data.toList =
      (w.data.toList ++ chunk.take w.size).rtake w.size := by
  have htaken : (chunk.take w.size).length ≤ w.data.toList.length := by
    rw [List.length_take, Array.length_toList]
    exact Nat.min_le_left _ _
  have hlength : (w.data.toList ++ chunk.take w.size).length - w.size =
      (chunk.take w.size).length := by
    rw [List.length_append, Array.length_toList]
    exact Nat.add_sub_cancel_left _ _
  rw [toList_ingest_slide, List.rtake, hlength, List.drop_append_of_le_length htaken]

end Window

namespace Channel

variable {c : Channel}

/-- Under the slide clock a frame is due after every intake. -/
theorem absorb_of_slide (h : c.clock = .slide) (chunk : List UInt8) :
    (c.absorb chunk).2 = ⟨chunk.take c.window.size, true⟩ ∧
      (c.absorb chunk).1.window = (c.window.ingest .slide chunk).1 := by
  rw [absorb, h]
  exact ⟨rfl, rfl⟩

/-- Neither making a frame nor the answer to it changes the clock or the window. -/
theorem window_conclude (c : Channel) (operation : Operation) (accepted : Bool) :
    let d := (c.compose.2.settle accepted).conclude operation accepted
    d.clock = c.clock ∧ d.window = c.window := by
  obtain ⟨histogram, hconclude⟩ := conclude_eq (c.compose.2.settle accepted) operation accepted
  intro d
  have hd : d = _ := hconclude
  rw [hd]
  cases accepted <;> exact ⟨rfl, rfl⟩

end Channel

section Sending

variable {σ : Type} [FrameSink σ] {sink : σ}

/-- A receiver that accepts everything still does after a frame. -/
theorem Accepting.send (h : Accepting sink) (frame : Frame) : Accepting (frame.send sink).2 :=
  fun frames next => h (frame :: frames) next

end Sending

namespace Session

variable {σ : Type} [FrameSink σ] {s : Session σ} {chunk : List UInt8}

/-! ### Feeding on after refusals -/

/-- Takes intake after intake from a chunk until nothing is left of it, whatever the receiver
answers. A chunk without bytes is taken in once. -/
def feedThrough (s : Session σ) (chunk : List UInt8) : Session σ :=
  if hdone : chunk.length ≤ (s.channel.absorb chunk).2.taken.length ∨
      (s.channel.absorb chunk).2.taken = [] then (s.perform (.ingest chunk)).2.2
  else
    have := length_sub_lt (fun hchunk : chunk = [] =>
        hdone (Or.inl ((congrArg List.length hchunk).trans_le (Nat.zero_le _))))
      (fun htaken => hdone (Or.inr htaken))
    (s.perform (.ingest chunk)).2.2.feedThrough
      (chunk.drop (s.channel.absorb chunk).2.taken.length)
termination_by chunk.length
decreasing_by rwa [List.length_drop]

/-- Feeds chunks one after the other, each until nothing is left of it. -/
def streamThrough (s : Session σ) (chunks : List (List UInt8)) : Session σ :=
  chunks.foldl feedThrough s

omit [FrameSink σ] in
/-- Under the slide clock an intake makes a frame. -/
theorem presents_ingest (h : s.channel.clock = .slide) (chunk : List UInt8) :
    s.Presents (.ingest chunk) (s.channel.absorb chunk).1 :=
  ⟨congrArg Intake.completed (Channel.absorb_of_slide h chunk).1, rfl⟩

/-- An intake that makes a frame moves the window on, whatever the receiver answers. -/
theorem window_perform_ingest (h : (s.channel.absorb chunk).2.completed = true) :
    let c := (s.perform (.ingest chunk)).2.2.channel
    c.clock = s.channel.clock ∧ c.window = (s.channel.absorb chunk).1.window := by
  have hdue : s.channel.isDue (.ingest chunk) = true := h
  rw [perform_of_due hdue]
  exact Channel.window_conclude (s.channel.prepare (.ingest chunk)) (.ingest chunk) _

/-- The session slides, and its window holds what came last of these bytes. -/
structure Recent (width : ℕ) (bytes : List UInt8) (s : Session σ) : Prop where
  clock_eq : s.channel.clock = .slide
  size_eq : s.channel.window.size = width
  toList_eq : s.channel.window.data.toList = bytes.rtake width

namespace Recent

variable {width : ℕ} {bytes : List UInt8}

omit [FrameSink σ] in
theorem taken_absorb (h : Recent width bytes s) (chunk : List UInt8) :
    (s.channel.absorb chunk).2.taken = chunk.take width := by
  rw [(Channel.absorb_of_slide h.clock_eq chunk).1, h.size_eq]

omit [FrameSink σ] in
/-- When nothing is left of a chunk, all of it has been taken. -/
theorem take_eq_of_done (hwidth : 0 < width) (h : Recent width bytes s)
    (hdone : chunk.length ≤ (s.channel.absorb chunk).2.taken.length ∨
      (s.channel.absorb chunk).2.taken = []) : chunk.take width = chunk := by
  rw [h.taken_absorb, List.take_eq_nil_iff, List.length_take, le_min_iff] at hdone
  rcases hdone with ⟨hlength, -⟩ | hzero | hnone
  · exact List.take_of_length_le hlength
  · exact absurd hzero (Nat.ne_of_gt hwidth)
  · rw [hnone, List.take_nil]

/-- An intake adds what it takes. -/
theorem ingest (h : Recent width bytes s) (chunk : List UInt8) :
    Recent width (bytes ++ chunk.take width) (s.perform (.ingest chunk)).2.2 := by
  obtain ⟨hintake, hwindow⟩ := Channel.absorb_of_slide h.clock_eq chunk
  obtain ⟨hclock, hkept⟩ := window_perform_ingest (congrArg Intake.completed hintake)
  rw [hwindow] at hkept
  refine ⟨hclock.trans h.clock_eq, ?_, ?_⟩
  · rw [hkept, Window.size_ingest, h.size_eq]
  · rw [hkept, Window.toList_ingest_slide_eq_rtake, h.size_eq, h.toList_eq, rtake_rtake_append]

/-- Intakes add what they take. -/
theorem run (h : Recent width bytes s) (chunks : List (List UInt8)) :
    Recent width (bytes ++ chunks.flatMap (·.take width)) (s.run (chunks.map .ingest)) := by
  induction chunks generalizing bytes s with
  | nil => rwa [List.flatMap_nil, List.append_nil]
  | cons chunk rest ih =>
    rw [List.flatMap_cons, ← List.append_assoc, List.map_cons, run_cons]
    exact ih (h.ingest chunk)

/-- A chunk adds all of its bytes. -/
theorem feedThrough (hwidth : 0 < width) (h : Recent width bytes s) (chunk : List UInt8) :
    Recent width (bytes ++ chunk) (s.feedThrough chunk) := by
  induction s, chunk using Session.feedThrough.induct generalizing bytes with
  | case1 s chunk hdone =>
    have hnext := h.ingest chunk
    rw [h.take_eq_of_done hwidth hdone] at hnext
    rwa [Session.feedThrough, dif_pos hdone]
  | case2 s chunk hdone hlt ih =>
    have hsplit :
        chunk.take width ++ chunk.drop (s.channel.absorb chunk).2.taken.length = chunk := by
      rw [h.taken_absorb]
      exact List.prefix_iff_eq_append.mp (List.take_prefix ..)
    have hnext := ih (h.ingest chunk)
    rw [List.append_assoc, hsplit] at hnext
    rwa [Session.feedThrough, dif_neg hdone]

/-- A stream adds all of its bytes, however it is cut. -/
theorem streamThrough (hwidth : 0 < width) (h : Recent width bytes s)
    (chunks : List (List UInt8)) :
    Recent width (bytes ++ chunks.flatten) (s.streamThrough chunks) := by
  induction chunks generalizing bytes s with
  | nil => rwa [List.flatten_nil, List.append_nil]
  | cons chunk rest ih =>
    rw [List.flatten_cons, ← List.append_assoc]
    exact ih (h.feedThrough hwidth chunk)

end Recent

/-! ### Receivers that accept everything -/

/-- An intake whose frame is accepted answers with what it took. -/
theorem ingest_of_slide (h : s.channel.clock = .slide) (haccept : Accepting s.sink)
    (chunk : List UInt8) : (s.ingest chunk).1 = .ok (s.channel.absorb chunk).2 ∧
      Accepting (s.perform (.ingest chunk)).2.2.sink := by
  have hpresents := presents_ingest h chunk
  have hsent : ((s.channel.absorb chunk).1.compose.1.send s.sink).1 = .ok () := haccept [] _
  refine ⟨?_, ?_⟩
  · rw [fst_ingest_of_due hpresents.1, hsent]
    rfl
  · rw [hpresents.sink_eq]
    exact haccept.send _

/-- If the receiver accepts everything, then nothing is left of a chunk that is fed. -/
theorem Recent.feed_eq_feedThrough {width : ℕ} {bytes : List UInt8} (hwidth : 0 < width)
    (h : Recent width bytes s) (haccept : Accepting s.sink) (hchunk : chunk ≠ []) :
    (s.feed chunk).2 = s.feedThrough chunk ∧ Accepting (s.feedThrough chunk).sink := by
  induction s, chunk using Session.feedThrough.induct generalizing bytes with
  | case1 s chunk hdone =>
    obtain ⟨hok, haccept⟩ := ingest_of_slide h.clock_eq haccept chunk
    have htaken : (s.channel.absorb chunk).2.taken = chunk :=
      (h.taken_absorb chunk).trans (h.take_eq_of_done hwidth hdone)
    rw [Session.feedThrough, dif_pos hdone, feed_of_ingest hchunk hok (htaken.symm ▸ hchunk),
      htaken, List.drop_length, feed_nil]
    exact ⟨rfl, haccept⟩
  | case2 s chunk hdone hlt ih =>
    obtain ⟨hok, haccept⟩ := ingest_of_slide h.clock_eq haccept chunk
    have hleft : chunk.drop (s.channel.absorb chunk).2.taken.length ≠ [] := fun hnone =>
      hdone (Or.inl (List.drop_eq_nil_iff.mp hnone))
    rw [Session.feedThrough, dif_neg hdone,
      feed_of_ingest hchunk hok fun htaken => hdone (Or.inr htaken)]
    exact ih (h.ingest chunk) haccept hleft

/-- So a stream adds all of its bytes. -/
theorem Recent.stream {width : ℕ} {bytes : List UInt8} (hwidth : 0 < width)
    (h : Recent width bytes s) (haccept : Accepting s.sink) (chunks : List (List UInt8)) :
    Recent width (bytes ++ chunks.flatten) (s.stream chunks) := by
  induction chunks generalizing bytes s with
  | nil => rwa [List.flatten_nil, List.append_nil]
  | cons chunk rest ih =>
    rw [List.flatten_cons, ← List.append_assoc]
    by_cases hchunk : chunk = []
    · have hsame : s.stream (chunk :: rest) = s.stream rest := by
        rw [hchunk, Session.stream, List.foldl_cons, feed_nil]
        rfl
      rw [hsame, hchunk, List.append_nil]
      exact ih h haccept
    · obtain ⟨hfeed, haccept⟩ := h.feed_eq_feedThrough hwidth haccept hchunk
      have hnext := h.feedThrough hwidth chunk
      rw [← hfeed] at hnext haccept
      exact ih hnext haccept

/-! ### Channels that can be reached -/

variable {sink : σ} {config : ChannelConfig}

/-- An intake that takes as much of a chunk as the window is long and makes one frame, whose status
tells the entropy of the new window. It answers with what it took, unless the receiver refuses the
frame. Nothing is written yet of the next window, and the window holds what comes last of its old
bytes and those taken. -/
structure SlidesOver (t : Session σ) (chunk : List UInt8) : Prop where
  delivery : ∃ d : Delivery, t.events [.ingest chunk] = d.events ∧
    d.entropy =
      unitEntropy (shannonEntropy (t.perform (.ingest chunk)).2.2.channel.window.data) ∧
    if d.accepted then
      (t.perform (.ingest chunk)).1 =
        .took ⟨chunk.take (min chunk.length t.channel.window.size), true⟩
    else ∃ e, (t.perform (.ingest chunk)).1 = .refused e
  processed_eq : (t.perform (.ingest chunk)).2.2.channel.processed =
    min (t.channel.processed + min chunk.length t.channel.window.size) counterLimit
  fill_eq : (t.perform (.ingest chunk)).2.2.channel.window.fill = 0
  toList_eq : (t.perform (.ingest chunk)).2.2.channel.window.data.toList =
    (t.channel.window.data.toList ++
      chunk.take (min chunk.length t.channel.window.size)).rtake t.channel.window.size

/-- The window holds what comes last: after one intake, after several, after chunks that were fed
until nothing was left of them, and after chunks that were fed to a receiver that accepts
everything. -/
structure KeepsRecent (t : Session σ) : Prop where
  ingest : ∀ chunk, t.SlidesOver chunk
  run : ∀ chunks : List (List UInt8),
    (t.run (chunks.map .ingest)).channel.window.data.toList =
      (t.channel.window.data.toList ++
        chunks.flatMap (·.take t.channel.window.size)).rtake t.channel.window.size
  streamThrough : ∀ chunks, (t.streamThrough chunks).channel.window.data.toList =
    (t.channel.window.data.toList ++ chunks.flatten).rtake t.channel.window.size
  stream : Accepting t.sink → ∀ chunks, (t.stream chunks).channel.window.data.toList =
    (t.channel.window.data.toList ++ chunks.flatten).rtake t.channel.window.size

/-- An intake of a channel that can be reached. -/
theorem slidesOver_of_run (h : start sink config = .ok s) (operations : List Operation)
    (hslide : (s.run operations).channel.clock = .slide) (chunk : List UInt8) :
    (s.run operations).SlidesOver chunk := by
  have hrecent : Recent (s.run operations).channel.window.size _ (s.run operations) :=
    ⟨hslide, rfl, (s.run operations).channel.window.toList_eq_rtake⟩
  have hcount : chunk.take (s.run operations).channel.window.size =
      chunk.take (min chunk.length (s.run operations).channel.window.size) := by
    rw [List.take_eq_take_min, Nat.min_comm]
  have hc := presents_ingest hslide chunk
  obtain ⟨hintake, -⟩ := Channel.absorb_of_slide hslide chunk
  obtain ⟨-, hkept⟩ := window_perform_ingest hc.1
  refine ⟨⟨_, events_of_presents h hc, ?_, ?_⟩, ?_, ?_, ?_⟩
  · rw [hkept]
    rfl
  · rw [hc.fst_perform, Channel.reply, hintake, ← hcount]
    cases ((Channel.compose _).1.send (s.run operations).sink).1 with
    | ok => exact (if_pos rfl).mpr rfl
    | error e => exact ⟨e, rfl⟩
  · rw [processed_perform]
    change min (_ + ((s.run operations).channel.absorb chunk).2.taken.length) _ = _
    rw [hrecent.taken_absorb, hcount, List.length_take_of_le (Nat.min_le_left _ _)]
  · rw [hkept, Channel.fill_absorb hc.1]
  · rw [← hcount]
    exact (hrecent.ingest chunk).toList_eq

/-- **The slide clock keeps the most recent bytes.** Let a channel that can be reached have the
slide clock. Whatever the chunk is, an intake takes as much of it as the window is long, and makes
one frame. The window holds what comes last of its old bytes and those taken, also after several
intakes. So when chunks are fed until nothing is left of them, whatever the receiver answers, the
window holds what comes last of its old bytes and the whole stream, however it was cut. If the
receiver accepts everything, it is enough to feed them. -/
theorem recent_bytes_of_slide (h : start sink config = .ok s) (operations : List Operation)
    (t : Session σ) (ht : t = s.run operations) (hslide : t.channel.clock = .slide) :
    t.KeepsRecent := by
  subst ht
  have hwidth : 0 < (s.run operations).channel.window.size :=
    (wellFormed_run h operations).size_pos
  have hrecent : Recent (s.run operations).channel.window.size _ (s.run operations) :=
    ⟨hslide, rfl, (s.run operations).channel.window.toList_eq_rtake⟩
  exact
    { ingest := slidesOver_of_run h operations hslide
      run := fun chunks => (hrecent.run chunks).toList_eq
      streamThrough := fun chunks => (hrecent.streamThrough hwidth chunks).toList_eq
      stream := fun haccept chunks => (hrecent.stream hwidth haccept chunks).toList_eq }

/-- A refused frame, a chunk longer than the window and one without bytes, after a window that
was filled in part under the block clock. -/
theorem recent_bytes_of_slide_refused :
    ∃ s, start (Transcript.expecting [false, true, false]) { side := 2 } = .ok s ∧
      ∃ t, t = s.run [.ingest [9], .apply (.clock .slide)] ∧ t.channel.clock = .slide ∧
        (t.perform (.ingest [1, 2])).2.2.channel.window.data.toList = [0, 0, 1, 2] ∧
        (t.streamThrough [[1, 2], [3, 4, 5, 6, 7, 8], [], [9]]).channel.window.data.toList =
          [6, 7, 8, 9] := by
  have hstart : start (Transcript.expecting [false, true, false]) { side := 2 } = .ok _ := rfl
  have hrecent := recent_bytes_of_slide hstart [.ingest [9], .apply (.clock .slide)] _ rfl rfl
  exact ⟨_, hstart, _, rfl, rfl, (hrecent.ingest [1, 2]).toList_eq, hrecent.streamThrough _⟩

end Session

end Bytescope
