import Bytescope.Proofs.Session.Deliveries
import Bytescope.Proofs.Session.Resemblance
import Bytescope.Proofs.Session.Streaming

/-!
# Resized channels

A channel that has been resized goes on like a fresh one of that side, with the same modes, the
same patterns and the same number of bytes processed. Whatever it did before shows in nothing but
the numbers of its frames: each operation has the same answer, and the receiver is sent the same
pictures and told the same of them.

## Main definitions

* `AnswersAlike`: receivers that answer the same frames alike, though under other numbers.
* `Renumbered`: a receiver that is told other numbers.
* `Session.Mirrors`: sessions that go on alike.

## Main results

* `answersAlike_renumbered`: every receiver has one that answers alike.
* `Session.Mirrors.perform`, `Session.Mirrors.run`: an operation of such sessions, and a run.
* `Session.resized_eq_fresh`: resized sessions go on like fresh ones.
-/

namespace Bytescope

/-- The event as it is after so many earlier frames. -/
def SinkEvent.shift (earlier : ℕ) : SinkEvent → SinkEvent
  | .notice sent => .notice (sent.shift earlier)
  | .frame raster accepted => .frame raster accepted

theorem Frame.events_shift (frame : Frame) (earlier : ℕ) (accepted : Bool) :
    (frame.shift earlier).events accepted =
      (frame.events accepted).map (SinkEvent.shift earlier) := by
  rw [Frame.events, Frame.events, Frame.shift, List.map_append, List.map_map, List.map_map]
  rfl

/-- A frame that is refused is not among those that are accepted. -/
theorem Frame.not_mem_events_false (frame : Frame) (raster : Raster) :
    SinkEvent.frame raster true ∉ frame.events false := by
  simp [Frame.events]

section Receivers

variable {σ τ : Type} [FrameSink σ] [FrameSink τ] {earlier : ℕ} {a : σ} {b : τ}

/-- One receiver answers whatever frames it is sent as the other one does, which is sent them under
lower numbers. -/
def AnswersAlike (earlier : ℕ) (a : σ) (b : τ) : Prop :=
  ∀ (frames : List Frame) (frame : Frame),
    ((frame.shift earlier).send (sendAll a (frames.map (·.shift earlier)))).1 =
      (frame.send (sendAll b frames)).1

theorem AnswersAlike.send (h : AnswersAlike earlier a b) (frame : Frame) :
    ((frame.shift earlier).send a).1 = (frame.send b).1 ∧
      AnswersAlike earlier ((frame.shift earlier).send a).2 (frame.send b).2 :=
  ⟨h [] frame, fun frames next => h (frame :: frames) next⟩

/-- Transcripts answer alike if they will give the same answers. -/
theorem Transcript.answersAlike {a b : Transcript} (h : a.answers = b.answers) :
    AnswersAlike earlier a b := by
  intro frames frame
  induction frames generalizing a b with
  | nil =>
    change ((frame.shift earlier).send a).1 = (frame.send b).1
    rw [(a.send_eq _).1, (b.send_eq _).1, h]
  | cons next rest ih =>
    refine ih ?_
    rw [(a.send_eq _).2, (b.send_eq _).2, h]

/-- A receiver that is told the numbers of the frames as after so many earlier ones. -/
structure Renumbered (σ : Type) where
  /-- The receiver. -/
  receiver : σ
  /-- The frames that came earlier. -/
  earlier : ℕ

instance : FrameSink (Renumbered σ) where
  notify r notice := ⟨FrameSink.notify r.receiver (notice.shift r.earlier), r.earlier⟩
  flush r raster :=
    let (result, receiver) := FrameSink.flush r.receiver raster
    (result, ⟨receiver, r.earlier⟩)

theorem notifyAll_renumbered (a : σ) (earlier : ℕ) (notices : List Notice) :
    notifyAll (⟨a, earlier⟩ : Renumbered σ) notices =
      ⟨notifyAll a (notices.map (Notice.shift earlier)), earlier⟩ := by
  induction notices generalizing a with
  | nil => rfl
  | cons notice rest ih => exact ih (FrameSink.notify a (notice.shift earlier))

theorem send_renumbered (a : σ) (earlier : ℕ) (frame : Frame) :
    frame.send (⟨a, earlier⟩ : Renumbered σ) = (((frame.shift earlier).send a).1,
      ⟨((frame.shift earlier).send a).2, earlier⟩) := by
  rw [Frame.send, notifyAll_renumbered]
  rfl

/-- Every receiver has one that answers alike. -/
theorem answersAlike_renumbered (a : σ) (earlier : ℕ) :
    AnswersAlike earlier a (⟨a, earlier⟩ : Renumbered σ) := by
  intro frames frame
  induction frames generalizing a with
  | nil => exact (congrArg Prod.fst (send_renumbered a earlier frame)).symm
  | cons next rest ih =>
    have hnext := congrArg Prod.snd (send_renumbered a earlier next)
    change _ = (frame.send (sendAll (next.send (⟨a, earlier⟩ : Renumbered σ)).2 rest)).1
    rw [hnext]
    exact ih ((next.shift earlier).send a).2

end Receivers

namespace Session

variable {σ τ : Type} [FrameSink σ] [FrameSink τ] {earlier final : ℕ} {s : Session σ}
  {u : Session τ}

/-- Sessions that go on alike: their channels agree but for their past, and their receivers will
answer alike. -/
structure Mirrors (earlier final : ℕ) (s : Session σ) (u : Session τ) : Prop where
  channel : s.channel.Resembles earlier final u.channel
  sink : AnswersAlike earlier s.sink u.sink

/-- After these operations of a session the last frame that was accepted is one of them, or the
one that was remembered before. -/
def LastAccepted (u : Session τ) (operations : List Operation) (before after : ℕ) : Prop :=
  after = (u.run operations).channel.processedAtFrame ∨
    after = before ∧ (u.run operations).channel.processedAtFrame = u.channel.processedAtFrame ∧
      ∀ raster, .frame raster true ∉ u.events operations

theorem LastAccepted.cons {operation : Operation} {rest : List Operation} {before now after : ℕ}
    (hfirst : u.LastAccepted [operation] before now)
    (hrest : (u.perform operation).2.2.LastAccepted rest now after) :
    u.LastAccepted (operation :: rest) before after := by
  rcases hrest with hsame | ⟨rfl, hkept, hnone⟩
  · exact Or.inl hsame
  · rcases hfirst with hsame | ⟨rfl, hkept', hnone'⟩
    · exact Or.inl (hsame.trans hkept.symm)
    · refine Or.inr ⟨rfl, hkept.trans hkept', fun raster hmem => ?_⟩
      rw [← List.singleton_append, events_append, List.mem_append] at hmem
      rcases hmem with hmem | hmem
      · exact hnone' raster hmem
      · exact hnone raster hmem

/-- The frame of an operation is the last one that was accepted, or it was refused. -/
theorem lastAccepted_of_presents {operation : Operation} {c : Channel}
    (hc : u.Presents operation c) : u.LastAccepted [operation] final
      (if (c.compose.1.send u.sink).1.isOk then c.processed else final) := by
  obtain ⟨hdue, rfl⟩ := hc
  have hlast : (u.perform operation).2.2.channel.processedAtFrame =
      if ((u.channel.prepare operation).compose.1.send u.sink).1.isOk then
        (u.channel.prepare operation).processed
      else (u.channel.prepare operation).processedAtFrame := by
    rw [perform_of_due hdue]
    exact (Channel.counters_conclude _ operation _).2.2
  cases haccepted : ((u.channel.prepare operation).compose.1.send u.sink).1.isOk with
  | true =>
    rw [haccepted] at hlast
    exact Or.inl hlast.symm
  | false =>
    rw [haccepted] at hlast
    refine Or.inr ⟨rfl, hlast.trans (u.channel.frames_prepare operation).2, fun raster hmem => ?_⟩
    rw [Presents.events_eq ⟨hdue, rfl⟩, haccepted] at hmem
    exact Frame.not_mem_events_false _ raster hmem

namespace Mirrors

/-- An operation that makes no frame. -/
theorem perform_of_not_due (h : Mirrors earlier final s u) {operation : Operation}
    (hquiet : u.channel.isDue operation = false) :
    (s.perform operation).1 = (u.perform operation).1 ∧
      s.events [operation] = (u.events [operation]).map (SinkEvent.shift earlier) ∧
      Mirrors earlier final (s.perform operation).2.2 (u.perform operation).2.2 ∧
      u.LastAccepted [operation] final final := by
  have hquiet' := (h.channel.isDue_eq operation).trans hquiet
  refine ⟨?_, ?_, ?_, ?_⟩
  · have hresults := h.channel.attempt operation
    cases hc : s.channel.attempt operation <;> cases hd : u.channel.attempt operation <;>
      rw [hc, hd] at hresults
    case error.error e e' =>
      obtain rfl : e = e' := hresults
      rw [(perform_of_objection hc).1, (perform_of_objection hd).1]
    case ok.ok =>
      rw [fst_perform_of_not_due hc hquiet', fst_perform_of_not_due hd hquiet, h.channel.reply_eq]
    all_goals exact hresults.elim
  · rw [events_of_not_due hquiet, events_of_not_due hquiet']
    rfl
  · rw [Session.perform_of_not_due hquiet, Session.perform_of_not_due hquiet']
    exact ⟨h.channel.prepare operation, h.sink⟩
  · refine Or.inr ⟨rfl, ?_, fun raster hmem => ?_⟩
    · change (u.perform operation).2.2.channel.processedAtFrame = _
      rw [Session.perform_of_not_due hquiet]
      exact (u.channel.frames_prepare operation).2
    · rw [events_of_not_due hquiet] at hmem
      exact List.not_mem_nil hmem

/-- An operation that makes a frame. -/
theorem perform_of_due (h : Mirrors earlier final s u) {operation : Operation}
    (hdue : u.channel.isDue operation = true) :
    (s.perform operation).1 = (u.perform operation).1 ∧
      s.events [operation] = (u.events [operation]).map (SinkEvent.shift earlier) ∧
      ∃ next, Mirrors earlier next (s.perform operation).2.2 (u.perform operation).2.2 ∧
        u.LastAccepted [operation] final next := by
  have hc : s.Presents operation _ := ⟨(h.channel.isDue_eq operation).trans hdue, rfl⟩
  have hd : u.Presents operation _ := ⟨hdue, rfl⟩
  have hprepare := h.channel.prepare operation
  obtain ⟨hframe, hcompose⟩ := hprepare.compose
  obtain ⟨hanswer, hsink⟩ := h.sink.send (u.channel.prepare operation).compose.1
  rw [← hframe] at hanswer hsink
  refine ⟨?_, ?_, if ((u.channel.prepare operation).compose.1.send u.sink).1.isOk then
    (u.channel.prepare operation).processed else final, ?_, ?_⟩
  · rw [hc.fst_perform, hd.fst_perform, hanswer, h.channel.reply_eq]
  · rw [hc.events_eq, hd.events_eq, hanswer, hframe, Frame.events_shift]
  · rw [Session.perform_of_due hc.1, Session.perform_of_due hdue, present, present, step_eq,
      step_eq]
    dsimp only
    rw [hanswer]
    exact ⟨(hcompose.settle _).conclude operation _, hsink⟩
  · exact lastAccepted_of_presents hd

/-- An operation of sessions that go on alike. -/
theorem perform (h : Mirrors earlier final s u) (operation : Operation) :
    (s.perform operation).1 = (u.perform operation).1 ∧
      (s.perform operation).2.1 = (u.perform operation).2.1 ∧
      s.events [operation] = (u.events [operation]).map (SinkEvent.shift earlier) ∧
      ∃ next, Mirrors earlier next (s.perform operation).2.2 (u.perform operation).2.2 ∧
        u.LastAccepted [operation] final next := by
  have hreport : (s.perform operation).2.1 = (u.perform operation).2.1 := by
    rw [snd_perform, snd_perform, h.channel.report_eq]
  cases hdue : u.channel.isDue operation with
  | false =>
    obtain ⟨hanswer, hevents, hnext⟩ := h.perform_of_not_due hdue
    exact ⟨hanswer, hreport, hevents, final, hnext⟩
  | true =>
    obtain ⟨hanswer, hevents, hnext⟩ := h.perform_of_due hdue
    exact ⟨hanswer, hreport, hevents, hnext⟩

/-- **Runs of sessions that go on alike.** -/
theorem run (h : Mirrors earlier final s u) (operations : List Operation) :
    s.answers operations = u.answers operations ∧
      s.events operations = (u.events operations).map (SinkEvent.shift earlier) ∧
      ∃ last, Mirrors earlier last (s.run operations) (u.run operations) ∧
        u.LastAccepted operations final last := by
  induction operations generalizing s u final with
  | nil => exact ⟨rfl, rfl, final, h, Or.inr ⟨rfl, rfl, fun _ => List.not_mem_nil⟩⟩
  | cons operation rest ih =>
    obtain ⟨hanswer, hreport, hevents, now, hnow, hfirst⟩ := h.perform operation
    obtain ⟨hanswers, hlater, last, hlast, hrest⟩ := ih hnow
    refine ⟨?_, ?_, last, hlast, hfirst.cons hrest⟩
    · rw [answers, answers, hanswer, hreport, hanswers]
    · rw [← List.singleton_append, events_append, events_append, List.map_append, hevents]
      exact congrArg (_ ++ ·) hlater

end Mirrors

/-! ### Resizing -/

/-- The patterns of a channel can be registered again. -/
theorem run_entries (u : Session τ) (patterns : List Pattern) : ∃ set : PatternSet,
    set.patterns = u.channel.patterns.patterns ++ patterns ∧
      u.run ((patterns.map Pattern.entry).map PatternEntry.registration) =
        ⟨{ u.channel with patterns := set }, u.sink⟩ := by
  induction patterns using List.reverseRecOn with
  | nil => exact ⟨u.channel.patterns, (List.append_nil _).symm, rfl⟩
  | append_singleton patterns p ih =>
    obtain ⟨set, hset, hrun⟩ := ih
    refine ⟨set.register p, ?_, ?_⟩
    · rw [PatternSet.patterns_register, hset, List.append_assoc]
    · have hadd : Channel.addPattern { u.channel with patterns := set } p.entry.bytes.toArray
          p.entry.alpha p.entry.id p.entry.flags =
            .ok { u.channel with patterns := set.register p } := by
        rw [Channel.addPattern, Pattern.build_entry]
        rfl
      rw [List.map_append, List.map_append, List.map_singleton, List.map_singleton, run_concat,
        hrun, Session.perform_of_not_due rfl, PatternEntry.registration, Channel.prepare, hadd]
      rfl

omit [FrameSink σ] in
/-- A resized channel agrees with a fresh one that has been given its patterns and its number of
bytes processed. -/
theorem exists_fresh_of_resize {t : Session σ} {side : ℕ} {d : Channel}
    (h : t.channel.resize side = .ok d) (other : τ) :
    ∃ blank, start other ⟨side, t.channel.clock, t.channel.mapping, t.channel.packing,
        t.channel.opacity⟩ = .ok blank ∧
      let fresh := blank.run (t.channel.scene.patterns.map PatternEntry.registration ++
        [.setOffset t.channel.processed])
      d.Resembles t.channel.frames t.channel.processedAtFrame fresh.channel ∧
        fresh.sink = other := by
  obtain ⟨layout, hvalid, hside, hmapping, rfl⟩ := Channel.rebuild_eq_ok_iff.mp h
  have hbuild : Channel.build ⟨side, t.channel.clock, t.channel.mapping, t.channel.packing,
      t.channel.opacity⟩ = .ok _ :=
    Channel.build_eq_ok_iff.mpr ⟨layout, hvalid, hside, hmapping, rfl⟩
  refine ⟨⟨_, other⟩, by rw [start, hbuild]; rfl, ?_⟩
  intro fresh
  obtain ⟨set, hset, hrun⟩ := run_entries ⟨_, other⟩ t.channel.patterns.patterns
  have hfresh : fresh = _ := (run_append ..).trans (congrArg (Session.run · _) hrun)
  rw [hfresh]
  refine ⟨⟨t.channel.patterns, hset.symm, ?_⟩, rfl⟩
  change _ = { t.channel.renew layout t.channel.packing with
    side := side
    footprint := t.channel.packing.footprint t.channel.mapping
    frames := 0 + t.channel.frames }
  rw [Nat.zero_add, ← hside, ← hmapping]
  rfl

/-- **Resized channels.** Whatever a channel has done before, when it has been resized it goes on
like a fresh one of that side, with its clock, mapping, packing and opacity, that has been given
its patterns in order and its number of bytes processed. Whatever the operations are and whatever
the receiver answers to the frames, the answers and reports are the same, and so is all that is
sent, except that the frames made before are counted in the numbers. The channels keep agreeing
but for that, for what matches of the patterns when a scan is to start over, and for the last frame
that was accepted, until one is accepted. -/
theorem resized_eq_fresh (t : Session σ) {side : ℕ}
    (hresize : (t.perform (.resize side)).1 = .done) (other : τ)
    (halike : AnswersAlike t.channel.frames t.sink other) :
    let c := t.channel
    let resized := (t.perform (.resize side)).2.2
    ∃ blank, start other ⟨side, c.clock, c.mapping, c.packing, c.opacity⟩ = .ok blank ∧
      let fresh := blank.run (c.scene.patterns.map PatternEntry.registration ++
        [.setOffset c.processed])
      ∀ later, resized.answers later = fresh.answers later ∧
        resized.events later = (fresh.events later).map (SinkEvent.shift c.frames) ∧
        ∃ last, (resized.run later).channel.Resembles c.frames last (fresh.run later).channel ∧
          ∀ raster, .frame raster true ∈ fresh.events later →
            last = (fresh.run later).channel.processedAtFrame := by
  intro c resized
  cases hd : t.channel.resize side with
  | error e =>
    rw [Session.perform, hd] at hresize
    cases hresize
  | ok d =>
    have hresized : resized = ⟨d, t.sink⟩ := by
      change (t.perform (.resize side)).2.2 = _
      rw [Session.perform, hd]
      rfl
    obtain ⟨blank, hblank, hchannel, hsink⟩ := exists_fresh_of_resize hd other
    refine ⟨blank, hblank, ?_⟩
    intro fresh later
    have hmirrors : Mirrors c.frames c.processedAtFrame resized fresh := by
      rw [hresized]
      exact ⟨hchannel, hsink.symm ▸ halike⟩
    obtain ⟨hanswers, hevents, last, hlast, haccepted⟩ := hmirrors.run later
    refine ⟨hanswers, hevents, last, hlast.channel, fun raster hmem => ?_⟩
    rcases haccepted with hsame | ⟨-, -, hnone⟩
    · exact hsame
    · exact absurd hmem (hnone raster)

/-- A channel is resized after a frame that was refused, when the next window has been filled in
part. -/
theorem resized_eq_fresh_after_refusal : ∃ s, start (Transcript.expecting [false, true, false])
      { side := 2, opacity := .constant } = .ok s ∧
    ∃ t, t = s.run [.addPattern #[1, 2] 9 7 ⟨false, true⟩, .ingest [1, 2, 3, 4], .ingest [5]] ∧
      (t.perform (.resize 3)).1 = .done ∧
      let c := t.channel
      let resized := (t.perform (.resize 3)).2.2
      c.frames = 1 ∧ c.processed = 5 ∧ c.scene.patterns = [⟨7, [1, 2], 9, ⟨false, true⟩⟩] ∧
        ∃ blank, start (Transcript.expecting [true, false])
            ⟨3, c.clock, c.mapping, c.packing, c.opacity⟩ = .ok blank ∧
          let fresh := blank.run (c.scene.patterns.map PatternEntry.registration ++
            [.setOffset c.processed])
          ∀ later, resized.answers later = fresh.answers later ∧
            resized.events later = (fresh.events later).map (SinkEvent.shift c.frames) ∧
            ∃ last, (resized.run later).channel.Resembles c.frames last (fresh.run later).channel ∧
              ∀ raster, .frame raster true ∈ fresh.events later →
                last = (fresh.run later).channel.processedAtFrame := by
  have hstart : start (Transcript.expecting [false, true, false])
      { side := 2, opacity := .constant } = .ok _ := rfl
  refine ⟨_, hstart, _, rfl, rfl, rfl, rfl, rfl, ?_⟩
  refine resized_eq_fresh _ ?_ (Transcript.expecting [true, false]) (Transcript.answersAlike ?_)
  · rfl
  · rfl

end Session

end Bytescope
