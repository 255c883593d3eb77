import Bytescope.Proofs.Session.Deliveries
import Bytescope.Proofs.Session.Resemblance

/-!
# Frames that are sent again

A frame that the receiver refuses is not lost. The channel keeps the window and has already drawn
the picture, brought the opacities and the patterns to the end of the window, and counted the
bytes. Making a frame once more does all of this again and comes to the same, whatever the modes
are and whatever the picture was drawn over. So the picture can be sent again under the next
number, and the code is not announced twice.

## Main results

* `Channel.WellFormed.compose_compose`: a second frame of a window changes nothing but the count
  of frames.
* `Session.retry_of_refused`: what is sent after a refusal, and what the channel is by then.
-/

namespace Bytescope

/-! ### Reading the window again -/

namespace PatternSet

/-- After a scan each pattern has read the window from its beginning. -/
theorem trackers_scan (s : PatternSet) (window : Array UInt8) (footprint : ℕ)
    (alpha : Array UInt8) : (s.scan window footprint alpha).patterns.trackers =
      s.patterns.map fun p => (Tracker.start p).readAll window.toList := by
  change (readFrom (max footprint 1) 0 (s.trackers.map Hunt.start) ⟨alpha, opaqueAlpha⟩
    window.toList).1.map Hunt.tracker = _
  rw [fst_readFrom_start, List.map_map, patterns, List.map_map]
  exact List.map_congr_left fun t _ => Hunt.tracker_seeAll (Hunt.start t) window.toList

/-- What matches of the patterns at the end of a window depends on nothing else. -/
theorem patterns_scan_congr {s t : PatternSet} (h : s.patterns = t.patterns)
    (window : Array UInt8) (footprint footprint' : ℕ) (alpha alpha' : Array UInt8) :
    (s.scan window footprint alpha).patterns = (t.scan window footprint' alpha').patterns := by
  have htrackers : (s.scan window footprint alpha).patterns.trackers =
      (t.scan window footprint' alpha').patterns.trackers := by
    rw [trackers_scan, trackers_scan, h]
  exact congrArg PatternSet.mk htrackers

end PatternSet

/-- Patterns that have read a window are left as they are when they read it again. -/
theorem Opacity.patterns_generate_generate (mode : Opacity) (alpha alpha' window : Array UInt8)
    (footprint block : ℕ) (patterns : PatternSet) :
    let read := (mode.generate alpha window footprint block patterns).patterns
    (mode.generate alpha' window footprint block read).patterns = read := by
  intro read
  cases mode with
  | constant => rfl
  | entropy => rfl
  | pattern =>
    have hread : read.patterns = patterns.patterns := patterns_generate ..
    rw [generate, PatternSet.isEmpty_congr hread]
    by_cases hnone : patterns.isEmpty = true
    · rw [if_pos hnone]
    · rw [if_neg hnone,
        PatternSet.patterns_scan_congr hread window footprint footprint alpha' alpha]
      exact (congrArg PatternSet.Outcome.patterns (if_neg hnone)).symm

namespace Channel

variable {c : Channel}

/-! ### Making the frame again -/

/-- A refusal leaves the channel waiting. -/
theorem conclude_false (c : Channel) (operation : Operation) :
    (c.settle false).conclude operation false = c := by
  cases operation <;> rfl

/-- After a frame the channel is coherent with its window. -/
theorem DueCoherent.due_compose (h : c.DueCoherent) (hwell : c.WellFormed) :
    c.compose.2.DueCoherent :=
  (h.compose hwell).due hwell.compose

/-- Drawn over itself a picture stays as it is. -/
theorem WellFormed.raster_compose_compose (h : c.WellFormed) (hcoherent : c.DueCoherent) :
    c.compose.2.compose.1.raster = c.compose.1.raster := by
  have hside : c.compose.2.compose.1.raster.side = c.side := h.compose.compose.side_raster
  refine Raster.ext_pixel? (hside.trans h.compose.side_raster.symm) fun q hq => ?_
  have hgrid : q.OnGrid c.side := hside ▸ hq
  have hkept : c.compose.2.raster.pixel? q = (c.scene.top? q).or (c.raster.pixel? q) :=
    h.pixel?_compose hcoherent hgrid
  rw [h.compose.pixel?_compose (hcoherent.due_compose h) hgrid, scene_compose, hkept,
    h.pixel?_compose hcoherent hgrid]
  cases c.scene.top? q <;> rfl

/-- **A second frame of a window.** It changes nothing but the count of frames. -/
theorem WellFormed.compose_compose (h : c.WellFormed) (hcoherent : c.DueCoherent) :
    c.compose.2.compose.2 = { c.compose.2 with frames := c.compose.2.frames + 1 } := by
  have hhistogram : c.compose.2.currentHistogram = c.compose.2.histogram := by
    rw [(hcoherent.due_compose h).currentHistogram_eq h.compose]
    exact (hcoherent.currentHistogram_eq h).symm
  have halpha : c.compose.2.compose.2.alpha = c.compose.2.alpha := by
    rw [h.compose.alpha_compose, scene_compose, h.alpha_compose]
  have hpatterns : c.compose.2.compose.2.patterns = c.compose.2.patterns :=
    Opacity.patterns_generate_generate ..
  have hraster : c.compose.2.compose.2.raster = c.compose.2.raster :=
    h.raster_compose_compose hcoherent
  calc c.compose.2.compose.2
      = { c.compose.2 with
          histogram := c.compose.2.currentHistogram
          frames := c.compose.2.frames + 1
          unannounced := false
          alpha := c.compose.2.compose.2.alpha
          patterns := c.compose.2.compose.2.patterns
          raster := c.compose.2.compose.2.raster } := rfl
    _ = { c.compose.2 with frames := c.compose.2.frames + 1 } := by
        rw [hhistogram, halpha, hpatterns, hraster]
        rfl

/-- A second frame of a window is delivered as the first one, under the next number and without
its code. -/
theorem WellFormed.delivery_compose (h : c.WellFormed) (hcoherent : c.DueCoherent)
    (first second : Bool) : c.compose.2.delivery second =
      { c.delivery first with
        number := c.frames + 2
        code? := none
        accepted := second } := by
  rw [delivery, h.raster_compose_compose hcoherent, scene_compose]
  rfl

end Channel

namespace Session

variable {σ : Type} [FrameSink σ] {s : Session σ} {sink : σ} {config : ChannelConfig}

/-- An operation is refused by the receiver unless the channel objects to it. -/
theorem exists_presents_of_refused {operation : Operation} {e : Error}
    (hwell : s.channel.WellFormed) (hrefused : (s.perform operation).1 = .refused e)
    (hreceiver : e.IsRefusedFrame ∨ ¬ s.channel.Forbids operation) :
    ∃ c, s.Presents operation c ∧ (c.compose.1.send s.sink).1 = .error e := by
  cases hattempt : s.channel.attempt operation with
  | ok c => exact ⟨c, presents_of_refused hattempt hrefused⟩
  | error fault =>
    obtain rfl : fault = e :=
      Answer.refused.inj ((perform_of_objection hattempt).1.symm.trans hrefused)
    rcases hreceiver with he | hallowed
    · exact absurd he (Channel.not_isRefusedFrame_of_attempt hattempt)
    · obtain ⟨c, hc⟩ := hwell.exists_attempt_iff.mpr hallowed
      cases hattempt.symm.trans hc

/-- After a refusal the channel has made its frame and nothing else. -/
theorem channel_of_refused {operation : Operation} {c : Channel} {e : Error}
    (hc : s.Presents operation c) (he : (c.compose.1.send s.sink).1 = .error e) :
    (s.perform operation).2.2.channel = c.compose.2 := by
  obtain ⟨hdue, rfl⟩ := hc
  rw [perform_of_due hdue, present, step_eq, he]
  exact Channel.conclude_false ..

omit [FrameSink σ] in
theorem eq_ok_of_ofResult {result : Except Error Unit}
    (h : Answer.ofResult (fun _ => .done) result = .done) : result = .ok () := by
  cases result with
  | ok => rfl
  | error e => cases h

/-- What is sent, and what becomes of the channel, when the frame it has made is asked for. -/
theorem forceStep_of_compose {c : Channel} (hwell : c.WellFormed) (hcoherent : c.DueCoherent)
    (hchannel : s.channel = c.compose.2) {result : Except Error Unit}
    (hresult : (s.channel.compose.1.send s.sink).1 = result) :
    s.events [.forceStep] =
        { c.delivery false with
          number := c.frames + 2
          code? := none
          accepted := result.isOk }.events ∧
      (s.perform .forceStep).2.2.channel =
        { s.channel with frames := s.channel.frames + 1 }.settle result.isOk := by
  have hpresents : s.Presents .forceStep s.channel := ⟨rfl, rfl⟩
  constructor
  · rw [hpresents.events_eq, hresult, hchannel,
      hwell.compose.events_compose (hcoherent.due_compose hwell),
      hwell.delivery_compose hcoherent false]
  · rw [perform_of_due rfl, present_of_ne_ingest _ (by intro; exact Operation.noConfusion),
      step_eq]
    change (s.channel.compose.2.settle (s.channel.compose.1.send s.sink).1.isOk) = _
    rw [hresult, hchannel, hwell.compose_compose hcoherent]

/-- **Refused frames can be sent again.** Whatever came before, let an operation be refused
because the receiver refuses its frame. If a frame is asked for then, and accepted, the receiver
is sent the same picture again, with the same number of bytes processed, the same entropy and the
same counts, under the next number and without a code. The channel then has counted the frame and
the bytes processed by it, and a mapping that leaves cells uncovered has an empty picture to
start from; nothing else is changed since the refusal. If the frame is refused again, then nothing
is changed but the count of frames. -/
theorem retry_of_refused (h : start sink config = .ok s) (operations : List Operation)
    {operation : Operation} {e : Error} (t : Session σ) (ht : t = s.run operations)
    (hrefused : (t.perform operation).1 = .refused e)
    (hreceiver : e.IsRefusedFrame ∨ ¬ t.channel.Forbids operation) :
    let r := (t.perform operation).2.2
    let u := (r.perform .forceStep).2.2
    ∃ d : Delivery, d.accepted = false ∧ d.raster = r.channel.raster ∧
      t.events [operation] = d.events ∧
      ((r.perform .forceStep).1 = .done →
        r.events [.forceStep] =
            { d with number := d.number + 1, code? := none, accepted := true }.events ∧
          u.channel = { r.channel with
            frames := r.channel.frames + 1
            processedAtFrame := r.channel.processed
            raster := if r.channel.mapping.isSparse then r.channel.raster.clear Pixel.background
              else r.channel.raster }) ∧
      ∀ again, (r.perform .forceStep).1 = .refused again →
        r.events [.forceStep] =
            { d with number := d.number + 1, code? := none, accepted := false }.events ∧
          u.channel = { r.channel with frames := r.channel.frames + 1 } := by
  intro r u
  subst ht
  obtain ⟨c, hpresents, he⟩ :=
    exists_presents_of_refused (wellFormed_run h operations) hrefused hreceiver
  have hwell := wellFormed_of_presents h hpresents
  have hcoherent := dueCoherent_of_presents h hpresents
  have hchannel : r.channel = c.compose.2 := channel_of_refused hpresents he
  refine ⟨c.delivery false, rfl, (congrArg Channel.raster hchannel).symm, ?_, fun hdone => ?_,
    fun again hagain => ?_⟩
  · rw [events_of_presents h hpresents, he]
    rfl
  · exact forceStep_of_compose hwell hcoherent hchannel (eq_ok_of_ofResult hdone)
  · exact forceStep_of_compose hwell hcoherent hchannel
      (eq_error_of_ofResult (fun _ => Answer.noConfusion) hagain)

/-- Samples that bring their own cells are refused, and refused again over the picture of the
refused frame, and then accepted. -/
theorem retry_of_refused_tuple :
    ∃ s, start (Transcript.expecting [false, false])
        { side := 2, mapping := .tuple, opacity := .constant } = .ok s ∧
      ∃ t, t = s.run [.ingest [7, 0, 1, 9, 1, 1, 8, 0, 1, 6, 5, 5], .ingest [3, 0, 1]] ∧
        (t.perform .forceStep).1 = .refused Transcript.refusal ∧
        let r := (t.perform .forceStep).2.2
        (r.perform .forceStep).1 = .done ∧
          ∃ d : Delivery, d.accepted = false ∧ t.events [.forceStep] = d.events ∧
            r.events [.forceStep] =
              { d with number := d.number + 1, code? := none, accepted := true }.events ∧
            (r.perform .forceStep).2.2.channel = { r.channel with
              frames := r.channel.frames + 1
              processedAtFrame := r.channel.processed
              raster := if r.channel.mapping.isSparse then r.channel.raster.clear Pixel.background
                else r.channel.raster } := by
  have hstart : start (Transcript.expecting [false, false])
      { side := 2, mapping := .tuple, opacity := .constant } = .ok _ := rfl
  refine ⟨_, hstart, _, rfl, rfl, ?_⟩
  intro r
  have haccepted : (r.perform .forceStep).1 = .done := by
    have hanswers : r.sink.answers = [] := by
      rw [answers_perform]
      rfl
    change Answer.ofResult (fun _ => .done) (r.channel.compose.1.send r.sink).1 = .done
    rw [(r.sink.send_eq _).1, hanswers]
    rfl
  obtain ⟨d, hanswer, -, hevents, hsent, -⟩ := retry_of_refused hstart
    [.ingest [7, 0, 1, 9, 1, 1, 8, 0, 1, 6, 5, 5], .ingest [3, 0, 1]] _ rfl
    (show (perform _ .forceStep).1 = .refused Transcript.refusal from rfl) (Or.inl ⟨_, rfl⟩)
  obtain ⟨hagain, hchannel⟩ := hsent haccepted
  exact ⟨haccepted, d, hanswer, hevents, hagain, hchannel⟩

end Session

end Bytescope
