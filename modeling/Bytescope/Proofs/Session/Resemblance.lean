import Bytescope.Proofs.Frame.Composition
import Bytescope.Proofs.Session.Answers

/-!
# Channels that differ in their past

Two channels can agree in all that their next frames depend on and still have different pasts: one
has made more frames, remembers another frame as the last one that was accepted, and has its
patterns partly matched, which the next scan starts over. Whatever such channels are asked to do,
they do the same, the frames of one bearing higher numbers, and they still resemble each other
afterwards.

## Main definitions

* `Frame.shift`: a frame under a higher number.
* `Channel.Resembles`: a channel that agrees with another one but for its past.

## Main results

* `Channel.Resembles.attempt`, `Channel.Resembles.reply`, `Channel.Resembles.compose`,
  `Channel.Resembles.settle`: what resembling channels do in each phase of an operation.
-/

namespace Bytescope

/-! ### Frames under higher numbers -/

/-- The notice of a frame that comes after so many earlier ones. -/
def Notice.shift (earlier : ℕ) : Notice → Notice
  | .status sequence processed entropy => .status (sequence + earlier) processed entropy
  | notice => notice

/-- The frame that comes after so many earlier ones. -/
def Frame.shift (frame : Frame) (earlier : ℕ) : Frame :=
  ⟨frame.notices.map (Notice.shift earlier), frame.raster⟩

/-! ### Patterns are started over -/

namespace PatternSet

variable {s t : PatternSet}

/-- A scan depends on the patterns and not on what matches of them. -/
theorem scan_congr (h : s.patterns = t.patterns) (window : Array UInt8) (footprint : ℕ)
    (alpha : Array UInt8) : s.scan window footprint alpha = t.scan window footprint alpha := by
  have hstart (u : PatternSet) : u.trackers.map Hunt.start =
      u.patterns.map fun p => ⟨Tracker.start p, 0⟩ := by
    rw [patterns, List.map_map]
    rfl
  rw [scan, scan, hstart, hstart, h]

theorem isEmpty_congr (h : s.patterns = t.patterns) : s.isEmpty = t.isEmpty := by
  have hlists := congrArg List.isEmpty h
  rwa [patterns, patterns, List.isEmpty_map, List.isEmpty_map] at hlists

theorem patterns_register (s : PatternSet) (p : Pattern) :
    (s.register p).patterns = s.patterns ++ [p] := by
  rw [patterns, register, List.map_append]
  rfl

end PatternSet

/-- So do the opacities of a frame and what is counted. -/
theorem Opacity.generate_congr {s t : PatternSet} (h : s.patterns = t.patterns) (mode : Opacity)
    (alpha window : Array UInt8) (footprint block : ℕ) :
    (mode.generate alpha window footprint block s).alpha =
        (mode.generate alpha window footprint block t).alpha ∧
      (mode.generate alpha window footprint block s).counts =
        (mode.generate alpha window footprint block t).counts := by
  cases mode with
  | constant => exact ⟨rfl, rfl⟩
  | entropy => exact ⟨rfl, rfl⟩
  | pattern =>
    rw [generate, generate, PatternSet.isEmpty_congr h, PatternSet.scan_congr h]
    split_ifs <;> exact ⟨rfl, rfl⟩

namespace Channel

/-- The channel as it would be after so many earlier frames, when it remembers this number of
bytes as that of the last frame that was accepted, and patterns of which other bytes match. -/
def aged (d : Channel) (earlier final : ℕ) (patterns : PatternSet) : Channel :=
  { d with
    frames := d.frames + earlier
    processedAtFrame := final
    patterns := patterns }

/-- A channel agrees with another one but for its past. -/
def Resembles (earlier final : ℕ) (c d : Channel) : Prop :=
  ∃ patterns : PatternSet, patterns.patterns = d.patterns.patterns ∧
    c = d.aged earlier final patterns

section Changes

variable (d : Channel) (earlier final : ℕ) (patterns : PatternSet)

theorem rebuild_aged (side : ℕ) (mapping : Mapping) (packing : Packing) :
    (d.aged earlier final patterns).rebuild side mapping packing =
      (d.rebuild side mapping packing).map (·.aged earlier final patterns) := by
  rw [rebuild, rebuild]
  cases Buffers.allocate side mapping packing <;> rfl

theorem switchPacking_aged (packing : Packing) :
    (d.aged earlier final patterns).switchPacking packing =
      (d.switchPacking packing).map (·.aged earlier final patterns) := by
  by_cases hsize : d.window.size = d.side * d.side * packing.footprint d.mapping
  · have hsize' : (d.aged earlier final patterns).window.size =
        (d.aged earlier final patterns).side * (d.aged earlier final patterns).side *
          packing.footprint (d.aged earlier final patterns).mapping := hsize
    rw [switchPacking, if_pos hsize', switchPacking, if_pos hsize]
    rfl
  · have hsize' : ¬ (d.aged earlier final patterns).window.size =
        (d.aged earlier final patterns).side * (d.aged earlier final patterns).side *
          packing.footprint (d.aged earlier final patterns).mapping := hsize
    rw [switchPacking, if_neg hsize', switchPacking, if_neg hsize]
    exact d.rebuild_aged earlier final patterns _ _ _

theorem switchLayout_aged (mapping : Mapping) :
    (d.aged earlier final patterns).switchLayout mapping =
      (d.switchLayout mapping).map (·.aged earlier final patterns) := by
  by_cases hfoot : d.packing.footprint mapping = d.footprint
  · have hfoot' : (d.aged earlier final patterns).packing.footprint mapping =
        (d.aged earlier final patterns).footprint := hfoot
    rw [switchLayout_of_footprint_eq hfoot', switchLayout_of_footprint_eq hfoot]
    change (Layout.build mapping d.side).map _ = _
    cases Layout.build mapping d.side <;> rfl
  · have hfoot' : (d.aged earlier final patterns).packing.footprint mapping ≠
        (d.aged earlier final patterns).footprint := hfoot
    rw [switchLayout_of_footprint_ne hfoot', switchLayout_of_footprint_ne hfoot]
    exact d.rebuild_aged earlier final patterns _ _ _

end Changes

/-- Results that agree: the same objection, or channels that resemble each other. -/
def ResembleResults (earlier final : ℕ) : Except Error Channel → Except Error Channel → Prop
  | .ok c, .ok d => Resembles earlier final c d
  | .error e, .error e' => e = e'
  | _, _ => False

variable {earlier final : ℕ} {c d : Channel}

/-- A change that does not look at the past keeps channels alike. -/
theorem ResembleResults.of_map {patterns : PatternSet} {result result' : Except Error Channel}
    (h : result = result'.map (·.aged earlier final patterns))
    (hpatterns : ∀ e, result' = .ok e → patterns.patterns = e.patterns.patterns) :
    ResembleResults earlier final result result' := by
  subst h
  cases result' with
  | error e => rfl
  | ok e => exact ⟨patterns, hpatterns e rfl, rfl⟩

theorem patterns_of_rebuild {side : ℕ} {mapping : Mapping} {packing : Packing}
    (h : c.rebuild side mapping packing = .ok d) : d.patterns = c.patterns := by
  obtain ⟨layout, -, -, -, rfl⟩ := rebuild_eq_ok_iff.mp h
  rfl

/-! ### Changes -/

namespace Resembles

theorem rebuild (h : Resembles earlier final c d) (side : ℕ) (mapping : Mapping)
    (packing : Packing) : ResembleResults earlier final (c.rebuild side mapping packing)
      (d.rebuild side mapping packing) := by
  obtain ⟨patterns, hpatterns, rfl⟩ := h
  refine .of_map (d.rebuild_aged _ _ _ _ _ _) fun e he => ?_
  rw [hpatterns, patterns_of_rebuild he]

theorem attemptCommand (h : Resembles earlier final c d) (command : Command) :
    ResembleResults earlier final (c.attemptCommand command) (d.attemptCommand command) := by
  obtain ⟨patterns, hpatterns, rfl⟩ := h
  cases command with
  | clock mode => exact ⟨patterns, hpatterns, rfl⟩
  | opacity mode => exact ⟨patterns, hpatterns, rfl⟩
  | packing mode =>
    refine .of_map (d.switchPacking_aged _ _ _ _) fun e he => ?_
    rcases switchPacking_eq_ok he with ⟨-, rfl⟩ | ⟨-, hrebuild⟩
    · exact hpatterns
    · rw [hpatterns, patterns_of_rebuild hrebuild]
  | mapping mode =>
    refine .of_map (d.switchLayout_aged _ _ _ _) fun e he => ?_
    rcases switchLayout_eq_ok he with ⟨layout, -, -, rfl⟩ | ⟨-, hrebuild⟩
    · exact hpatterns
    · rw [hpatterns, patterns_of_rebuild hrebuild]

theorem addPattern (h : Resembles earlier final c d) (bytes : Array UInt8) (alpha : UInt8)
    (id : ℕ) (flags : PatternFlags) : ResembleResults earlier final
      (c.addPattern bytes alpha id flags) (d.addPattern bytes alpha id flags) := by
  obtain ⟨patterns, hpatterns, rfl⟩ := h
  rw [Channel.addPattern, Channel.addPattern]
  cases Pattern.build bytes alpha id flags with
  | error e => rfl
  | ok p =>
    refine ⟨patterns.register p, ?_, rfl⟩
    change _ = (d.patterns.register p).patterns
    rw [PatternSet.patterns_register, PatternSet.patterns_register, hpatterns]

/-- The same entries of a text are registered, and the other ones refused for the same reasons. -/
theorem addPatterns (h : Resembles earlier final c d) (text : String) :
    Resembles earlier final (c.addPatterns text).channel (d.addPatterns text).channel ∧
      (c.addPatterns text).added = (d.addPatterns text).added ∧
      (c.addPatterns text).rejected = (d.addPatterns text).rejected := by
  rw [Channel.addPatterns, Channel.addPatterns]
  generalize 0 = added, ([] : List Error) = rejected
  induction Specification.read text generalizing c d added rejected with
  | nil => exact ⟨h, rfl, rfl⟩
  | cons entry rest ih =>
    rw [List.foldl_cons, List.foldl_cons, register, register]
    cases entry with
    | error e => exact ih h added (rejected ++ [e])
    | ok entry =>
      have hresults := h.addPattern entry.bytes.toArray entry.alpha entry.id entry.flags
      dsimp only [bind, Except.bind]
      generalize c.addPattern entry.bytes.toArray entry.alpha entry.id entry.flags = result,
        d.addPattern entry.bytes.toArray entry.alpha entry.id entry.flags = result' at hresults
      cases result <;> cases result'
      case ok.ok next next' => exact ih hresults (added + 1) rejected
      case error.error e e' =>
        obtain rfl : e = e' := hresults
        exact ih h added (rejected ++ [e])
      all_goals exact hresults.elim

/-- Resembling channels are changed alike, or object for the same reason. -/
theorem attempt (h : Resembles earlier final c d) (operation : Operation) :
    ResembleResults earlier final (c.attempt operation) (d.attempt operation) := by
  cases operation with
  | ingest chunk =>
    obtain ⟨patterns, hpatterns, rfl⟩ := h
    exact ⟨patterns, hpatterns, rfl⟩
  | resize side =>
    obtain ⟨patterns, hpatterns, rfl⟩ := h
    exact rebuild ⟨patterns, hpatterns, rfl⟩ side d.mapping d.packing
  | apply command => exact h.attemptCommand command
  | consume selector =>
    rw [Channel.attempt, Channel.attempt]
    cases Command.ofSelector selector with
    | error e => rfl
    | ok command => exact h.attemptCommand command
  | addPattern bytes alpha id flags => exact h.addPattern bytes alpha id flags
  | addPatterns text => exact (h.addPatterns text).1
  | setOffset offset =>
    obtain ⟨patterns, hpatterns, rfl⟩ := h
    exact ⟨patterns, hpatterns, rfl⟩
  | forceStep => exact h

theorem orKeep (h : Resembles earlier final c d) {result result' : Except Error Channel}
    (hresults : ResembleResults earlier final result result') :
    Resembles earlier final (c.orKeep result) (d.orKeep result') := by
  cases result <;> cases result'
  case ok.ok => exact hresults
  case error.error => exact h
  all_goals exact hresults.elim

/-- So they are alike when a frame is due. -/
theorem prepare (h : Resembles earlier final c d) (operation : Operation) :
    Resembles earlier final (c.prepare operation) (d.prepare operation) := by
  rw [prepare_eq, prepare_eq]
  exact h.orKeep (h.attempt operation)

/-! ### What is due and what is answered -/

theorem isDueCommand_eq (h : Resembles earlier final c d) (command : Command) :
    c.isDueCommand command = d.isDueCommand command := by
  obtain ⟨patterns, -, rfl⟩ := h
  cases command with
  | mapping mode =>
    rw [isDueCommand, isDueCommand, switchLayout_aged]
    cases d.switchLayout mode <;> rfl
  | _ => rfl

theorem isDue_eq (h : Resembles earlier final c d) (operation : Operation) :
    c.isDue operation = d.isDue operation := by
  cases operation with
  | ingest chunk =>
    obtain ⟨patterns, -, rfl⟩ := h
    rfl
  | apply command => exact h.isDueCommand_eq command
  | consume selector =>
    rw [isDue, isDue]
    cases Command.ofSelector selector with
    | error e => rfl
    | ok command => exact h.isDueCommand_eq command
  | _ => rfl

theorem reply_eq (h : Resembles earlier final c d) (operation : Operation) :
    c.reply operation = d.reply operation := by
  cases operation with
  | ingest chunk =>
    obtain ⟨patterns, -, rfl⟩ := h
    rfl
  | addPatterns text => exact congrArg Answer.registered (h.addPatterns text).2.1
  | _ => rfl

theorem report_eq (h : Resembles earlier final c d) (operation : Operation) :
    c.report operation = d.report operation := by
  cases operation with
  | addPatterns text => exact congrArg (List.map LogLine.ofRejectedPattern) (h.addPatterns text).2.2
  | _ => rfl

/-! ### Frames -/

/-- Resembling channels make the same frame under different numbers. -/
theorem compose (h : Resembles earlier final c d) :
    c.compose.1 = d.compose.1.shift earlier ∧
      Resembles earlier final c.compose.2 d.compose.2 := by
  obtain ⟨patterns, hpatterns, rfl⟩ := h
  obtain ⟨halpha, hcounts⟩ := Opacity.generate_congr hpatterns d.opacity d.alpha d.window.data
    d.footprint d.side
  have hcompose : (d.aged earlier final patterns).compose =
      let outcome := d.opacity.generate d.alpha d.window.data d.footprint d.side patterns
      let raster := render d.layout d.packing d.footprint (greys d.packing d.currentHistogram)
        d.window.data outcome.alpha d.raster
      (⟨.status (d.frames + earlier + 1) d.processed
            (unitEntropy (shannonEntropyWith d.window.data d.currentHistogram)) ::
          (if d.unannounced then [.stream (streamCode d.packing d.mapping d.footprint)] else []) ++
          outcome.counts.map .matched, raster⟩,
        { d.compose.2 with
          frames := d.frames + earlier + 1
          processedAtFrame := final
          patterns := outcome.patterns
          alpha := outcome.alpha
          raster := raster }) := rfl
  dsimp only at hcompose
  rw [halpha, hcounts, Nat.add_right_comm] at hcompose
  rw [hcompose]
  constructor
  · have hnotices : d.compose.1.notices.map (Notice.shift earlier) =
        (Notice.status (d.frames + 1 + earlier) d.processed
            (unitEntropy (shannonEntropyWith d.window.data d.currentHistogram)) ::
          (if d.unannounced then [.stream (streamCode d.packing d.mapping d.footprint)] else []) ++
          (d.opacity.generate d.alpha d.window.data d.footprint d.side d.patterns).counts.map
            .matched) := by
      rw [Channel.compose]
      dsimp only
      rw [List.cons_append, List.map_cons, List.map_append, List.map_map]
      split_ifs <;> rfl
    exact congrArg₂ Frame.mk hnotices.symm rfl
  · refine ⟨_, ?_, rfl⟩
    rw [Opacity.patterns_generate, hpatterns]
    exact (Opacity.patterns_generate ..).symm

/-- An accepted frame is the last one that both remember. -/
theorem settle (h : Resembles earlier final c d) (accepted : Bool) :
    Resembles earlier (if accepted then d.processed else final) (c.settle accepted)
      (d.settle accepted) := by
  obtain ⟨patterns, hpatterns, rfl⟩ := h
  cases accepted <;> exact ⟨patterns, hpatterns, rfl⟩

theorem conclude (h : Resembles earlier final c d) (operation : Operation) (accepted : Bool) :
    Resembles earlier final (c.conclude operation accepted) (d.conclude operation accepted) := by
  obtain ⟨patterns, hpatterns, rfl⟩ := h
  cases operation with
  | ingest chunk =>
    change Resembles earlier final
      (if accepted ∧ d.clock = .block then (d.aged earlier final patterns).restartCount
        else d.aged earlier final patterns)
      (if accepted ∧ d.clock = .block then d.restartCount else d)
    split_ifs <;> exact ⟨patterns, hpatterns, rfl⟩
  | _ => exact ⟨patterns, hpatterns, rfl⟩

end Resembles

end Channel

end Bytescope
