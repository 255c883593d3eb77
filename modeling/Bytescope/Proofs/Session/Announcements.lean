import Bytescope.Proofs.Session.Events
import Bytescope.Proofs.Session.Refusals

/-!
# Announcements

A receiver reads frames by the last code it was told. An operation that gives the channel another
style, by another side, packing or mapping, leaves a debt: the next frame is announced by its
code, and paying the debt does not wait for the answer of the receiver. So the receiver knows the
code of every frame by the time the frame comes, and is told a code no more often than needed.

## Main definitions

* `codes`: the codes that a receiver was told.
* `Channel.Restyles`: the operations that give a channel another style.
* `Session.HasNewStyle`: no frame was made in the style in which a run ends.

## Main results

* `Session.unannounced_run_iff`: the debt is open exactly while the style is new.
* `Session.knows_run`: unless the debt is open, the receiver knows the code.
* `Session.announced_of_run`: the code of every frame is known, and is told once.
-/

namespace Bytescope

/-- The codes among events, in order. -/
def codes (events : List SinkEvent) : List (List UInt8) :=
  events.filterMap fun
    | .notice (.stream code) => some code
    | _ => none

@[simp]
theorem codes_append (earlier later : List SinkEvent) :
    codes (earlier ++ later) = codes earlier ++ codes later :=
  List.filterMap_append

/-- The commands that choose a style. -/
def Command.Styles : Command → Prop
  | .mapping _ | .packing _ => True
  | .clock _ | .opacity _ => False

/-- The operations that choose a style. -/
def Operation.Styles : Operation → Prop
  | .resize _ => True
  | .apply command => command.Styles
  | .consume selector => ∃ command : Command, command.selector = selector ∧ command.Styles
  | _ => False

namespace Channel

variable {c d : Channel} {events : List SinkEvent} {operation : Operation}

/-- The channel takes the style that an operation chooses. -/
def Restyles (c : Channel) (operation : Operation) : Prop :=
  operation.Styles ∧ ∃ d, c.attempt operation = .ok d

/-- The code of the frames that a channel makes. -/
def code (c : Channel) : List UInt8 := streamCode c.packing c.mapping c.footprint

/-! ### The debt -/

theorem unannounced_of_rebuild {side : ℕ} {mapping : Mapping} {packing : Packing}
    (h : c.rebuild side mapping packing = .ok d) : d.unannounced = true := by
  obtain ⟨layout, -, -, -, rfl⟩ := rebuild_eq_ok_iff.mp h
  rfl

theorem unannounced_of_attemptCommand {command : Command} (hstyles : command.Styles)
    (h : c.attemptCommand command = .ok d) : d.unannounced = true := by
  cases command with
  | clock mode => exact hstyles.elim
  | opacity mode => exact hstyles.elim
  | packing mode =>
    rcases switchPacking_eq_ok h with ⟨-, rfl⟩ | ⟨-, hrebuild⟩
    · rfl
    · exact unannounced_of_rebuild hrebuild
  | mapping mode =>
    rcases switchLayout_eq_ok h with ⟨layout, -, -, rfl⟩ | ⟨-, hrebuild⟩
    · rfl
    · exact unannounced_of_rebuild hrebuild

/-- Another style is announced. -/
theorem Restyles.unannounced_prepare (h : c.Restyles operation) :
    (c.prepare operation).unannounced = true := by
  obtain ⟨hstyles, d, hd⟩ := h
  rw [prepare_eq, hd]
  change d.unannounced = true
  cases operation with
  | resize side => exact unannounced_of_rebuild hd
  | apply command => exact unannounced_of_attemptCommand hstyles hd
  | consume selector =>
    obtain ⟨command, rfl, hcommand⟩ := hstyles
    rw [attempt, Command.ofSelector_selector] at hd
    exact unannounced_of_attemptCommand hcommand hd
  | _ => exact hstyles.elim

/-- Two channels make frames in the same style and have announced the same. -/
def SameStyle (c d : Channel) : Prop :=
  d.unannounced = c.unannounced ∧ d.code = c.code

theorem sameStyle_of_attemptCommand {command : Command} (hstyles : ¬ command.Styles)
    (h : c.attemptCommand command = .ok d) : c.SameStyle d := by
  cases command with
  | packing mode => exact absurd trivial hstyles
  | mapping mode => exact absurd trivial hstyles
  | _ =>
    obtain rfl := Except.ok.inj h
    exact ⟨rfl, rfl⟩

/-- Without another style nothing becomes of the debt. -/
theorem sameStyle_prepare (h : ¬ c.Restyles operation) : c.SameStyle (c.prepare operation) := by
  rw [prepare_eq]
  cases hattempt : c.attempt operation with
  | error e => exact ⟨rfl, rfl⟩
  | ok d =>
    have hstyles : ¬ operation.Styles := fun hstyles => h ⟨hstyles, d, hattempt⟩
    change c.SameStyle d
    cases operation with
    | resize side => exact absurd trivial hstyles
    | apply command => exact sameStyle_of_attemptCommand hstyles hattempt
    | consume selector =>
      cases hcommand : Command.ofSelector selector with
      | error e =>
        rw [attempt, hcommand] at hattempt
        cases hattempt
      | ok command =>
        rw [attempt, hcommand] at hattempt
        refine sameStyle_of_attemptCommand (fun hstyle => hstyles ⟨command, ?_, hstyle⟩) hattempt
        exact Command.ofSelector_eq_ok_iff.mp hcommand
    | addPattern bytes alpha id flags =>
      obtain ⟨s, rfl⟩ := addPattern_eq_ok hattempt
      exact ⟨rfl, rfl⟩
    | addPatterns text =>
      obtain ⟨s, hs⟩ := channel_addPatterns c text
      obtain rfl := Except.ok.inj hattempt
      rw [hs]
      exact ⟨rfl, rfl⟩
    | _ =>
      obtain rfl := Except.ok.inj hattempt
      exact ⟨rfl, rfl⟩

theorem unannounced_prepare_iff : (c.prepare operation).unannounced = true ↔
    c.unannounced = true ∨ c.Restyles operation := by
  by_cases hrestyles : c.Restyles operation
  · simp [hrestyles, hrestyles.unannounced_prepare]
  · simp [hrestyles, (sameStyle_prepare hrestyles).1]

/-- The frame is announced if the debt is open. -/
theorem codes_notices_compose (c : Channel) : codes (c.compose.1.notices.map .notice) =
    if c.unannounced then [c.code] else [] := by
  have hmatched (counts : List MatchCount) :
      codes ((counts.map Notice.matched).map .notice) = [] := by
    simp [codes, List.filterMap_map, Function.comp_def]
  rw [compose]
  dsimp only
  rw [List.cons_append, List.map_cons, List.map_append, ← List.singleton_append, codes_append,
    codes_append, hmatched]
  split_ifs <;> rfl

/-- Making a frame settles the debt, whatever the answer. -/
theorem sameStyle_conclude (c : Channel) (operation : Operation) (accepted : Bool) :
    ({ c with unannounced := false } : Channel).SameStyle
      ((c.compose.2.settle accepted).conclude operation accepted) := by
  have hsettle : ({ c with unannounced := false } : Channel).SameStyle
      (c.compose.2.settle accepted) := by
    cases accepted <;> exact ⟨rfl, rfl⟩
  cases operation with
  | ingest chunk =>
    rw [conclude]
    split_ifs
    · exact hsettle
    · exact hsettle
  | _ => exact hsettle

/-! ### What the receiver knows -/

/-- Unless the debt is open, the last code that the receiver was told is that of the channel. -/
def KnownFrom (c : Channel) (events : List SinkEvent) : Prop :=
  c.unannounced = false → (codes events).getLast? = some c.code

theorem KnownFrom.prepare (h : c.KnownFrom events) (operation : Operation) :
    (c.prepare operation).KnownFrom events := by
  intro hpaid
  by_cases hrestyles : c.Restyles operation
  · rw [hrestyles.unannounced_prepare] at hpaid
    cases hpaid
  · obtain ⟨hdebt, hcode⟩ := sameStyle_prepare hrestyles
    rw [hcode]
    exact h (hdebt.symm.trans hpaid)

/-- When the frame comes its code is the last one that the receiver was told. -/
theorem KnownFrom.getLast?_codes (h : c.KnownFrom events) :
    (codes (events ++ c.compose.1.notices.map .notice)).getLast? = some c.code := by
  rw [codes_append, codes_notices_compose]
  split_ifs with hdebt
  · exact List.getLast?_concat
  · rw [List.append_nil]
    exact h (Bool.eq_false_iff.mpr hdebt)

end Channel

namespace Session

variable {σ : Type} [FrameSink σ] {s : Session σ}

theorem knows_run {sink : σ} {config : ChannelConfig} (h : start sink config = .ok s)
    (operations : List Operation) :
    (s.run operations).channel.KnownFrom (s.events operations) := by
  induction operations using List.reverseRecOn with
  | nil =>
    intro hpaid
    obtain ⟨layout, -, hfresh⟩ := Channel.build_eq_ok (build_of_start h)
    change s.channel.unannounced = false at hpaid
    rw [hfresh] at hpaid
    cases hpaid
  | append_singleton operations operation ih =>
    rw [run_concat, events_append]
    cases hdue : (s.run operations).channel.isDue operation with
    | false =>
      rw [perform_of_not_due hdue, events_of_not_due hdue, List.append_nil]
      exact ih.prepare operation
    | true =>
      -- The frame comes right after the notices, and a picture is no code.
      intro _
      rw [perform_of_due hdue, Presents.events_eq ⟨hdue, rfl⟩, Frame.events, ← List.append_assoc,
        codes_append]
      refine (congrArg List.getLast? (List.append_nil _)).trans ?_
      rw [(ih.prepare operation).getLast?_codes]
      exact congrArg some (Channel.sameStyle_conclude _ operation _).2.symm

/-- The style in which a run ends is new to the receiver: no frame was made at all, or none since
an operation of the run that gave the channel another style. -/
def HasNewStyle (s : Session σ) (operations : List Operation) : Prop :=
  s.events operations = [] ∨
    ∃ earlier operation later, operations = earlier ++ operation :: later ∧
      (s.run earlier).channel.Restyles operation ∧
      (s.run earlier).events (operation :: later) = []

/-- A style is new as long as no frame is made. -/
theorem hasNewStyle_concat_iff {operations : List Operation} {operation : Operation} :
    s.HasNewStyle (operations ++ [operation]) ↔ (s.run operations).events [operation] = [] ∧
      (s.HasNewStyle operations ∨ (s.run operations).channel.Restyles operation) := by
  constructor
  · -- The last operation is the one that chose the style, or it came after that one.
    rintro (hquiet | ⟨earlier, op, later, hsplit, hrestyles, hquiet⟩)
    · rw [events_append, List.append_eq_nil_iff] at hquiet
      exact ⟨hquiet.2, Or.inl (Or.inl hquiet.1)⟩
    · rcases List.eq_nil_or_concat later with rfl | ⟨rest, last, rfl⟩
      · obtain ⟨rfl, hlast⟩ := List.append_inj' hsplit rfl
        obtain rfl := List.singleton_inj.mp hlast
        exact ⟨hquiet, Or.inr hrestyles⟩
      · rw [List.concat_eq_append, ← List.cons_append] at hsplit hquiet
        rw [← List.append_assoc] at hsplit
        obtain ⟨rfl, hlast⟩ := List.append_inj' hsplit rfl
        obtain rfl := List.singleton_inj.mp hlast
        rw [events_append, List.append_eq_nil_iff] at hquiet
        rw [run_append]
        exact ⟨hquiet.2, Or.inl (Or.inr ⟨earlier, op, rest, rfl, hrestyles, hquiet.1⟩)⟩
  · rintro ⟨hlast, (hquiet | ⟨earlier, op, later, rfl, hrestyles, hquiet⟩) | hrestyles⟩
    · left
      rw [events_append, hquiet, hlast]
      rfl
    · refine Or.inr ⟨earlier, op, later ++ [operation], by simp, hrestyles, ?_⟩
      rw [← List.cons_append, events_append, hquiet, ← run_append, hlast]
      rfl
    · exact Or.inr ⟨operations, operation, [], rfl, hrestyles, hlast⟩

/-- The debt is open exactly while the style is new. -/
theorem unannounced_run_iff {sink : σ} {config : ChannelConfig} (h : start sink config = .ok s)
    (operations : List Operation) :
    (s.run operations).channel.unannounced = true ↔ s.HasNewStyle operations := by
  induction operations using List.reverseRecOn with
  | nil =>
    obtain ⟨layout, -, hfresh⟩ := Channel.build_eq_ok (build_of_start h)
    change s.channel.unannounced = true ↔ _
    rw [hfresh]
    exact iff_of_true rfl (Or.inl rfl)
  | append_singleton operations operation ih =>
    rw [run_concat, hasNewStyle_concat_iff, events_eq_nil_iff, ← ih]
    cases hdue : (s.run operations).channel.isDue operation with
    | false =>
      rw [perform_of_not_due hdue, Channel.unannounced_prepare_iff]
      simp
    | true =>
      rw [perform_of_due hdue]
      refine iff_of_false ?_ (by simp)
      rw [Bool.not_eq_true]
      exact (Channel.sameStyle_conclude _ operation _).1

/-- **Announcements.** Whatever operations are carried out and whichever frames the receiver
refuses, at every frame the last code that the receiver was told is that of the packing, the
mapping and the length of the samples from which the picture was made. And an operation that
makes a frame tells the receiver this code if no frame was made in the style before, because the
operation itself or one since the last frame chose the style or because there was no frame at
all, and tells it no code otherwise. An operation that makes no frame tells it nothing. -/
theorem announced_of_run {sink : σ} {config : ChannelConfig} (h : start sink config = .ok s)
    (operations : List Operation) :
    (∀ before raster accepted after,
      s.events operations = before ++ .frame raster accepted :: after →
        ∃ earlier operation later c, operations = earlier ++ operation :: later ∧
          (s.run earlier).Presents operation c ∧ raster = c.compose.1.raster ∧
          before = s.events earlier ++ c.compose.1.notices.map .notice ∧
          (codes before).getLast? = some (streamCode c.packing c.mapping c.footprint)) ∧
      ∀ operation, (∀ c, (s.run operations).Presents operation c →
          let isNew := (s.run operations).channel.Restyles operation ∨ s.HasNewStyle operations
          (isNew ∧ codes ((s.run operations).events [operation]) =
              [streamCode c.packing c.mapping c.footprint]) ∨
            (¬ isNew ∧ codes ((s.run operations).events [operation]) = [])) ∧
        ((∀ c, ¬ (s.run operations).Presents operation c) →
          (s.run operations).events [operation] = []) := by
  refine ⟨fun before raster accepted after hevents => ?_, fun operation => ⟨fun c hpresents => ?_,
    fun hquiet => ?_⟩⟩
  · obtain ⟨earlier, operation, later, c, hsplit, hpresents, hraster, -, rfl⟩ :=
      exists_presents_of_events hevents
    refine ⟨earlier, operation, later, c, hsplit, hpresents, hraster, rfl, ?_⟩
    obtain ⟨-, rfl⟩ := hpresents
    exact ((knows_run h earlier).prepare operation).getLast?_codes
  · intro isNew
    have hcodes : codes ((s.run operations).events [operation]) =
        if c.unannounced then [c.code] else [] := by
      rw [hpresents.events_eq, Frame.events, codes_append, Channel.codes_notices_compose]
      exact List.append_nil _
    have hdebt : c.unannounced = true ↔ isNew := by
      obtain ⟨-, rfl⟩ := hpresents
      rw [Channel.unannounced_prepare_iff, unannounced_run_iff h, or_comm]
    rw [hcodes, ← hdebt]
    split_ifs with hopen
    · exact Or.inl ⟨hopen, rfl⟩
    · exact Or.inr ⟨hopen, rfl⟩
  · rw [events_eq_nil_iff, ← Bool.not_eq_true]
    exact fun hdue => hquiet _ ⟨hdue, rfl⟩

/-- After a refused frame the packing and then the clock are switched. -/
theorem announced_of_run_repacked :
    ∃ s, start (Transcript.expecting [false]) { side := 2 } = .ok s ∧
      let t := s.run [.forceStep, .apply (.packing .histogramIntensity), .apply (.clock .slide)]
      codes (t.events [.forceStep]) = [streamCode .histogramIntensity .raster 1] := by
  have hstart : start (Transcript.expecting [false]) { side := 2 } = .ok _ := rfl
  refine ⟨_, hstart, ?_⟩
  obtain ⟨-, hsent⟩ := announced_of_run hstart
    [.forceStep, .apply (.packing .histogramIntensity), .apply (.clock .slide)]
  obtain ⟨hnew, hcodes⟩ | ⟨hold, -⟩ := (hsent .forceStep).1 _ ⟨rfl, rfl⟩
  · exact hcodes
  · exact absurd (Or.inr (Or.inr ⟨[.forceStep], _, _, rfl, ⟨trivial, _, rfl⟩, rfl⟩)) hold

end Session

end Bytescope
