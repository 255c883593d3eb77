import Bytescope.Channel.Session
import Bytescope.Proofs.Channel.Change
import Mathlib.Data.List.Induction

/-!
# The phases of an operation

An operation first changes the channel. Then it either ends, or makes a frame of the channel as
it is by then, sends it and takes note of the answer. Which frames a run makes, and what of an
invariant is to be shown for whole runs, is said here in terms of these phases.

## Main definitions

* `Channel.prepare`, `Channel.isDue`: what an operation makes of the channel before any frame,
  and whether it makes a frame.
* `Channel.conclude`: what is left to do after the frame.
* `Session.Presents`: an operation makes a frame of a channel.

## Main results

* `Session.perform_eq`: every operation consists of these phases, the frame being that of
  `Session.step`.
* `Session.run_invariant`: what every phase preserves holds after every run.
-/

namespace Bytescope

namespace Channel

/-- The changed channel, or the channel as it was if the change was refused. -/
def orKeep (c : Channel) : Except Error Channel → Channel
  | .ok d => d
  | .error _ => c

/-- What a command makes of a channel before any frame. -/
def prepareCommand (c : Channel) : Command → Channel
  | .clock mode => c.switchClock mode
  | .mapping mode => c.orKeep (c.switchLayout mode)
  | .packing mode => c.orKeep (c.switchPacking mode)
  | .opacity mode => c.switchOpacity mode

/-- What an operation makes of a channel before any frame. -/
def prepare (c : Channel) : Operation → Channel
  | .ingest chunk => (c.absorb chunk).1
  | .resize side => c.orKeep (c.resize side)
  | .apply command => c.prepareCommand command
  | .consume selector =>
    match Command.ofSelector selector with
    | .ok command => c.prepareCommand command
    | .error _ => c
  | .addPattern bytes alpha id flags => c.orKeep (c.addPattern bytes alpha id flags)
  | .addPatterns text => (c.addPatterns text).channel
  | .setOffset offset => c.setOffset offset
  | .forceStep => c

/-- Whether a command makes a frame: a mapping that is not refused is shown at once. -/
def isDueCommand (c : Channel) : Command → Bool
  | .mapping mode => (c.switchLayout mode).isOk
  | _ => false

/-- Whether an operation makes a frame. -/
def isDue (c : Channel) : Operation → Bool
  | .ingest chunk => (c.absorb chunk).2.completed
  | .apply command => c.isDueCommand command
  | .consume selector =>
    match Command.ofSelector selector with
    | .ok command => c.isDueCommand command
    | .error _ => false
  | .forceStep => true
  | _ => false

/-- What an operation does after its frame: an intake under the block clock starts the count
over, unless the frame was refused. -/
def conclude (c : Channel) (operation : Operation) (accepted : Bool) : Channel :=
  match operation with
  | .ingest _ => if accepted ∧ c.clock = .block then c.restartCount else c
  | _ => c

theorem conclude_of_ne_ingest {c : Channel} {operation : Operation}
    (h : ∀ chunk, operation ≠ .ingest chunk) (accepted : Bool) :
    c.conclude operation accepted = c := by
  cases operation with
  | ingest chunk => exact absurd rfl (h chunk)
  | _ => rfl

theorem change_orKeep {c : Channel} {result : Except Error Channel}
    (h : ∀ d, result = .ok d → Change c d) : Change c (c.orKeep result) := by
  cases result with
  | ok d => exact h d rfl
  | error e => exact .keep

theorem change_prepareCommand (c : Channel) (command : Command) :
    Change c (c.prepareCommand command) := by
  cases command with
  | clock mode => exact .clock mode
  | mapping mode => exact change_orKeep fun d hd => .of_switchLayout hd
  | packing mode => exact change_orKeep fun d hd => .of_switchPacking hd
  | opacity mode => exact .opacity mode

/-- Before a frame an operation takes bytes in, or it changes the channel in one of the ways of
`Channel.Change`. -/
theorem change_prepare (c : Channel) (operation : Operation) :
    (∃ chunk, operation = .ingest chunk) ∨ Change c (c.prepare operation) := by
  cases operation with
  | ingest chunk => exact Or.inl ⟨chunk, rfl⟩
  | resize side => exact Or.inr (change_orKeep fun d hd => .of_rebuild hd)
  | apply command => exact Or.inr (change_prepareCommand c command)
  | consume selector =>
    right
    rw [prepare]
    split
    · exact change_prepareCommand c _
    · exact .keep
  | addPattern bytes alpha id flags =>
    refine Or.inr (change_orKeep fun d hd => ?_)
    obtain ⟨s, rfl⟩ := addPattern_eq_ok hd
    exact .patterns s
  | addPatterns text =>
    right
    obtain ⟨s, hs⟩ := channel_addPatterns c text
    rw [prepare, hs]
    exact .patterns s
  | setOffset offset => exact Or.inr (.offset offset)
  | forceStep => exact Or.inr .keep

end Channel

namespace Session

variable {σ : Type} [FrameSink σ]

/-- The phase that makes a frame of a channel, sends it and concludes the operation. -/
def present (sink : σ) (operation : Operation) (c : Channel) : Session σ :=
  let (result, s) := step ⟨c, sink⟩
  ⟨s.channel.conclude operation result.isOk, s.sink⟩

omit [FrameSink σ] in
theorem build_of_start {sink : σ} {config : ChannelConfig} {s : Session σ}
    (h : start sink config = .ok s) : Channel.build config = .ok s.channel := by
  rw [start] at h
  cases hbuild : Channel.build config with
  | error e =>
    rw [hbuild] at h
    cases h
  | ok c =>
    rw [hbuild] at h
    obtain rfl := Except.ok.inj h
    rfl

theorem present_of_ne_ingest (sink : σ) {operation : Operation}
    (h : ∀ chunk, operation ≠ .ingest chunk) (c : Channel) :
    present sink operation c = (step ⟨c, sink⟩).2 := by
  rw [present]
  dsimp only
  rw [Channel.conclude_of_ne_ingest h]

omit [FrameSink σ] in
theorem update_eq (s : Session σ) (result : Except Error Channel) :
    (s.update result).2 = ⟨s.channel.orKeep result, s.sink⟩ := by
  cases result <;> rfl

theorem ingest_eq (s : Session σ) (chunk : List UInt8) :
    (s.ingest chunk).2 =
      if (s.channel.absorb chunk).2.completed then
        present s.sink (.ingest chunk) (s.channel.absorb chunk).1
      else ⟨(s.channel.absorb chunk).1, s.sink⟩ := by
  rw [ingest]
  dsimp only
  by_cases hdue : (s.channel.absorb chunk).2.completed
  · rw [if_pos hdue, if_pos hdue, present]
    rcases hstep : step ⟨(s.channel.absorb chunk).1, s.sink⟩ with ⟨_ | _, next⟩
    · rfl
    · by_cases hclock : next.channel.clock = .block
      · simp [Channel.conclude, Except.isOk, Except.toBool, hclock]
      · simp [Channel.conclude, Except.isOk, Except.toBool, hclock]
  · rw [if_neg hdue, if_neg hdue]

theorem apply_eq (s : Session σ) (command : Command) :
    (s.apply command).2 =
      if s.channel.isDueCommand command then (step ⟨s.channel.prepareCommand command, s.sink⟩).2
      else ⟨s.channel.prepareCommand command, s.sink⟩ := by
  cases command with
  | clock mode => rfl
  | opacity mode => rfl
  | packing mode => exact update_eq s _
  | mapping mode =>
    rw [apply, switchMapping, Channel.isDueCommand, Channel.prepareCommand]
    cases s.channel.switchLayout mode <;> rfl

/-- **The phases of an operation.** It changes the channel, and either that is all, or it makes
the frame of the changed channel. -/
theorem perform_eq (s : Session σ) (operation : Operation) :
    (s.perform operation).2.2 =
      if s.channel.isDue operation then present s.sink operation (s.channel.prepare operation)
      else ⟨s.channel.prepare operation, s.sink⟩ := by
  cases operation with
  | ingest chunk => exact ingest_eq s chunk
  | resize side => exact update_eq s _
  | apply command =>
    rw [present_of_ne_ingest _ (by intro; exact Operation.noConfusion)]
    exact apply_eq s command
  | consume selector =>
    rw [present_of_ne_ingest _ (by intro; exact Operation.noConfusion)]
    change (s.consume selector).2 = _
    rw [consume, Channel.isDue, Channel.prepare]
    cases Command.ofSelector selector with
    | ok command => exact apply_eq s command
    | error e => rfl
  | addPattern bytes alpha id flags => exact update_eq s _
  | addPatterns text => rfl
  | setOffset offset => rfl
  | forceStep => rfl

theorem perform_of_not_due {s : Session σ} {operation : Operation}
    (h : s.channel.isDue operation = false) :
    (s.perform operation).2.2 = ⟨s.channel.prepare operation, s.sink⟩ := by
  rw [perform_eq, if_neg (ne_true_of_eq_false h)]

theorem perform_of_due {s : Session σ} {operation : Operation}
    (h : s.channel.isDue operation = true) :
    (s.perform operation).2.2 = present s.sink operation (s.channel.prepare operation) := by
  rw [perform_eq, if_pos h]

/-- An operation makes a frame of a channel. -/
def Presents (s : Session σ) (operation : Operation) (c : Channel) : Prop :=
  s.channel.isDue operation = true ∧ s.channel.prepare operation = c

/-- The receiver is sent the notices and then the picture of the frame. -/
theorem Presents.sink_eq {s : Session σ} {operation : Operation} {c : Channel}
    (h : s.Presents operation c) : (s.perform operation).2.2.sink =
      (FrameSink.flush (notifyAll s.sink c.compose.1.notices) c.compose.1.raster).2 := by
  obtain ⟨hdue, rfl⟩ := h
  rw [perform_of_due hdue]
  rfl

theorem run_cons (s : Session σ) (operation : Operation) (operations : List Operation) :
    s.run (operation :: operations) = (s.perform operation).2.2.run operations :=
  rfl

theorem run_append (s : Session σ) (earlier later : List Operation) :
    s.run (earlier ++ later) = (s.run earlier).run later :=
  List.foldl_append

theorem run_concat (s : Session σ) (operations : List Operation) (operation : Operation) :
    s.run (operations ++ [operation]) = ((s.run operations).perform operation).2.2 :=
  run_append s operations [operation]

/-- **Invariants of runs.** `I` is what holds between operations, and `D` what holds of a channel
of which a frame is due. -/
theorem run_invariant {I : Channel → Prop} {D : Operation → Channel → Prop}
    (hquiet : ∀ c operation, I c → c.isDue operation = false → I (c.prepare operation))
    (hdue : ∀ c operation, I c → c.isDue operation = true → D operation (c.prepare operation))
    (hframe : ∀ c operation accepted, D operation c →
      I ((c.compose.2.settle accepted).conclude operation accepted))
    (s : Session σ) (hs : I s.channel) (operations : List Operation) :
    I (s.run operations).channel := by
  induction operations using List.reverseRecOn with
  | nil => exact hs
  | append_singleton operations operation ih =>
    rw [run_concat]
    cases h : (s.run operations).channel.isDue operation with
    | false =>
      rw [perform_of_not_due h]
      exact hquiet _ _ ih h
    | true =>
      rw [perform_of_due h]
      exact hframe _ _ _ (hdue _ _ ih h)

end Session

end Bytescope
