import Bytescope.Proofs.Session.Events
import Bytescope.Proofs.Session.Refusals

/-!
# What operations answer

What an operation answers is settled by the channel, apart from the refusal of a frame. If the
channel objects, that is the answer. Otherwise an operation that makes no frame has its reply at
once, and one that makes a frame has it if the receiver accepts the frame.

## Main definitions

* `Channel.reply`, `Channel.report`: what an operation answers unless it is refused, and what it
  reports besides.
* `Session.answers`: the answers and reports of a run.

## Main results

* `Session.perform_of_objection`, `Session.fst_perform_of_not_due`,
  `Session.Presents.fst_perform`: the answer of every operation.
* `Session.presents_of_refused`: without an objection only the receiver can refuse.
-/

namespace Bytescope

namespace Channel

/-- What an operation answers unless it is refused. -/
def reply (c : Channel) : Operation → Answer
  | .ingest chunk => .took (c.absorb chunk).2
  | .addPatterns text => .registered (c.addPatterns text).added
  | _ => .done

/-- What an operation reports besides its answer. -/
def report (c : Channel) : Operation → List LogLine
  | .consume selector =>
    match Command.ofSelector selector with
    | .ok _ => []
    | .error e => [LogLine.ofUnknownCommand e]
  | .addPatterns text => (c.addPatterns text).rejected.map LogLine.ofRejectedPattern
  | _ => []

end Channel

namespace Session

variable {σ : Type} [FrameSink σ] {s : Session σ} {operation : Operation} {c : Channel}

theorem snd_perform (s : Session σ) (operation : Operation) :
    (s.perform operation).2.1 = s.channel.report operation := by
  cases operation <;> rfl

/-! ### Operations that make no frame -/

theorem fst_apply_of_not_due {command : Command} (h : s.channel.attemptCommand command = .ok c)
    (hquiet : s.channel.isDueCommand command = false) : (s.apply command).1 = .ok () := by
  cases command with
  | clock mode => rfl
  | opacity mode => rfl
  | packing mode =>
    have hswitch : s.channel.switchPacking mode = .ok c := h
    rw [apply, hswitch]
    rfl
  | mapping mode =>
    have hswitch : s.channel.switchLayout mode = .ok c := h
    rw [Channel.isDueCommand, hswitch] at hquiet
    cases hquiet

/-- Without an objection an operation that makes no frame has its reply. -/
theorem fst_perform_of_not_due (h : s.channel.attempt operation = .ok c)
    (hquiet : s.channel.isDue operation = false) :
    (s.perform operation).1 = s.channel.reply operation := by
  cases operation with
  | ingest chunk =>
    have hopen : ¬ (s.channel.absorb chunk).2.completed = true := ne_true_of_eq_false hquiet
    rw [perform, ingest]
    dsimp only
    rw [if_neg hopen]
    rfl
  | resize side =>
    have hresize : s.channel.resize side = .ok c := h
    rw [perform, hresize]
    rfl
  | apply command =>
    rw [perform]
    dsimp only
    rw [fst_apply_of_not_due h hquiet]
    rfl
  | consume selector =>
    rw [perform, consume]
    cases hcommand : Command.ofSelector selector with
    | error e =>
      rw [Channel.attempt, hcommand] at h
      cases h
    | ok command =>
      rw [Channel.attempt, hcommand] at h
      rw [Channel.isDue, hcommand] at hquiet
      dsimp only
      rw [fst_apply_of_not_due h hquiet]
      rfl
  | addPattern bytes alpha id flags =>
    have hadd : s.channel.addPattern bytes alpha id flags = .ok c := h
    rw [perform, hadd]
    rfl
  | addPatterns text => rfl
  | setOffset offset => rfl
  | forceStep => cases hquiet

/-! ### Operations that make a frame -/

theorem fst_apply_of_due {command : Command} (hdue : s.channel.isDueCommand command = true) :
    (s.apply command).1 =
      ((s.channel.prepareCommand command).compose.1.send s.sink).1 := by
  cases command with
  | mapping mode =>
    rw [Channel.isDueCommand] at hdue
    rw [apply, switchMapping, Channel.prepareCommand]
    cases hswitch : s.channel.switchLayout mode with
    | ok d => rfl
    | error e =>
      rw [hswitch] at hdue
      cases hdue
  | _ => cases hdue

theorem fst_ingest_of_due {chunk : List UInt8}
    (hdue : (s.channel.absorb chunk).2.completed = true) :
    (s.ingest chunk).1 = (((s.channel.absorb chunk).1.compose.1.send s.sink).1.map
      fun _ => (s.channel.absorb chunk).2) := by
  change _ = (step ⟨(s.channel.absorb chunk).1, s.sink⟩).1.map _
  rw [ingest]
  dsimp only
  rw [if_pos hdue]
  rcases step ⟨(s.channel.absorb chunk).1, s.sink⟩ with ⟨e | _, next⟩
  · rfl
  · dsimp only
    split_ifs <;> rfl

theorem ofResult_map {α β : Type} (f : α → Answer) (g : β → α) (result : Except Error β) :
    Answer.ofResult f (result.map g) = .ofResult (fun x => f (g x)) result := by
  cases result <;> rfl

/-- An operation that makes a frame has its reply if the receiver accepts the frame. -/
theorem Presents.fst_perform (hc : s.Presents operation c) :
    (s.perform operation).1 =
      .ofResult (fun _ => s.channel.reply operation) (c.compose.1.send s.sink).1 := by
  obtain ⟨hdue, rfl⟩ := hc
  cases operation with
  | ingest chunk =>
    rw [perform]
    dsimp only
    rw [fst_ingest_of_due hdue, ofResult_map]
    rfl
  | apply command =>
    rw [perform]
    dsimp only
    rw [fst_apply_of_due hdue]
    rfl
  | consume selector =>
    rw [perform, consume, Channel.prepare]
    rw [Channel.isDue] at hdue
    cases hcommand : Command.ofSelector selector with
    | error e =>
      rw [hcommand] at hdue
      cases hdue
    | ok command =>
      rw [hcommand] at hdue
      dsimp only
      rw [fst_apply_of_due hdue]
      rfl
  | forceStep => rfl
  | _ => cases hdue

theorem eq_error_of_ofResult {α : Type} {f : α → Answer} {result : Except Error α} {e : Error}
    (hf : ∀ x, f x ≠ .refused e) (h : Answer.ofResult f result = .refused e) :
    result = .error e := by
  cases result with
  | ok x => exact absurd h (hf x)
  | error fault => exact congrArg Except.error (Answer.refused.inj h)

/-- If the channel does not object, then a refusal is the receiver's answer to the frame that the
operation makes. -/
theorem presents_of_refused {e : Error} (h : s.channel.attempt operation = .ok c)
    (hrefused : (s.perform operation).1 = .refused e) :
    s.Presents operation c ∧ (c.compose.1.send s.sink).1 = .error e := by
  have hreply : s.channel.reply operation ≠ .refused e := by
    cases operation <;> exact Answer.noConfusion
  cases hdue : s.channel.isDue operation with
  | false =>
    rw [fst_perform_of_not_due h hdue] at hrefused
    exact absurd hrefused hreply
  | true =>
    have hc : s.Presents operation c := ⟨hdue, by rw [Channel.prepare_eq, h]; rfl⟩
    rw [hc.fst_perform] at hrefused
    exact ⟨hc, eq_error_of_ofResult (fun _ => hreply) hrefused⟩

/-! ### Runs -/

/-- What the operations of a run answer and report, in order. -/
def answers (s : Session σ) : List Operation → List (Answer × List LogLine)
  | [] => []
  | operation :: rest =>
    ((s.perform operation).1, (s.perform operation).2.1) :: (s.perform operation).2.2.answers rest

end Session

end Bytescope
