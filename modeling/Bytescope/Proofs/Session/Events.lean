import Bytescope.Proofs.Session.Phases
import Bytescope.Sink.Transcript

/-!
# What a run sends

A receiver is watched by writing down next to it whatever it is sent. Watching changes neither
the channel nor the answers, so the events of a run can be spoken of for every receiver, whether
it remembers them itself or not.

## Main definitions

* `Observed`: a receiver that is watched.
* `Session.events`: what the operations of a run send, in order.

## Main results

* `Session.run_observed`: watching a run does not change it.
* `Session.events_append`: the events of a longer run.
* `Session.exists_presents_of_events`: every frame among the events is that of an operation of
  the run.
-/

namespace Bytescope

/-- A receiver with a list of what it was sent. -/
structure Observed (σ : Type) where
  /-- The receiver. -/
  receiver : σ
  /-- What it was sent, first events first. -/
  events : List SinkEvent

instance {σ : Type} [FrameSink σ] : FrameSink (Observed σ) where
  notify o notice := ⟨FrameSink.notify o.receiver notice, o.events ++ [.notice notice]⟩
  flush o raster :=
    let (result, receiver) := FrameSink.flush o.receiver raster
    (result, ⟨receiver, o.events ++ [.frame raster result.isOk]⟩)

namespace Frame

/-- Sends a frame: the notices and then the picture. -/
def send {σ : Type} [FrameSink σ] (frame : Frame) (sink : σ) : Except Error Unit × σ :=
  FrameSink.flush (notifyAll sink frame.notices) frame.raster

/-- What is sent of a frame that is answered in this way. -/
def events (frame : Frame) (accepted : Bool) : List SinkEvent :=
  frame.notices.map .notice ++ [.frame frame.raster accepted]

/-- Of a frame that is sent only the last event is a picture. -/
theorem eq_of_events_eq {frame : Frame} {raster : Raster} {accepted answer : Bool}
    {before after : List SinkEvent}
    (h : frame.events answer = before ++ .frame raster accepted :: after) :
    before = frame.notices.map .notice ∧ raster = frame.raster ∧ accepted = answer := by
  rcases List.eq_nil_or_concat after with rfl | ⟨rest, last, rfl⟩
  · obtain ⟨hnotices, hlast⟩ := List.append_inj' h rfl
    obtain ⟨rfl, rfl⟩ := SinkEvent.frame.inj (List.singleton_inj.mp hlast)
    exact ⟨hnotices.symm, rfl, rfl⟩
  · rw [List.concat_eq_append, ← List.cons_append, ← List.append_assoc] at h
    obtain ⟨hnotices, -⟩ := List.append_inj' h rfl
    have hmem : SinkEvent.frame raster accepted ∈ frame.notices.map SinkEvent.notice := by
      rw [hnotices]
      exact List.mem_append_right _ List.mem_cons_self
    obtain ⟨notice, -, hnotice⟩ := List.mem_map.mp hmem
    cases hnotice

end Frame

namespace Transcript

theorem answers_notifyAll (t : Transcript) (notices : List Notice) :
    (notifyAll t notices).answers = t.answers := by
  induction notices generalizing t with
  | nil => rfl
  | cons notice rest ih => exact ih _

/-- A transcript answers every frame as it was told. -/
theorem send_eq (t : Transcript) (frame : Frame) :
    (frame.send t).1 = (if t.answers.headD true then .ok () else .error refusal) ∧
      (frame.send t).2.answers = t.answers.tail := by
  rw [← t.answers_notifyAll frame.notices]
  exact ⟨rfl, rfl⟩

end Transcript

namespace Session

variable {σ : Type}

/-- The session with a receiver that is watched, after these events. -/
def observed (s : Session σ) (events : List SinkEvent) : Session (Observed σ) :=
  ⟨s.channel, ⟨s.sink, events⟩⟩

variable [FrameSink σ]

/-- What the operations of a run send, in order. -/
def events (s : Session σ) (operations : List Operation) : List SinkEvent :=
  ((s.observed []).run operations).sink.events

theorem notifyAll_observed (sink : σ) (events : List SinkEvent) (notices : List Notice) :
    notifyAll (⟨sink, events⟩ : Observed σ) notices =
      ⟨notifyAll sink notices, events ++ notices.map .notice⟩ := by
  induction notices generalizing sink events with
  | nil => simp [notifyAll]
  | cons notice rest ih =>
    refine (ih (FrameSink.notify sink notice) (events ++ [.notice notice])).trans ?_
    simp [notifyAll]

theorem step_eq (c : Channel) (sink : σ) : step ⟨c, sink⟩ = ((c.compose.1.send sink).1,
    ⟨c.compose.2.settle (c.compose.1.send sink).1.isOk, (c.compose.1.send sink).2⟩) :=
  rfl

theorem present_observed (sink : σ) (events : List SinkEvent) (operation : Operation)
    (c : Channel) : present (⟨sink, events⟩ : Observed σ) operation c =
      (present sink operation c).observed
        (events ++ c.compose.1.events (c.compose.1.send sink).1.isOk) := by
  rw [present, step_eq, Frame.send, notifyAll_observed, Frame.events, ← List.append_assoc]
  rfl

/-- What an operation sends. -/
def sent (s : Session σ) (operation : Operation) : List SinkEvent :=
  if s.channel.isDue operation then
    let frame := (s.channel.prepare operation).compose.1
    frame.events (frame.send s.sink).1.isOk
  else []

theorem perform_observed (s : Session σ) (events : List SinkEvent) (operation : Operation) :
    ((s.observed events).perform operation).2.2 =
      (s.perform operation).2.2.observed (events ++ s.sent operation) := by
  rw [perform_eq, perform_eq, sent]
  by_cases hdue : s.channel.isDue operation
  · have hdue' : (s.observed events).channel.isDue operation := hdue
    rw [if_pos hdue, if_pos hdue, if_pos hdue']
    exact present_observed _ _ _ _
  · have hdue' : ¬ (s.observed events).channel.isDue operation := hdue
    rw [if_neg hdue, if_neg hdue, if_neg hdue', List.append_nil]
    rfl

/-- **Watching a run does not change it.** -/
theorem run_observed (s : Session σ) (events : List SinkEvent) (operations : List Operation) :
    (s.observed events).run operations =
      (s.run operations).observed (events ++ s.events operations) := by
  induction operations generalizing s events with
  | nil =>
    rw [Session.events]
    change s.observed events = s.observed (events ++ [])
    rw [List.append_nil]
  | cons operation rest ih =>
    have hevents : s.events (operation :: rest) =
        s.sent operation ++ (s.perform operation).2.2.events rest := by
      rw [Session.events, run_cons, perform_observed, ih]
      rfl
    rw [run_cons, perform_observed, ih, hevents, List.append_assoc, run_cons]

@[simp]
theorem events_nil (s : Session σ) : s.events [] = [] :=
  rfl

theorem events_append (s : Session σ) (earlier later : List Operation) :
    s.events (earlier ++ later) = s.events earlier ++ (s.run earlier).events later := by
  rw [Session.events, run_append, run_observed, run_observed]
  rfl

theorem events_singleton (s : Session σ) (operation : Operation) :
    s.events [operation] = s.sent operation := by
  change ((s.observed []).perform operation).2.2.sink.events = _
  rw [perform_observed]
  rfl

variable {s : Session σ} {operation : Operation} {c : Channel}

theorem Presents.events_eq (h : s.Presents operation c) :
    s.events [operation] = c.compose.1.events (c.compose.1.send s.sink).1.isOk := by
  obtain ⟨hdue, rfl⟩ := h
  rw [events_singleton, sent, if_pos hdue]

theorem events_of_not_due (h : s.channel.isDue operation = false) : s.events [operation] = [] := by
  rw [events_singleton, sent, if_neg (ne_true_of_eq_false h)]

/-- An operation uses up the answer to its frame. -/
theorem answers_perform (s : Session Transcript) (operation : Operation) :
    (s.perform operation).2.2.sink.answers =
      if s.channel.isDue operation then s.sink.answers.tail else s.sink.answers := by
  cases hdue : s.channel.isDue operation with
  | false =>
    rw [perform_of_not_due hdue]
    rfl
  | true =>
    rw [Presents.sink_eq ⟨hdue, rfl⟩]
    exact (s.sink.send_eq _).2

theorem events_eq_nil_iff : s.events [operation] = [] ↔ s.channel.isDue operation = false := by
  refine ⟨fun h => ?_, events_of_not_due⟩
  by_contra hdue
  rw [Bool.not_eq_false] at hdue
  rw [Presents.events_eq ⟨hdue, rfl⟩, Frame.events] at h
  exact List.append_ne_nil_of_right_ne_nil _ (List.cons_ne_nil _ _) h

/-- A frame among the events of an operation is the one that the operation makes. -/
theorem exists_presents_of_events_singleton {raster : Raster} {accepted : Bool}
    {before after : List SinkEvent}
    (h : s.events [operation] = before ++ .frame raster accepted :: after) :
    ∃ c, s.Presents operation c ∧ raster = c.compose.1.raster ∧
      accepted = (c.compose.1.send s.sink).1.isOk ∧ before = c.compose.1.notices.map .notice := by
  cases hdue : s.channel.isDue operation with
  | false =>
    rw [events_of_not_due hdue] at h
    exact absurd h.symm (List.append_ne_nil_of_right_ne_nil _ (List.cons_ne_nil _ _))
  | true =>
    have hpresents : s.Presents operation _ := ⟨hdue, rfl⟩
    rw [hpresents.events_eq] at h
    obtain ⟨hbefore, hraster, haccepted⟩ := Frame.eq_of_events_eq h
    exact ⟨_, hpresents, hraster, haccepted, hbefore⟩

/-- **Where the frames of a run come from.** Every frame among the events is that of an operation
of the run, and right before it come the notices of that frame. -/
theorem exists_presents_of_events {operations : List Operation} {raster : Raster}
    {accepted : Bool} {before after : List SinkEvent}
    (h : s.events operations = before ++ .frame raster accepted :: after) :
    ∃ earlier operation later c, operations = earlier ++ operation :: later ∧
      (s.run earlier).Presents operation c ∧ raster = c.compose.1.raster ∧
      accepted = (c.compose.1.send (s.run earlier).sink).1.isOk ∧
      before = s.events earlier ++ c.compose.1.notices.map .notice := by
  induction operations using List.reverseRecOn generalizing after with
  | nil => exact absurd h.symm (List.append_ne_nil_of_right_ne_nil _ (List.cons_ne_nil _ _))
  | append_singleton operations operation ih =>
    rw [events_append] at h
    -- The frame is among the events of the last operation, at their very start, or before them.
    rcases List.append_eq_append_iff.mp h with ⟨front, rfl, hfront⟩ | ⟨front, hfront, hback⟩
    · obtain ⟨c, hpresents, hraster, haccepted, rfl⟩ := exists_presents_of_events_singleton hfront
      exact ⟨operations, operation, [], c, rfl, hpresents, hraster, haccepted, rfl⟩
    · rcases List.cons_eq_append_iff.mp hback with ⟨rfl, hevents⟩ | ⟨rest, rfl, -⟩
      · have hfront' : (s.run operations).events [operation] =
            [] ++ .frame raster accepted :: after := hevents
        obtain ⟨c, hpresents, hraster, haccepted, hnone⟩ :=
          exists_presents_of_events_singleton hfront'
        refine ⟨operations, operation, [], c, rfl, hpresents, hraster, haccepted, ?_⟩
        rw [← hnone, hfront, List.append_nil, List.append_nil]
      · obtain ⟨earlier, op, later, c, rfl, hsent⟩ := ih hfront
        exact ⟨earlier, op, later ++ [operation], c, by simp, hsent⟩

end Session

end Bytescope
