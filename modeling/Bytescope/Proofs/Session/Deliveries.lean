import Bytescope.Proofs.Frame.Composition
import Bytescope.Proofs.Session.Events
import Bytescope.Proofs.Session.Refusals

/-!
# Deliveries

Whatever a receiver is sent belongs to some frame: the status of the frame, its code if it is to
be announced, how often the patterns occur in its window, and the picture. All of this is one
delivery. What a run sends is one delivery after the other, one for each operation that makes a
frame, whether the receiver accepts the frames or not. The counters of the channel agree with the
deliveries and with the bytes that were taken.

## Main definitions

* `Delivery`: all that a receiver is sent of one frame.
* `Session.deliveries`: the deliveries of a run.
* `Channel.Shows`: the operations that make a frame.
* `Session.consumed`: the bytes that the operations of a run take.

## Main results

* `Session.events_eq_deliveries`: what a run sends are its deliveries.
* `Session.deliveries_of_run`: which deliveries there are, and what the counters say of them.
-/

namespace Bytescope

/-- All that a receiver is sent of one frame. -/
structure Delivery where
  /-- The number of the frame. -/
  number : ℕ
  /-- The bytes processed when it was made. -/
  processed : ℕ
  /-- The entropy of its window. -/
  entropy : Float
  /-- The code by which it is announced, if it is. -/
  code? : Option (List UInt8)
  /-- How often the patterns occur in its window. -/
  found : List MatchCount
  /-- The picture. -/
  raster : Raster
  /-- Whether it was accepted. -/
  accepted : Bool

/-- A delivery is one status, then at most one code, then the counts, then one picture. -/
def Delivery.events (d : Delivery) : List SinkEvent :=
  .notice (.status d.number d.processed d.entropy) ::
    (d.code?.map fun code => .notice (.stream code)).toList ++
      d.found.map (fun found => .notice (.matched found)) ++ [.frame d.raster d.accepted]

namespace Channel

/-- The delivery of the frame of a channel, with the answer to it. -/
def delivery (c : Channel) (accepted : Bool) : Delivery where
  number := c.frames + 1
  processed := c.processed
  entropy := unitEntropy (shannonEntropy c.window.data)
  code? := if c.unannounced then some (streamCode c.packing c.mapping c.footprint) else none
  found := c.scene.found
  raster := c.compose.1.raster
  accepted := accepted

variable {c d : Channel} {operation : Operation}

/-- A frame is sent as its delivery. -/
theorem WellFormed.events_compose (h : c.WellFormed) (hcoherent : c.DueCoherent)
    (accepted : Bool) : c.compose.1.events accepted = (c.delivery accepted).events := by
  have hentropy : shannonEntropyWith c.window.data c.currentHistogram =
      shannonEntropy c.window.data := by
    rw [hcoherent.currentHistogram_eq h]
    rfl
  have hnotices : c.compose.1.notices =
      .status (c.frames + 1) c.processed (unitEntropy (shannonEntropy c.window.data)) ::
        (if c.unannounced then [.stream (streamCode c.packing c.mapping c.footprint)] else []) ++
          c.scene.found.map .matched := by
    rw [Channel.compose]
    dsimp only
    rw [hentropy, h.counts_generate]
  rw [Frame.events, hnotices, Delivery.events, delivery]
  dsimp only
  rw [List.cons_append, List.map_cons, List.map_append, List.map_map]
  split_ifs <;> rfl

/-! ### The operations that make a frame -/

/-- The operations that make a frame: an intake that completes the window, a mapping that is not
forbidden, and the operation that makes one of the window as it is. -/
def Shows (c : Channel) : Operation → Prop
  | .ingest chunk => (c.absorb chunk).2.completed = true
  | .apply command => ∃ mode, command = .mapping mode ∧ ¬ c.ForbidsCommand command
  | .consume selector =>
    ∃ mode, selector = (Command.mapping mode).selector ∧ ¬ c.ForbidsCommand (.mapping mode)
  | .forceStep => True
  | _ => False

theorem WellFormed.isDueCommand_iff (h : c.WellFormed) {command : Command} :
    c.isDueCommand command = true ↔
      ∃ mode, command = .mapping mode ∧ ¬ c.ForbidsCommand command := by
  cases command with
  | mapping mode =>
    have hok : (∃ d, c.switchLayout mode = .ok d) ↔ (c.switchLayout mode).isOk = true := by
      cases c.switchLayout mode <;> simp [Except.isOk, Except.toBool]
    have hallowed : (∃ d, c.attemptCommand (.mapping mode) = .ok d) ↔ _ :=
      h.exists_attemptCommand_iff
    rw [isDueCommand, ← hok]
    refine hallowed.trans ⟨fun hallowed => ⟨mode, rfl, hallowed⟩, ?_⟩
    rintro ⟨_, _, hallowed⟩
    exact hallowed
  | _ => simp [isDueCommand]

theorem WellFormed.isDue_iff (h : c.WellFormed) : c.isDue operation = true ↔ c.Shows operation := by
  cases operation with
  | ingest chunk => exact Iff.rfl
  | apply command => exact h.isDueCommand_iff
  | consume selector =>
    rw [isDue, Shows]
    cases hcommand : Command.ofSelector selector with
    | error e =>
      refine iff_of_false Bool.false_ne_true ?_
      rintro ⟨mode, rfl, -⟩
      rw [Command.ofSelector_selector] at hcommand
      cases hcommand
    | ok command =>
      obtain rfl := Command.ofSelector_eq_ok_iff.mp hcommand
      refine h.isDueCommand_iff.trans ⟨?_, ?_⟩
      · rintro ⟨mode, rfl, hallowed⟩
        exact ⟨mode, rfl, hallowed⟩
      · rintro ⟨mode, hselector, hallowed⟩
        rw [hselector, Command.ofSelector_selector] at hcommand
        obtain rfl := Except.ok.inj hcommand
        exact ⟨mode, rfl, hallowed⟩
  | forceStep => exact iff_of_true rfl trivial
  | _ => exact iff_of_false Bool.false_ne_true id

/-! ### The counters -/

/-- Bytes that an intake can take. Under the slide clock the whole window is room. -/
def room (c : Channel) : ℕ :=
  match c.clock with
  | .block => c.remaining
  | .slide => c.window.size

/-- Bytes that an operation takes. -/
def consumes (c : Channel) : Operation → ℕ
  | .ingest chunk => min chunk.length c.room
  | _ => 0

theorem taken_absorb (c : Channel) (chunk : List UInt8) :
    (c.absorb chunk).2.taken = chunk.take c.room := by
  rw [absorb, room]
  cases c.clock with
  | block => exact Window.taken_ingest_block c.window chunk
  | slide => rfl

theorem length_taken_absorb (c : Channel) (chunk : List UInt8) :
    (c.absorb chunk).2.taken.length = c.consumes (.ingest chunk) := by
  rw [taken_absorb, List.length_take, Nat.min_comm]
  rfl

/-- Frames are counted when they are made. -/
theorem frames_prepare (c : Channel) (operation : Operation) :
    (c.prepare operation).frames = c.frames ∧
      (c.prepare operation).processedAtFrame = c.processedAtFrame := by
  rcases change_prepare c operation with ⟨chunk, rfl⟩ | hchange
  · exact ⟨rfl, rfl⟩
  · generalize c.prepare operation = d at hchange
    cases hchange <;> exact ⟨rfl, rfl⟩

theorem processed_of_rebuild {side : ℕ} {mapping : Mapping} {packing : Packing}
    (h : c.rebuild side mapping packing = .ok d) : d.processed = c.processed := by
  obtain ⟨layout, -, -, -, rfl⟩ := rebuild_eq_ok_iff.mp h
  rfl

theorem processed_orKeep {result : Except Error Channel}
    (h : ∀ d, result = .ok d → d.processed = c.processed) :
    (c.orKeep result).processed = c.processed := by
  cases result with
  | ok d => exact h d rfl
  | error e => rfl

theorem processed_prepareCommand (c : Channel) (command : Command) :
    (c.prepareCommand command).processed = c.processed := by
  cases command with
  | clock mode => rfl
  | opacity mode => rfl
  | mapping mode =>
    refine processed_orKeep fun d hd => ?_
    rcases switchLayout_eq_ok hd with ⟨layout, -, -, rfl⟩ | ⟨-, hrebuild⟩
    · rfl
    · exact processed_of_rebuild hrebuild
  | packing mode =>
    refine processed_orKeep fun d hd => ?_
    rcases switchPacking_eq_ok hd with ⟨-, rfl⟩ | ⟨-, hrebuild⟩
    · rfl
    · exact processed_of_rebuild hrebuild

/-- Bytes are counted when they are taken, before any frame. -/
theorem processed_prepare (hlimit : c.processed ≤ counterLimit)
    (hunset : ∀ offset, operation ≠ .setOffset offset) :
    (c.prepare operation).processed = min (c.processed + c.consumes operation) counterLimit := by
  have hkept : min (c.processed + 0) counterLimit = c.processed := Nat.min_eq_left hlimit
  cases operation with
  | ingest chunk =>
    rw [← length_taken_absorb]
    rfl
  | setOffset offset => exact absurd rfl (hunset offset)
  | resize side =>
    refine Eq.trans ?_ hkept.symm
    exact processed_orKeep fun d hd => processed_of_rebuild hd
  | apply command => exact (processed_prepareCommand c command).trans hkept.symm
  | consume selector =>
    refine Eq.trans ?_ hkept.symm
    rw [prepare]
    split
    · exact processed_prepareCommand c _
    · rfl
  | addPattern bytes alpha id flags =>
    refine Eq.trans (processed_orKeep fun d hd => ?_) hkept.symm
    obtain ⟨patterns, rfl⟩ := addPattern_eq_ok hd
    rfl
  | addPatterns text =>
    obtain ⟨patterns, hpatterns⟩ := channel_addPatterns c text
    rw [prepare, hpatterns]
    exact hkept.symm
  | forceStep => exact hkept.symm

/-- The end of an operation changes nothing but the count of bytes. -/
theorem conclude_eq (c : Channel) (operation : Operation) (accepted : Bool) :
    ∃ histogram, c.conclude operation accepted = { c with histogram := histogram } := by
  cases operation with
  | ingest chunk =>
    rw [conclude]
    split_ifs
    · exact ⟨.empty, rfl⟩
    · exact ⟨c.histogram, rfl⟩
  | _ => exact ⟨c.histogram, rfl⟩

/-- What the counters say after a frame. -/
theorem counters_conclude (c : Channel) (operation : Operation) (accepted : Bool) :
    let d := (c.compose.2.settle accepted).conclude operation accepted
    d.frames = c.frames + 1 ∧ d.processed = c.processed ∧
      d.processedAtFrame = if accepted then c.processed else c.processedAtFrame := by
  obtain ⟨histogram, hconclude⟩ := conclude_eq (c.compose.2.settle accepted) operation accepted
  intro d
  have hd : d = _ := hconclude
  rw [hd]
  cases accepted <;> exact ⟨rfl, rfl, rfl⟩

/-- Making a frame does not change the scene. -/
theorem scene_compose (c : Channel) : c.compose.2.scene = c.scene := by
  have hpatterns : c.compose.2.patterns.patterns = c.patterns.patterns :=
    Opacity.patterns_generate ..
  exact congrArg (fun patterns => { c.scene with patterns := List.map Pattern.entry patterns })
    hpatterns

/-- Neither does the answer to it. -/
theorem scene_conclude (c : Channel) (operation : Operation) (accepted : Bool) :
    ((c.compose.2.settle accepted).conclude operation accepted).scene = c.scene := by
  obtain ⟨histogram, hconclude⟩ := conclude_eq (c.compose.2.settle accepted) operation accepted
  rw [hconclude]
  cases accepted <;> exact c.scene_compose

/-- The patterns of a scene occur as often as those of its channel. -/
theorem found_scene (c : Channel) : c.scene.found =
    if c.opacity = .pattern then c.patterns.tally c.window.data.toList else [] := by
  rw [Scene.found, PatternSet.tally, patterns_freshPatterns]
  rfl

end Channel

namespace Session

variable {σ : Type} [FrameSink σ] {s : Session σ} {operation : Operation}

/-! ### The deliveries of a run -/

/-- The delivery of the frame that an operation makes, if it makes one. -/
def delivery? (s : Session σ) (operation : Operation) : Option Delivery :=
  if s.channel.isDue operation then
    let c := s.channel.prepare operation
    some (c.delivery (c.compose.1.send s.sink).1.isOk)
  else none

/-- The deliveries of a run, in order. -/
def deliveries (s : Session σ) : List Operation → List Delivery
  | [] => []
  | operation :: rest => (s.delivery? operation).toList ++ (s.perform operation).2.2.deliveries rest

theorem deliveries_append (s : Session σ) (earlier later : List Operation) :
    s.deliveries (earlier ++ later) = s.deliveries earlier ++ (s.run earlier).deliveries later := by
  induction earlier generalizing s with
  | nil => rfl
  | cons operation rest ih =>
    rw [List.cons_append, deliveries, deliveries, ih, List.append_assoc]
    rfl

theorem deliveries_concat (s : Session σ) (operations : List Operation) (operation : Operation) :
    s.deliveries (operations ++ [operation]) =
      s.deliveries operations ++ ((s.run operations).delivery? operation).toList := by
  rw [deliveries_append]
  exact congrArg (s.deliveries operations ++ ·) (List.append_nil _)

/-- The bytes that the operations of a run take. -/
def consumed (s : Session σ) : List Operation → ℕ
  | [] => 0
  | operation :: rest => s.channel.consumes operation + (s.perform operation).2.2.consumed rest

theorem delivery?_of_presents {c : Channel} (hc : s.Presents operation c) :
    s.delivery? operation = some (c.delivery (c.compose.1.send s.sink).1.isOk) := by
  obtain ⟨hdue, rfl⟩ := hc
  exact if_pos hdue

theorem delivery?_of_not_due (h : s.channel.isDue operation = false) :
    s.delivery? operation = none :=
  if_neg (ne_true_of_eq_false h)

/-- An operation without a delivery leaves what is counted of frames. -/
theorem counters_of_eq_none (h : s.delivery? operation = none) :
    (s.perform operation).2.2.channel.frames = s.channel.frames ∧
      (s.perform operation).2.2.channel.processedAtFrame = s.channel.processedAtFrame := by
  cases hdue : s.channel.isDue operation with
  | false =>
    rw [perform_of_not_due hdue]
    exact s.channel.frames_prepare operation
  | true =>
    rw [delivery?_of_presents ⟨hdue, rfl⟩] at h
    cases h

/-- What an operation delivers agrees with the channel that it leaves. -/
theorem counters_of_eq_some {d : Delivery} (h : s.delivery? operation = some d) :
    let c := (s.perform operation).2.2.channel
    d.number = s.channel.frames + 1 ∧ c.frames = s.channel.frames + 1 ∧
      d.processed = c.processed ∧ d.found = c.scene.found ∧
      c.processedAtFrame = if d.accepted then d.processed else s.channel.processedAtFrame := by
  cases hdue : s.channel.isDue operation with
  | false =>
    rw [delivery?_of_not_due hdue] at h
    cases h
  | true =>
    rw [delivery?_of_presents ⟨hdue, rfl⟩] at h
    obtain rfl := Option.some.inj h
    obtain ⟨hframes, hfinal⟩ := s.channel.frames_prepare operation
    obtain ⟨hmade, hprocessed, haccepted⟩ := Channel.counters_conclude
      (s.channel.prepare operation) operation
      ((s.channel.prepare operation).compose.1.send s.sink).1.isOk
    rw [perform_of_due hdue]
    refine ⟨congrArg (· + 1) hframes, hmade.trans (congrArg (· + 1) hframes), hprocessed.symm,
      (congrArg Scene.found (Channel.scene_conclude _ operation _)).symm, ?_⟩
    rw [← hfinal]
    exact haccepted

variable {sink : σ} {config : ChannelConfig}

/-- An operation that makes a frame sends its delivery. -/
theorem events_of_presents (h : start sink config = .ok s) {operations : List Operation}
    {c : Channel} (hc : (s.run operations).Presents operation c) :
    (s.run operations).events [operation] =
      (c.delivery (c.compose.1.send (s.run operations).sink).1.isOk).events := by
  rw [hc.events_eq, (wellFormed_of_presents h hc).events_compose (dueCoherent_of_presents h hc)]

/-- **What a run sends are its deliveries.** -/
theorem events_eq_deliveries (h : start sink config = .ok s) (operations : List Operation) :
    s.events operations = (s.deliveries operations).flatMap Delivery.events := by
  induction operations using List.reverseRecOn with
  | nil => rfl
  | append_singleton operations operation ih =>
    rw [events_append, deliveries_concat, List.flatMap_append, ih]
    refine congrArg ((s.deliveries operations).flatMap Delivery.events ++ ·) ?_
    cases hdue : (s.run operations).channel.isDue operation with
    | false =>
      rw [events_of_not_due hdue, delivery?_of_not_due hdue]
      rfl
    | true =>
      have hc : (s.run operations).Presents operation _ := ⟨hdue, rfl⟩
      rw [events_of_presents h hc, delivery?_of_presents hc]
      exact (List.append_nil _).symm

/-- Frames are numbered one after the other. -/
theorem number_deliveries (s : Session σ) (operations : List Operation) :
    (s.run operations).channel.frames = s.channel.frames + (s.deliveries operations).length ∧
      (s.deliveries operations).map Delivery.number =
        List.range' (s.channel.frames + 1) (s.deliveries operations).length := by
  induction operations using List.reverseRecOn with
  | nil => exact ⟨rfl, rfl⟩
  | append_singleton operations operation ih =>
    obtain ⟨hframes, hnumbers⟩ := ih
    rw [deliveries_concat, run_concat]
    cases hd : (s.run operations).delivery? operation with
    | none =>
      rw [Option.toList_none, List.append_nil, (counters_of_eq_none hd).1]
      exact ⟨hframes, hnumbers⟩
    | some d =>
      obtain ⟨hnumber, hmade, -⟩ := counters_of_eq_some hd
      rw [Option.toList_some, List.length_append, List.length_singleton, hmade, hframes]
      refine ⟨Nat.add_assoc .., ?_⟩
      rw [List.map_append, List.map_singleton, List.range'_concat, hnumbers, hnumber, hframes,
        Nat.one_mul, Nat.add_right_comm]

/-- The last frame that was accepted is remembered. -/
theorem processedAtFrame_run (s : Session σ) (operations : List Operation) :
    (s.run operations).channel.processedAtFrame =
      (((s.deliveries operations).filter Delivery.accepted).getLast?.map
        Delivery.processed).getD s.channel.processedAtFrame := by
  induction operations using List.reverseRecOn with
  | nil => rfl
  | append_singleton operations operation ih =>
    rw [deliveries_concat, run_concat]
    cases hd : (s.run operations).delivery? operation with
    | none => rw [Option.toList_none, List.append_nil, (counters_of_eq_none hd).2, ih]
    | some d =>
      obtain ⟨-, -, -, -, hfinal⟩ := counters_of_eq_some hd
      rw [hfinal, Option.toList_some, List.filter_append, ih]
      cases haccepted : d.accepted with
      | false => simp [haccepted]
      | true => simp [haccepted]

/-! ### The bytes processed -/

theorem processed_perform (s : Session σ) (operation : Operation) :
    (s.perform operation).2.2.channel.processed = (s.channel.prepare operation).processed := by
  cases hdue : s.channel.isDue operation with
  | false => rw [perform_of_not_due hdue]
  | true =>
    rw [perform_of_due hdue]
    exact (Channel.counters_conclude ..).2.1

/-- While it is not set, the number of bytes processed grows by those that are taken. -/
theorem processed_run (hlimit : s.channel.processed ≤ counterLimit) {operations : List Operation}
    (hunset : ∀ offset, .setOffset offset ∉ operations) :
    (s.run operations).channel.processed =
      min (s.channel.processed + s.consumed operations) counterLimit := by
  induction operations generalizing s with
  | nil => exact (Nat.min_eq_left hlimit).symm
  | cons operation rest ih =>
    have hnext : (s.perform operation).2.2.channel.processed =
        min (s.channel.processed + s.channel.consumes operation) counterLimit := by
      rw [processed_perform]
      exact Channel.processed_prepare hlimit fun offset hset =>
        hunset offset (hset ▸ List.mem_cons_self)
    rw [run_cons, ih (hnext ▸ Nat.min_le_right _ _)
      fun offset hmem => hunset offset (List.mem_cons_of_mem _ hmem), hnext, consumed]
    omega

/-- The number of bytes processed was last set to this after these operations, or has been left
at zero from the beginning. -/
def SetLast (earlier : List Operation) (offset : ℕ) : Prop :=
  earlier = [] ∧ offset = 0 ∨ ∃ before, earlier = before ++ [.setOffset offset]

theorem processed_of_setLast (h : start sink config = .ok s) {earlier : List Operation}
    {offset : ℕ} (hset : SetLast earlier offset) :
    (s.run earlier).channel.processed = offset := by
  rcases hset with ⟨rfl, rfl⟩ | ⟨before, rfl⟩
  · obtain ⟨layout, -, -, -, hfresh⟩ := Channel.build_eq_ok_iff.mp (build_of_start h)
    change s.channel.processed = 0
    rw [hfresh]
    rfl
  · rw [run_concat]
    rfl

/-- **Deliveries and counters.** Whatever operations are carried out and whichever frames the
receiver refuses, what it is sent is one delivery after the other. They are numbered from one on,
and the channel has counted them. The channel remembers the bytes processed at the last delivery
that was accepted, and the number of bytes processed is what it was last set to, or zero, and the
bytes taken since, held at its limit. An operation that makes a frame adds one delivery, which
tells the bytes processed by then, those of the operation included, and how often each of the
patterns whose occurrences are events occurs in the window, if the opacity comes from them. Any
other operation adds none. -/
theorem deliveries_of_run (h : start sink config = .ok s) (operations : List Operation) :
    let t := s.run operations
    let deliveries := s.deliveries operations
    s.events operations = deliveries.flatMap Delivery.events ∧
      t.channel.frames = deliveries.length ∧
      deliveries.map Delivery.number = List.range' 1 deliveries.length ∧
      t.channel.processedAtFrame =
        ((deliveries.filter Delivery.accepted).getLast?.map Delivery.processed).getD 0 ∧
      (∀ earlier since offset, operations = earlier ++ since → SetLast earlier offset →
        offset ≤ counterLimit → (∀ other, .setOffset other ∉ since) →
          t.channel.processed = min (offset + (s.run earlier).consumed since) counterLimit) ∧
      ∀ operation, let c := (t.perform operation).2.2.channel
        (t.channel.Shows operation → ∃ d : Delivery,
          s.deliveries (operations ++ [operation]) = deliveries ++ [d] ∧
            d.processed = c.processed ∧ d.found =
              if c.opacity = .pattern then c.patterns.tally c.window.data.toList else []) ∧
        (¬ t.channel.Shows operation →
          s.deliveries (operations ++ [operation]) = deliveries) := by
  intro t deliveries
  obtain ⟨layout, -, -, -, hfresh⟩ := Channel.build_eq_ok_iff.mp (build_of_start h)
  have hframes : s.channel.frames = 0 := by rw [hfresh]; rfl
  have hfinal : s.channel.processedAtFrame = 0 := by rw [hfresh]; rfl
  have hnumbers := s.number_deliveries operations
  rw [hframes, Nat.zero_add, Nat.zero_add] at hnumbers
  refine ⟨events_eq_deliveries h operations, hnumbers.1, hnumbers.2,
    hfinal ▸ s.processedAtFrame_run operations, ?_, fun operation => ?_⟩
  · rintro earlier since offset rfl hset hlimit hunset
    have hstart := processed_of_setLast h hset
    change (s.run (earlier ++ since)).channel.processed = _
    rw [run_append, processed_run (hstart.symm ▸ hlimit) hunset, hstart]
  · intro c
    rw [deliveries_concat, ← (wellFormed_run h operations).isDue_iff]
    cases hdue : (s.run operations).channel.isDue operation with
    | false =>
      refine ⟨fun habsurd => absurd habsurd Bool.false_ne_true, fun _ => ?_⟩
      rw [delivery?_of_not_due hdue]
      exact List.append_nil _
    | true =>
      have hd := delivery?_of_presents (s := s.run operations) ⟨hdue, rfl⟩
      obtain ⟨-, -, hprocessed, hfound, -⟩ := counters_of_eq_some hd
      refine ⟨fun _ => ⟨_, ?_, hprocessed, hfound.trans (Channel.found_scene _)⟩,
        fun hquiet => absurd rfl hquiet⟩
      rw [hd]
      rfl

/-- A frame is refused, and the next one is accepted after an intake that runs into the limit. -/
theorem deliveries_of_run_saturated :
    ∃ s, start (Transcript.expecting [false]) { side := 2, opacity := .constant } = .ok s ∧
      let operations : List Operation := [.ingest [7, 1, 7, 7], .setOffset (counterLimit - 3),
        .ingest [7, 7, 7, 7, 7]]
      s.events operations = (s.deliveries operations).flatMap Delivery.events ∧
        (s.deliveries operations).map Delivery.number = [1, 2] ∧
        (s.run operations).channel.processed = counterLimit ∧
        (s.run operations).channel.processedAtFrame = counterLimit := by
  have hstart : start (Transcript.expecting [false]) { side := 2, opacity := .constant } = .ok _ :=
    rfl
  obtain ⟨hevents, -, hnumbers, hfinal, hprocessed, -⟩ := deliveries_of_run hstart
    [.ingest [7, 1, 7, 7], .setOffset (counterLimit - 3), .ingest [7, 7, 7, 7, 7]]
  refine ⟨_, hstart, hevents, hnumbers, ?_, hfinal⟩
  exact hprocessed ([.ingest [7, 1, 7, 7]] ++ [.setOffset (counterLimit - 3)])
    [.ingest [7, 7, 7, 7, 7]] (counterLimit - 3) rfl (Or.inr ⟨_, rfl⟩) (Nat.sub_le _ _) (by simp)

end Session

end Bytescope
