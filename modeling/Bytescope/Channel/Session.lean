import Bytescope.Channel.Frame

/-!
# Channels with their receivers

A session is a channel together with the receiver of its frames. Every operation answers with
its result and the session after it. An operation that is refused leaves the session as it was,
unless it was the receiver that refused a frame.

## Main definitions

* `Session`: a channel and a receiver.
* `Session.step`, `Session.ingest`, `Session.switchMapping`: the operations that make frames.
* `Session.feed`: intake after intake until a chunk is used up.
* `Operation`, `Session.perform`, `Session.run`: operations as data.
-/

namespace Bytescope

/-- A channel and the receiver of its frames. -/
structure Session (σ : Type) where
  /-- The channel. -/
  channel : Channel
  /-- The receiver. -/
  sink : σ

/-- An operation on a channel. -/
inductive Operation
  /-- Takes bytes from a chunk. -/
  | ingest (chunk : List UInt8)
  /-- Makes a window of another side. -/
  | resize (side : Nat)
  /-- Carries out a command. -/
  | apply (command : Command)
  /-- Carries out the command with this selector. -/
  | consume (selector : Int)
  /-- Registers a pattern. -/
  | addPattern (bytes : Array UInt8) (alpha : UInt8) (id : Nat) (flags : PatternFlags)
  /-- Registers the patterns of a text. -/
  | addPatterns (text : String)
  /-- Sets the number of bytes processed. -/
  | setOffset (offset : Nat)
  /-- Makes a frame of the window as it is. -/
  | forceStep

/-- What an operation answers. -/
inductive Answer
  /-- It was carried out. -/
  | done
  /-- It took bytes. -/
  | took (intake : Intake)
  /-- It registered so many patterns. -/
  | registered (added : Nat)
  /-- It was refused. -/
  | refused (e : Error)

/-- The answer that a result amounts to. -/
def Answer.ofResult {α : Type} (f : α → Answer) : Except Error α → Answer
  | .ok x => f x
  | .error e => .refused e

namespace Session

variable {σ : Type} [FrameSink σ]

/-- Starts a session with a fresh channel. -/
def start (sink : σ) (config : ChannelConfig) : Except Error (Session σ) :=
  (Channel.build config).map (⟨·, sink⟩)

/-- Makes a frame and sends it. -/
def step (s : Session σ) : Except Error Unit × Session σ :=
  let (frame, channel) := s.channel.compose
  let (result, sink) := FrameSink.flush (notifyAll s.sink frame.notices) frame.raster
  (result, ⟨channel.settle result.isOk, sink⟩)

/-- Takes bytes from the front of a chunk, counting them, and makes a frame if one is due.
Under the block clock the count then starts over, unless the frame was refused. -/
def ingest (s : Session σ) (chunk : List UInt8) : Except Error Intake × Session σ :=
  let (channel, intake) := s.channel.absorb chunk
  let s : Session σ := ⟨channel, s.sink⟩
  if intake.completed then
    match s.step with
    | (.error e, s) => (.error e, s)
    | (.ok (), s) =>
      if s.channel.clock = .block then (.ok intake, ⟨s.channel.restartCount, s.sink⟩)
      else (.ok intake, s)
  else (.ok intake, s)

/-- Replaces the channel, unless the change was refused. -/
def update (s : Session σ) (result : Except Error Channel) : Except Error Unit × Session σ :=
  match result with
  | .ok channel => (.ok (), ⟨channel, s.sink⟩)
  | .error e => (.error e, s)

/-- Switches the mapping and makes a frame that shows it. -/
def switchMapping (s : Session σ) (mapping : Mapping) : Except Error Unit × Session σ :=
  match s.channel.switchLayout mapping with
  | .ok channel => step ⟨channel, s.sink⟩
  | .error e => (.error e, s)

/-- Carries out a command. -/
def apply (s : Session σ) : Command → Except Error Unit × Session σ
  | .clock mode => s.update (.ok (s.channel.switchClock mode))
  | .mapping mode => s.switchMapping mode
  | .packing mode => s.update (s.channel.switchPacking mode)
  | .opacity mode => s.update (.ok (s.channel.switchOpacity mode))

/-- Carries out the command with a selector, if there is one. -/
def consume (s : Session σ) (selector : Int) : Except Error Unit × Session σ :=
  match Command.ofSelector selector with
  | .ok command => s.apply command
  | .error e => (.error e, s)

/-- Carries out an operation. The log holds what the operation reports besides its answer. -/
def perform (s : Session σ) : Operation → Answer × List LogLine × Session σ
  | .ingest chunk =>
    let (result, s) := s.ingest chunk
    (.ofResult .took result, [], s)
  | .resize side =>
    let (result, s) := s.update (s.channel.resize side)
    (.ofResult (fun _ => .done) result, [], s)
  | .apply command =>
    let (result, s) := s.apply command
    (.ofResult (fun _ => .done) result, [], s)
  | .consume selector =>
    let log := match Command.ofSelector selector with
      | .ok _ => []
      | .error e => [LogLine.ofUnknownCommand e]
    let (result, s) := s.consume selector
    (.ofResult (fun _ => .done) result, log, s)
  | .addPattern bytes alpha id flags =>
    let (result, s) := s.update (s.channel.addPattern bytes alpha id flags)
    (.ofResult (fun _ => .done) result, [], s)
  | .addPatterns text =>
    let r := s.channel.addPatterns text
    (.registered r.added, r.rejected.map LogLine.ofRejectedPattern, ⟨r.channel, s.sink⟩)
  | .setOffset offset => (.done, [], ⟨s.channel.setOffset offset, s.sink⟩)
  | .forceStep =>
    let (result, s) := s.step
    (.ofResult (fun _ => .done) result, [], s)

/-- Carries out operations one after the other. -/
def run (s : Session σ) (operations : List Operation) : Session σ :=
  operations.foldl (fun s operation => (s.perform operation).2.2) s

/-- What remains of a chunk after an intake is shorter, unless nothing was taken. -/
theorem length_sub_lt {α : Type} {chunk taken : List α} (hchunk : chunk ≠ [])
    (htaken : taken ≠ []) : chunk.length - taken.length < chunk.length :=
  Nat.sub_lt (List.length_pos_iff.mpr hchunk) (List.length_pos_iff.mpr htaken)

/-- Takes intake after intake from a chunk until it is used up, an intake is refused or takes
nothing, or the receiver has had enough. The last answer comes last. -/
def feedUntil (enough : σ → Bool) (s : Session σ) (chunk : List UInt8) :
    List (Except Error Intake) × Session σ :=
  if hchunk : chunk = [] then ([], s)
  else
    match s.ingest chunk with
    | (.error e, s) => ([.error e], s)
    | (.ok intake, s) =>
      if htaken : enough s.sink ∨ intake.taken = [] then ([.ok intake], s)
      else
        have := length_sub_lt hchunk fun h => htaken (Or.inr h)
        let (answers, s) := feedUntil enough s (chunk.drop intake.taken.length)
        (.ok intake :: answers, s)
termination_by chunk.length

/-- Takes intake after intake from a chunk until it is used up. -/
def feed (s : Session σ) (chunk : List UInt8) : List (Except Error Intake) × Session σ :=
  s.feedUntil (fun _ => false) chunk

end Session

end Bytescope
