import Bytescope.Sink.Basic

/-!
# A receiver with given answers

A transcript lists everything that a receiver was sent, in order, while the receiver answers
the frames as it was told beforehand.

## Main definitions

* `SinkEvent`: a notice, or a frame with the answer to it.
* `Transcript`: the events so far and the answers to come.
-/

namespace Bytescope

/-- Something sent to a receiver. -/
inductive SinkEvent
  /-- A notice. -/
  | notice (notice : Notice)
  /-- A frame, and whether it was accepted. -/
  | frame (raster : Raster) (accepted : Bool)

/-- A receiver with given answers, which lists what it is sent. -/
structure Transcript where
  /-- What was sent, first events first. -/
  events : Array SinkEvent
  /-- Whether the frames to come are accepted; further ones are. -/
  answers : List Bool

namespace Transcript

/-- The reason given for a refusal. -/
def refusal : Error := .sink "transport closed"

instance : FrameSink Transcript where
  notify t notice := { t with events := t.events.push (.notice notice) }
  flush t raster :=
    let accepted := t.answers.headD true
    (if accepted then .ok () else .error refusal,
      ⟨t.events.push (.frame raster accepted), t.answers.tail⟩)

/-- The transcript of a receiver that will give these answers. -/
def expecting (answers : List Bool) : Transcript := ⟨#[], answers⟩

/-- The notices, in order. -/
def notices (t : Transcript) : List Notice :=
  t.events.toList.filterMap fun
    | .notice notice => some notice
    | .frame _ _ => none

/-- The frames that were accepted, in order. -/
def accepted (t : Transcript) : List Raster :=
  t.events.toList.filterMap fun
    | .frame raster true => some raster
    | _ => none

end Transcript

end Bytescope
