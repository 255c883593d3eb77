import Bytescope.Sink.Basic

/-!
# A receiver that keeps what it gets

## Main definitions

* `Recorder`: keeps the notices, counts the frames and, if asked to, keeps them.
* `Recorder.matchCounts`: the pattern counts among the notices.
-/

namespace Bytescope

/-- A receiver that keeps what it gets. -/
structure Recorder where
  /-- The notices, first ones first. -/
  notices : Array Notice
  /-- The frames, first ones first. -/
  frames : Array Raster
  /-- How many frames there were. -/
  flushes : Nat
  /-- Whether frames are kept. -/
  keepsFrames : Bool

namespace Recorder

/-- A recorder that has received nothing. -/
def fresh (keepsFrames : Bool) : Recorder := ⟨#[], #[], 0, keepsFrames⟩

instance : FrameSink Recorder where
  notify r notice := { r with notices := r.notices.push notice }
  flush r raster := (.ok (), { r with
    flushes := r.flushes + 1
    frames := if r.keepsFrames then r.frames.push raster else r.frames })

/-- The pattern counts among the notices. -/
def matchCounts (r : Recorder) : List MatchCount :=
  r.notices.toList.filterMap fun
    | .matched found => some found
    | _ => none

/-- Gives the notices away. -/
def drainNotices (r : Recorder) : Array Notice × Recorder :=
  (r.notices, { r with notices := #[] })

/-- Gives the frames away. -/
def drainFrames (r : Recorder) : Array Raster × Recorder :=
  (r.frames, { r with frames := #[] })

end Recorder

end Bytescope
