import Bytescope.Pattern.Scan
import Bytescope.Raster

/-!
# Receivers of frames

A channel sends its frames to a receiver. Before each frame it sends notices about the frame;
the receiver may refuse the frame itself.

## Main definitions

* `Notice`: what a receiver is told.
* `FrameSink`: what a receiver does with notices and frames.
-/

namespace Bytescope

/-- What a receiver is told besides the frames. -/
inductive Notice
  /-- A frame with this number follows, made when so many bytes had been processed from a
  window of this entropy, on the scale from 0 to 1. -/
  | status (sequence processed : Nat) (entropy : Float)
  /-- From this frame on, frames are made as the code says. -/
  | stream (code : List UInt8)
  /-- A pattern occurred in the window of this frame. -/
  | matched (found : MatchCount)

/-- A receiver of notices and frames. -/
class FrameSink (σ : Type) where
  /-- Takes a notice. -/
  notify : σ → Notice → σ
  /-- Takes a frame or refuses it. -/
  flush : σ → Raster → Except Error Unit × σ

/-- Hands notices to a receiver, in order. -/
def notifyAll {σ : Type} [FrameSink σ] (sink : σ) (notices : List Notice) : σ :=
  notices.foldl FrameSink.notify sink

end Bytescope
