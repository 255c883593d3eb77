import Bytescope.Curve.Lemmas
import Bytescope.Main
import Bytescope.Progress
import Bytescope.Sink.Recorder
import Bytescope.Sink.Transcript
import Bytescope.Proofs.Pattern.Borders
import Bytescope.Proofs.Pattern.Fallbacks
import Bytescope.Proofs.Pattern.Occurrences
import Bytescope.Proofs.Pattern.Scan
import Bytescope.Proofs.Pattern.Paint
import Bytescope.Proofs.Histogram.Counting
import Bytescope.Proofs.Channel.Change
import Bytescope.Proofs.Session.Phases
import Bytescope.Proofs.Channel.Coherence
import Bytescope.Proofs.Curve.Bijection
import Bytescope.Proofs.Frame.Dense
import Bytescope.Proofs.Frame.Leftovers
import Bytescope.Proofs.Frame.Placement
import Bytescope.Proofs.Channel.Admission
import Bytescope.Proofs.Channel.Consistency
import Bytescope.Proofs.Session.Refusals
import Bytescope.Proofs.Session.Objections
import Bytescope.Proofs.Session.Events
import Bytescope.Proofs.Session.Announcements
import Bytescope.Proofs.Frame.Composition
import Bytescope.Proofs.Channel.Blocks
import Bytescope.Proofs.Session.Streaming
import Bytescope.Proofs.Session.Deliveries
import Bytescope.Proofs.Session.Answers
import Bytescope.Proofs.Session.Resemblance
import Bytescope.Proofs.Session.Retries
import Bytescope.Proofs.Session.Resizing
import Bytescope.Proofs.Session.Sliding
import Bytescope.Proofs.Text.Blank
import Bytescope.Proofs.Text.HexByte
import Bytescope.Proofs.Pattern.Tokens
import Bytescope.Proofs.Pattern.Arguments
import Bytescope.Proofs.Pattern.Isolation
import Bytescope.Proofs.Pattern.Writing
import Bytescope.Proofs.Export.Names
import Bytescope.Proofs.Export.Places
import Bytescope.Proofs.Export.Apart
import Bytescope.Proofs.Export.Saving
import Bytescope.Proofs.Export.Limit
import Bytescope.Proofs.Curve.Hierarchy
import Bytescope.Proofs.Curve.Continuity
import Bytescope.Proofs.Curve.Words
import Bytescope.Proofs.Curve.Visits
import Bytescope.Proofs.Pattern.Succession
import Bytescope.Proofs.Pattern.Opacities
import Bytescope.Proofs.Sizes.Requests
import Bytescope.Proofs.Float.Whole
import Bytescope.Proofs.Histogram.Shares
import Bytescope.Proofs.Histogram.Renormalizing
import Bytescope.Proofs.Session.Feeding
import Bytescope.Proofs.Opacity
