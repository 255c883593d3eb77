import Bytescope.Arguments
import Bytescope.Channel.Session
import Bytescope.Export

/-!
# Files as streams

A sensor reads a file piece by piece, feeds it to a channel and exports the frames, until the
file ends or enough frames were exported.

## Main definitions

* `Sensor.readFrom`: the loop over the file.
* `Sensor.run`: a whole run on a directory tree.
-/

namespace Bytescope

namespace Sensor

/-- How a run ends. -/
inductive Ending
  /-- So many frames were exported. -/
  | exported (frames : Nat)
  /-- It was refused. -/
  | failed (e : Error)
  /-- The buffer for reading would hold more bytes than can exist. -/
  | aborted (chunk : Nat)

/-- What a run leaves. -/
structure Outcome where
  /-- How it ended. -/
  ending : Ending
  /-- The directory tree. -/
  volume : Volume
  /-- What was reported, first lines first. -/
  log : List LogLine

/-- The largest offset in a file. -/
def maxOffset : Nat := 0x7FFFFFFFFFFFFFFF

/-- What remains of a stream after some of it is shorter. -/
theorem length_drop_lt {stream : List UInt8} {chunk : Nat} (hstream : stream ≠ [])
    (hchunk : 0 < chunk) : (stream.drop chunk).length < stream.length := by
  rw [List.length_drop]
  exact Nat.sub_lt (List.length_pos_iff.mpr hstream) hchunk

/-- Feeds a stream to a channel, so many bytes at a time, until it ends, a frame is refused or
`limit` frames were exported. -/
def readFrom (limit chunk : Nat) (hchunk : 0 < chunk) (s : Session Exporter)
    (stream : List UInt8) : Except Error Unit × Session Exporter :=
  if hstream : stream = [] then (.ok (), s)
  else
    let (answers, s) := s.feedUntil (limit ≤ ·.exported) (stream.take chunk)
    match answers.getLast? with
    | some (.error e) => (.error e, s)
    | _ =>
      if limit ≤ s.sink.exported then (.ok (), s)
      else
        have := length_drop_lt hstream hchunk
        readFrom limit chunk hchunk s (stream.drop chunk)
termination_by stream.length
decreasing_by assumption

/-- The bytes of a file after the first `skip` ones. A picture's file is not read. -/
def streamOf (content : FileContent) (skip : Nat) : List UInt8 :=
  match content with
  | .bytes data => data.toList.drop skip
  | .picture _ | .animation _ _ _ | .sealed _ => []

/-- Feeds an entry to a session and exports what was collected. A directory can be opened but
not read. -/
def exportFrom (a : Arguments) (hchunk : 0 < a.chunk) (entry : VolumeEntry)
    (s : Session Exporter) : Ending × Exporter :=
  if maxBufferBytes < a.chunk then (.aborted a.chunk, s.sink)
  else
    match entry with
    | .directory => (.failed (.fileSystem a.target "read" .isDirectory), s.sink)
    | .file content =>
      match readFrom a.frames a.chunk hchunk s (streamOf content a.skip) with
      | (.error e, s) => (.failed e, s.sink)
      | (.ok (), s) =>
        match s.sink.finish with
        | (.error e, sink) => (.failed e, sink)
        | (.ok (), sink) => (.exported sink.exported, sink)

/-- The patterns that the arguments ask for, registered, with what is reported of it. -/
def registerPatterns (a : Arguments) (c : Channel) : Channel × List LogLine :=
  match a.pattern with
  | none => (c, [])
  | some text =>
    let r := c.addPatterns text
    (r.channel, r.rejected.map LogLine.ofRejectedPattern ++
      [⟨.info, s!"{r.added} patterns registered"⟩])

/-- The file to read, at the right offset, and the session that is to be fed. -/
def prepare (encoder : Encoder) (a : Arguments) (v : Volume) :
    Except Error (VolumeEntry × Session Exporter × List LogLine) := do
  let entry ← (v.openEntry a.target).mapError (.fileSystem a.target "open")
  if maxOffset < a.skip then throw (.fileSystem a.target "seek" .invalidArgument)
  match Path.fileStem? a.target with
  | none => throw (.path "Target has no file name")
  | some stem =>
    let sink := Exporter.fresh encoder a.outputDirectory stem a.gif v
    let s ← Session.start sink a.channelConfig
    let (channel, log) := registerPatterns a (s.channel.setOffset a.skip)
    return (entry, ⟨channel, sink⟩, log)

/-- Reads the file that the arguments name and exports its frames. -/
def run (encoder : Encoder) (a : Arguments) (v : Volume) : Outcome :=
  if hchunk : 0 < a.chunk then
    match prepare encoder a v with
    | .error e => ⟨.failed e, v, []⟩
    | .ok (entry, s, log) =>
      let (ending, sink) := exportFrom a hchunk entry s
      let written := match ending with
        | .exported frames => [⟨.info, s!"{frames} frames written to {a.outputDirectory}"⟩]
        | .failed _ | .aborted _ => []
      ⟨ending, sink.volume, log ++ sink.log.toList ++ written⟩
  else
    ⟨.failed (.invalidParameter "chunk" (toString a.chunk) .notPositive), v, []⟩

end Sensor

end Bytescope
