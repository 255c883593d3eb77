import Bytescope.Channel.Basic
import Bytescope.Sink.Basic

/-!
# Frames

A frame shows the window: every sample becomes a pixel at its cell. Making it also makes the
notices that go before it. Whether the receiver accepts the frame decides what the channel
remembers of it.

## Main definitions

* `Frame`: a picture with the notices that go before it.
* `Channel.render`: the samples of a window on a raster.
* `Channel.compose`: the frame of a channel's window.
* `Channel.settle`: the channel after the receiver's answer.
-/

namespace Bytescope

/-- A picture with the notices that go before it. -/
structure Frame where
  /-- What the receiver is told first, in order. -/
  notices : List Notice
  /-- The picture. -/
  raster : Raster

/-- The bytes of the sample at an offset. -/
def sampleAt (window : Array UInt8) (footprint offset : Nat) : List UInt8 :=
  (window.extract (offset * footprint) (offset * footprint + footprint)).toList

/-- Shows the sample at an offset, if it has a cell and makes a pixel. -/
def plot (layout : Layout) (packing : Packing) (footprint : Nat) (greys : ByteTable UInt8)
    (window alpha : Array UInt8) (raster : Raster) (offset : Nat) : Raster :=
  let sample := sampleAt window footprint offset
  match layout.locate offset sample with
  | none => raster
  | some p =>
    match packing.pack? (sample.drop layout.mapping.extraBytes)
        (alpha[offset]?.getD opaqueAlpha) greys with
    | none => raster
    | some pixel => raster.put p pixel

/-- Shows all samples of a window, in order. -/
def render (layout : Layout) (packing : Packing) (footprint : Nat) (greys : ByteTable UInt8)
    (window alpha : Array UInt8) (raster : Raster) : Raster :=
  (window.size / footprint).fold
    (fun offset _ raster => plot layout packing footprint greys window alpha raster offset) raster

namespace Channel

/-- The histogram of the window. Under the block clock the bytes were counted when they were
taken, and the count is used if it adds up to the length of the window. -/
def currentHistogram (c : Channel) : Histogram :=
  if c.clock = .slide ∨ c.histogram.total ≠ c.window.size then Histogram.ofBytes c.window.data
  else c.histogram

/-- The grey of each byte value, where the packing shows frequencies. -/
def greys (packing : Packing) (histogram : Histogram) : ByteTable UInt8 :=
  if packing = .histogramIntensity then histogram.intensities else ByteTable.uniform 0

/-- The frame of the window, and the channel that waits for the answer to it. -/
def compose (c : Channel) : Frame × Channel :=
  let histogram := c.currentHistogram
  let status := Notice.status (c.frames + 1) c.processed
    (unitEntropy (shannonEntropyWith c.window.data histogram))
  let stream :=
    if c.unannounced then [Notice.stream (streamCode c.packing c.mapping c.footprint)] else []
  let outcome := c.opacity.generate c.alpha c.window.data c.footprint c.side c.patterns
  let raster := render c.layout c.packing c.footprint (greys c.packing histogram) c.window.data
    outcome.alpha c.raster
  (⟨status :: stream ++ outcome.counts.map .matched, raster⟩,
    { c with
      histogram := histogram
      frames := c.frames + 1
      unannounced := false
      alpha := outcome.alpha
      patterns := outcome.patterns
      raster := raster })

/-- The channel after the receiver's answer. An accepted frame is remembered, and a mapping
that leaves cells uncovered starts the next one from an empty picture. -/
def settle (c : Channel) (accepted : Bool) : Channel :=
  if accepted then
    { c with
      processedAtFrame := c.processed
      raster := if c.mapping.isSparse then c.raster.clear Pixel.background else c.raster }
  else c

end Channel

end Bytescope
