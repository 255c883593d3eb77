import Bytescope.Command
import Bytescope.Log
import Bytescope.Pattern.Specification
import Bytescope.Raster

/-!
# Channels

A channel takes a stream of bytes and makes a frame of every window. It holds the window, the
opacity of each sample, the layout and the raster, which all belong to one side and are made
together, and the counters and modes around them. The side itself and the length of a sample are
kept beside them, and every change has to set what belongs together.

## Main definitions

* `ChannelConfig`, `Channel`, `Channel.build`: a channel and how it starts.
* `Channel.absorb`: one intake.
* `Channel.rebuild`: new buffers for another side, mapping or packing.
* `Channel.resize`, `Channel.switchPacking`, `Channel.switchOpacity`, `Channel.switchClock`,
  `Channel.addPattern`, `Channel.addPatterns`: changes that make no frame.
-/

namespace Bytescope

/-- How a channel starts. -/
structure ChannelConfig where
  /-- Side of the window, in samples. -/
  side : Nat := defaultWindowSide
  /-- When a frame is due. -/
  clock : Clock := .block
  /-- Where samples are shown. -/
  mapping : Mapping := .raster
  /-- How samples become pixels. -/
  packing : Packing := .intensity
  /-- Where opacity comes from. -/
  opacity : Opacity := .entropy
  deriving DecidableEq, Repr

/-- The buffers that belong to one side, mapping and packing. -/
structure Buffers where
  layout : Layout
  window : Window
  alpha : Array UInt8
  raster : Raster

/-- Fresh buffers: a zero window, full opacity and an empty picture. -/
def Buffers.allocate (side : Nat) (mapping : Mapping) (packing : Packing) :
    Except Error Buffers := do
  if side = 0 ∨ maxWindowSide < side then throw (.side side (.sideOutOfRange maxWindowSide))
  let cells ← product side side
  let layout ← Layout.build mapping side
  let length ← product cells (packing.footprint mapping)
  let window ← Window.build length
  let alpha ← filled "alpha buffer" 1 cells opaqueAlpha
  let raster ← Raster.build side Pixel.background
  return { layout, window, alpha, raster }

/-- A channel that turns a stream of bytes into frames. -/
structure Channel where
  /-- When a frame is due. -/
  clock : Clock
  /-- How samples become pixels. -/
  packing : Packing
  /-- Where opacity comes from. -/
  opacity : Opacity
  /-- Side of the window, in samples. -/
  side : Nat
  /-- Bytes of one sample. -/
  footprint : Nat
  /-- Where samples are shown. -/
  layout : Layout
  /-- The bytes of the next frame. -/
  window : Window
  /-- The opacity of each sample. -/
  alpha : Array UInt8
  /-- The bytes counted so far. -/
  histogram : Histogram
  /-- The patterns to look for. -/
  patterns : PatternSet
  /-- The picture. -/
  raster : Raster
  /-- Bytes processed so far. -/
  processed : Nat
  /-- Bytes processed when the last frame was accepted. -/
  processedAtFrame : Nat
  /-- Frames made so far. -/
  frames : Nat
  /-- Whether the receiver still has to be told how frames are made. -/
  unannounced : Bool

namespace Channel

/-- A fresh channel. -/
def build (config : ChannelConfig) : Except Error Channel := do
  let buffers ← Buffers.allocate config.side config.mapping config.packing
  return {
    clock := config.clock
    packing := config.packing
    opacity := config.opacity
    side := config.side
    footprint := config.packing.footprint config.mapping
    layout := buffers.layout
    window := buffers.window
    alpha := buffers.alpha
    histogram := .empty
    patterns := .empty
    raster := buffers.raster
    processed := 0
    processedAtFrame := 0
    frames := 0
    unannounced := true }

/-- How samples find their cells. -/
def mapping (c : Channel) : Mapping := c.layout.mapping

/-- Bytes of one row of samples. -/
def rowStride (c : Channel) : Nat := c.footprint * c.side

/-- Bytes the window can take before it is full. -/
def remaining (c : Channel) : Nat := c.window.remaining

/-- Takes bytes from the front of a chunk into the window and counts them. -/
def absorb (c : Channel) (chunk : List UInt8) : Channel × Intake :=
  let (window, intake) := c.window.ingest c.clock chunk
  ({ c with
      window := window
      histogram := c.histogram.absorbAll intake.taken
      processed := min (c.processed + intake.taken.length) counterLimit }, intake)

/-- Starts the count of bytes over. -/
def restartCount (c : Channel) : Channel := { c with histogram := .empty }

/-- New buffers for a side, a mapping and a packing. Everything is made before anything is
replaced. -/
def rebuild (c : Channel) (side : Nat) (mapping : Mapping) (packing : Packing) :
    Except Error Channel := do
  let buffers ← Buffers.allocate side mapping packing
  return { c with
    packing := packing
    side := side
    footprint := packing.footprint mapping
    layout := buffers.layout
    window := buffers.window
    alpha := buffers.alpha
    histogram := .empty
    raster := buffers.raster
    unannounced := true }

/-- A window of another side. -/
def resize (c : Channel) (side : Nat) : Except Error Channel :=
  c.rebuild side c.mapping c.packing

/-- Another packing. The buffers stay if the samples keep their length. -/
def switchPacking (c : Channel) (packing : Packing) : Except Error Channel :=
  if c.window.size = c.side * c.side * packing.footprint c.mapping then
    .ok { c with
      packing := packing
      footprint := packing.footprint c.mapping
      unannounced := true }
  else c.rebuild c.side c.mapping packing

/-- Another mapping, before the frame that shows it. The window stays if the samples keep their
length, and a mapping that leaves cells uncovered starts from an empty picture. -/
def switchLayout (c : Channel) (mapping : Mapping) : Except Error Channel := do
  let c ←
    if c.packing.footprint mapping = c.footprint then
      (fun layout => { c with layout := layout }) <$> Layout.build mapping c.side
    else c.rebuild c.side mapping c.packing
  let raster := if mapping.isSparse then c.raster.clear Pixel.background else c.raster
  return { c with raster := raster, unannounced := true }

/-- Another source of opacity. Full opacity is written at once. -/
def switchOpacity (c : Channel) (opacity : Opacity) : Channel :=
  { c with
    opacity := opacity
    alpha := if opacity = .constant then Opacity.full c.alpha else c.alpha }

/-- Another clock. -/
def switchClock (c : Channel) (clock : Clock) : Channel := { c with clock := clock }

/-- Sets the number of bytes processed, as after a jump in the stream. -/
def setOffset (c : Channel) (offset : Nat) : Channel := { c with processed := offset }

/-- Registers a pattern, unless it is empty. -/
def addPattern (c : Channel) (bytes : Array UInt8) (alpha : UInt8) (id : Nat)
    (flags : PatternFlags) : Except Error Channel := do
  let pattern ← Pattern.build bytes alpha id flags
  return { c with patterns := c.patterns.register pattern }

/-- What a pattern text did to a channel. -/
structure Registration where
  /-- The channel with the patterns that could be read. -/
  channel : Channel
  /-- How many there were. -/
  added : Nat
  /-- Why the other ones were refused. -/
  rejected : List Error

/-- Registers one entry, if it was read. -/
def register (r : Registration) (entry : Except Error PatternEntry) : Registration :=
  let registered := do
    let entry ← entry
    r.channel.addPattern entry.bytes.toArray entry.alpha entry.id entry.flags
  match registered with
  | .ok channel => { r with channel := channel, added := r.added + 1 }
  | .error e => { r with rejected := r.rejected ++ [e] }

/-- Registers every entry of a pattern text that can be read. -/
def addPatterns (c : Channel) (text : String) : Registration :=
  (Specification.read text).foldl register ⟨c, 0, []⟩

end Channel

end Bytescope
