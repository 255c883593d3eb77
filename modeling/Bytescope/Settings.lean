/-!
# Fixed limits and defaults

The numbers that the whole library agrees on: window sizes, opacities, the counter and
buffer limits, and the spelling of exported file names.

## Main definitions

* `maxWindowSide`, `defaultWindowSide`: the sides of a channel's window.
* `opaqueAlpha`, `defaultPatternAlpha`: opacities.
* `maxBufferBytes`, `counterLimit`, `bucketLimit`: where requests are refused and counters
  stop.
-/

namespace Bytescope

/-- Side of the window when none is asked for. -/
def defaultWindowSide : Nat := 256

/-- Largest side a channel accepts. -/
def maxWindowSide : Nat := 4096

/-- Opacity of a sample that nothing makes transparent. -/
def opaqueAlpha : UInt8 := 0xFF

/-- Opacity painted by a pattern that was given no options. -/
def defaultPatternAlpha : UInt8 := 0x40

/-- Largest Shannon entropy of a byte, in bits. -/
def entropyBitsPerByte : Float := 8.0

/-- Bytes of each sample that carry its coordinates under the tuple mapping. -/
def tupleExtraBytes : Nat := 2

/-- Bytes read from a file at a time when nothing else is asked for. -/
def defaultChunkSize : Nat := 4096

/-- Frames exported from a file when no other limit is asked for. -/
def defaultMaxFrames : Nat := 64

/-- What stands between a file's stem and a frame's number. -/
def frameSuffix : String := "_frame"

/-- What follows a file's stem in the name of its animation. -/
def animationSuffix : String := "_frames.gif"

/-- Time for which each frame of an animation is shown, in milliseconds. -/
def gifFrameDelayMs : Nat := 100

/-- Width of a progress bar, in characters. -/
def progressBarWidth : Nat := 40

/-- Most bytes that one buffer may hold: half the values of a word, less one. -/
def maxBufferBytes : Nat := 0x7FFFFFFFFFFFFFFF

/-- Number of values a 64-bit word takes. -/
def wordSize : Nat := 0x10000000000000000

/-- Counters of bytes stop at this value. -/
def counterLimit : Nat := 0xFFFFFFFFFFFFFFFF

/-- Bucket and match counters stop at this value. -/
def bucketLimit : Nat := 0xFFFFFFFF

end Bytescope
