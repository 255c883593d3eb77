import Bytescope.Error
import Bytescope.Pattern.Borders
import Bytescope.Settings

/-!
# Patterns

A pattern is a nonempty sequence of bytes together with what happens where it occurs: the
opacity its occurrences get, and whether they are counted or change the opacity of what
follows. A tracker reads a stream byte by byte and tells where the pattern has just occurred;
after an occurrence it starts over, so that occurrences never overlap.

## Main definitions

* `PatternFlags`, `Pattern`, `Pattern.build`: patterns.
* `Tracker`, `Tracker.advance`: a pattern being looked for.
-/

namespace Bytescope

/-- What an occurrence does besides being painted. -/
structure PatternFlags where
  /-- Its opacity becomes that of the samples that follow. -/
  persist : Bool
  /-- It is counted, and the count is reported. -/
  event : Bool
  deriving DecidableEq, Repr

/-- A sequence of bytes to look for. -/
structure Pattern where
  /-- The bytes. -/
  bytes : Array UInt8
  /-- Opacity of its occurrences. -/
  alpha : UInt8
  /-- The identifier under which it is reported. -/
  id : Nat
  /-- What else its occurrences do. -/
  flags : PatternFlags
  /-- There is something to look for. -/
  bytes_pos : 0 < bytes.size
  /-- The border table, made once. -/
  borders : BorderTable
  /-- It belongs to these bytes. -/
  borders_eq : borders = BorderTable.ofBytes bytes

namespace Pattern

/-- Number of bytes. -/
def size (p : Pattern) : Nat := p.bytes.size

@[simp]
theorem size_borders (p : Pattern) : p.borders.lengths.size = p.size := by
  rw [p.borders_eq, BorderTable.size_ofBytes, size]

/-- A pattern of the given bytes, unless there are none. -/
def build (bytes : Array UInt8) (alpha : UInt8) (id : Nat) (flags : PatternFlags) :
    Except Error Pattern :=
  if h : 0 < bytes.size then
    .ok ⟨bytes, alpha, id, flags, h, BorderTable.ofBytes bytes, rfl⟩
  else .error (.invalidParameter "pattern" "<empty>" .emptyPattern)

end Pattern

/-- A pattern that is being looked for. -/
structure Tracker where
  /-- What is looked for. -/
  pattern : Pattern
  /-- How many of its bytes match so far. -/
  progress : Nat
  /-- They are not all of them. -/
  progress_lt : progress < pattern.size

namespace Tracker

/-- Starts looking. -/
def start (p : Pattern) : Tracker := ⟨p, 0, p.bytes_pos⟩

/-- Reads one byte. The second part tells whether an occurrence ends with it. -/
def advance (t : Tracker) (byte : UInt8) : Tracker × Bool :=
  let progress := t.pattern.borders.extend t.pattern.bytes byte t.progress
    (by rw [t.pattern.size_borders]; exact Nat.le_of_lt t.progress_lt)
  if h : progress < t.pattern.size then (⟨t.pattern, progress, h⟩, false)
  else (start t.pattern, true)

@[simp]
theorem pattern_advance (t : Tracker) (byte : UInt8) :
    (t.advance byte).1.pattern = t.pattern := by
  unfold advance
  dsimp only
  split <;> rfl

end Tracker

end Bytescope
