import Bytescope.Pattern.Basic

/-!
# Painting the occurrences of patterns

A scan reads a window from its first byte to its last and looks for all patterns of a set at
once. Byte `p` belongs to the sample `p / footprint`. A sample gets the running default when
its first byte is read; an occurrence then paints all samples that its bytes touch, and may
change the running default.

## Main definitions

* `PatternSet`: the patterns in the order in which they were registered.
* `MatchCount`: how often a pattern occurred.
* `PatternSet.scan`: one scan, with its opacities and counts.
-/

namespace Bytescope

/-- Patterns in the order in which they were registered. -/
structure PatternSet where
  /-- The patterns, each with what matches of it so far. -/
  trackers : List Tracker

/-- How often a pattern occurred. -/
structure MatchCount where
  /-- The pattern's identifier. -/
  id : Nat
  /-- Number of its occurrences. -/
  count : Nat
  deriving DecidableEq, Repr

/-- A pattern during a scan. -/
structure Hunt where
  /-- What matches of it so far. -/
  tracker : Tracker
  /-- Occurrences counted so far. -/
  matched : Nat

namespace Hunt

/-- The pattern at the beginning of a scan. -/
def start (t : Tracker) : Hunt := ⟨Tracker.start t.pattern, 0⟩

/-- Counts an occurrence of a pattern whose occurrences are events. -/
def count (h : Hunt) : Hunt :=
  if h.tracker.pattern.flags.event then ⟨h.tracker, min (h.matched + 1) bucketLimit⟩ else h

/-- What the scan reports of the pattern: nothing if nothing was counted. -/
def report? (h : Hunt) : Option MatchCount :=
  if 0 < h.matched then some ⟨h.tracker.pattern.id, h.matched⟩ else none

end Hunt

/-- The opacities during a scan. -/
structure Paint where
  /-- One opacity for each sample. -/
  alpha : Array UInt8
  /-- The opacity that the next sample starts with. -/
  running : UInt8

namespace Paint

/-- Gives `count` samples from `first` on the same opacity. -/
def fill (alpha : Array UInt8) (first count : Nat) (value : UInt8) : Array UInt8 :=
  count.fold (fun i _ alpha => alpha.setIfInBounds (first + i) value) alpha

/-- Starts the sample whose first byte is at `position`. -/
def enter (paint : Paint) (footprint position : Nat) : Paint :=
  if position % footprint = 0 then
    ⟨paint.alpha.setIfInBounds (position / footprint) paint.running, paint.running⟩
  else paint

/-- Paints the occurrence of a pattern that ends at `position`, if all samples it touches have
an opacity. -/
def occur (paint : Paint) (footprint position : Nat) (p : Pattern) : Paint :=
  let first := (position + 1 - p.size) / footprint
  let last := position / footprint
  let alpha :=
    if last < paint.alpha.size then fill paint.alpha first (last + 1 - first) p.alpha
    else paint.alpha
  ⟨alpha, if p.flags.persist then p.alpha else paint.running⟩

end Paint

namespace PatternSet

/-- The set without patterns. -/
def empty : PatternSet := ⟨[]⟩

instance : Inhabited PatternSet := ⟨empty⟩

/-- Number of patterns. -/
def size (s : PatternSet) : Nat := s.trackers.length

/-- Whether there are no patterns. -/
def isEmpty (s : PatternSet) : Bool := s.trackers.isEmpty

/-- The patterns without what matches of them. -/
def patterns (s : PatternSet) : List Pattern := s.trackers.map Tracker.pattern

/-- Adds a pattern at the end. -/
def register (s : PatternSet) (p : Pattern) : PatternSet := ⟨s.trackers ++ [Tracker.start p]⟩

/-- Shows one byte to every pattern in turn. -/
def read (footprint position : Nat) (byte : UInt8) : List Hunt → Paint → List Hunt × Paint
  | [], paint => ([], paint)
  | hunt :: rest, paint =>
    match hunt.tracker.advance byte with
    | (tracker, true) =>
      let (rest, paint) := read footprint position byte rest
        (paint.occur footprint position tracker.pattern)
      (Hunt.count ⟨tracker, hunt.matched⟩ :: rest, paint)
    | (tracker, false) =>
      let (rest, paint) := read footprint position byte rest paint
      (⟨tracker, hunt.matched⟩ :: rest, paint)

/-- Shows the bytes from `position` on to every pattern. -/
def readFrom (footprint position : Nat) (hunts : List Hunt) (paint : Paint) :
    List UInt8 → List Hunt × Paint
  | [] => (hunts, paint)
  | byte :: rest =>
    let (hunts, paint) := read footprint position byte hunts (paint.enter footprint position)
    readFrom footprint (position + 1) hunts paint rest

/-- What a scan leaves. -/
structure Outcome where
  /-- The patterns, each with what matches of it at the end of the window. -/
  patterns : PatternSet
  /-- One opacity for each sample. -/
  alpha : Array UInt8
  /-- How often each pattern occurred, if it did and if its occurrences are events. -/
  counts : List MatchCount

/-- Reads a window, starting every pattern over. A footprint of zero counts as one. -/
def scan (s : PatternSet) (window : Array UInt8) (footprint : Nat) (alpha : Array UInt8) :
    Outcome :=
  let (hunts, paint) := readFrom (max footprint 1) 0 (s.trackers.map Hunt.start)
    ⟨alpha, opaqueAlpha⟩ window.toList
  ⟨⟨hunts.map Hunt.tracker⟩, paint.alpha, hunts.filterMap Hunt.report?⟩

end PatternSet

end Bytescope
