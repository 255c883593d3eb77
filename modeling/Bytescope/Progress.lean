import Bytescope.Settings

/-!
# Progress of a feed

## Main definitions

* `FeedProgress`: how many bytes were fed and how many frames came of them.
-/

namespace Bytescope

/-- How far a feed has come. -/
structure FeedProgress where
  /-- Bytes fed so far, counted in 64-bit words. -/
  position : Nat
  /-- Frames made so far. -/
  frames : Nat
  /-- Bytes to feed in all, if that is shown. -/
  total : Option Nat
  deriving DecidableEq, Repr

namespace FeedProgress

/-- The beginning of a feed; without a total nothing is shown. -/
def start (total : Option Nat) : FeedProgress := ⟨0, 0, total⟩

/-- More bytes were fed. -/
def advance (p : FeedProgress) (bytes : Nat) : FeedProgress :=
  { p with position := (p.position + bytes) % wordSize }

/-- So many frames were made so far. -/
def setFrames (p : FeedProgress) (frames : Nat) : FeedProgress := { p with frames := frames }

/-- The feed is over: a total counts as reached. -/
def finish (p : FeedProgress) : FeedProgress :=
  { p with position := p.total.getD p.position }

end FeedProgress

end Bytescope
