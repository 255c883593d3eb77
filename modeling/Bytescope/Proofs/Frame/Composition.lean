import Bytescope.Proofs.Frame.Dense
import Bytescope.Proofs.Frame.Leftovers

/-!
# Frames made from nothing

A frame that covers the picture, or starts from an empty one, depends on its scene alone, apart
from its number, the bytes processed by then and whether its code is announced. So two channels
that come to the same scene in different ways make the same frame of it.

## Main definitions

* `Scene.frame`: the frame of a scene, made from nothing.

## Main results

* `Channel.WellFormed.fst_compose`: the frame of a channel is that of its scene.
-/

namespace Bytescope

@[simp] theorem Opacity.patterns_generate (mode : Opacity) (alpha window : Array UInt8)
    (footprint block : ℕ) (patterns : PatternSet) :
    (mode.generate alpha window footprint block patterns).patterns.patterns =
      patterns.patterns := by
  cases mode with
  | constant => rfl
  | entropy => rfl
  | pattern =>
    rw [generate]
    split_ifs
    · rfl
    · exact PatternSet.patterns_scan ..

namespace Scene

variable (s : Scene)

/-- How often the patterns occur, if the opacity comes from them. -/
def found : List MatchCount :=
  if s.opacity = .pattern then s.freshPatterns.tally s.window.toList else []

/-- The frame with this number, made when so many bytes had been processed. -/
def frame (number processed : ℕ) (announced : Bool) : Frame where
  notices := .status number processed (unitEntropy (shannonEntropy s.window)) ::
    (if announced then [.stream (streamCode s.packing s.mapping s.footprint)] else []) ++
      s.found.map .matched
  raster := s.picture

end Scene

namespace Channel

variable {c : Channel}

/-- What is reported of the patterns does not depend on what was read before. -/
theorem WellFormed.counts_generate (h : c.WellFormed) :
    (c.opacity.generate c.alpha c.window.data c.footprint c.side c.patterns).counts =
      c.scene.found := by
  have hopacity : c.scene.opacity = c.opacity := rfl
  rw [Scene.found, hopacity]
  cases c.opacity with
  | constant => rfl
  | entropy => rfl
  | pattern =>
    have htally : c.scene.freshPatterns.tally c.window.data.toList =
        c.patterns.tally c.window.data.toList := by
      rw [PatternSet.tally, patterns_freshPatterns, PatternSet.tally]
    have hsize : c.window.data.size ≤ bucketLimit := by
      have hlimit := h.three_mul_size_lt
      rw [Window.size] at hlimit
      omega
    rw [if_pos rfl, Opacity.generate]
    refine Eq.trans ?_ htally.symm
    by_cases hempty : c.patterns.isEmpty = true
    · rw [if_pos hempty, PatternSet.tally, PatternSet.patterns, List.isEmpty_iff.mp hempty]
      rfl
    · rw [if_neg hempty, PatternSet.counts_scan_of_size_le _ hsize]

/-- Where the picture is covered or empty, a frame is the picture of its scene. -/
theorem WellFormed.raster_compose_of_blank (h : c.WellFormed) (hcoherent : c.DueCoherent)
    (hblank : c.mapping.isSparse = true → c.Blank) : c.compose.1.raster = c.scene.picture := by
  cases hsparse : c.mapping.isSparse with
  | false => exact h.raster_compose hcoherent hsparse
  | true =>
    refine Raster.ext_pixel? h.compose.side_raster fun q hq => ?_
    have hgrid : q.OnGrid c.side := h.compose.side_raster ▸ hq
    rw [h.pixel?_compose_of_bears hcoherent (hblank hsparse).bears hgrid,
      c.scene.pixel?_picture hgrid, seen_cons, seen_nil]

/-- **Frames made from nothing.** The frame of a channel is that of its scene. -/
theorem WellFormed.fst_compose (h : c.WellFormed) (hcoherent : c.DueCoherent)
    (hblank : c.mapping.isSparse = true → c.Blank) :
    c.compose.1 = c.scene.frame (c.frames + 1) c.processed c.unannounced := by
  have hstatus : shannonEntropyWith c.window.data c.currentHistogram =
      shannonEntropy c.scene.window := by
    rw [hcoherent.currentHistogram_eq h]
    rfl
  have hnotices : c.compose.1.notices =
      (c.scene.frame (c.frames + 1) c.processed c.unannounced).notices := by
    rw [Channel.compose, Scene.frame]
    dsimp only
    rw [hstatus, h.counts_generate, h.footprint_scene]
    rfl
  exact congrArg₂ Frame.mk hnotices (h.raster_compose_of_blank hcoherent hblank)

end Channel

end Bytescope
