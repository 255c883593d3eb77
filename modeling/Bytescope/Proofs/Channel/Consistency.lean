import Bytescope.Proofs.Channel.Admission
import Bytescope.Proofs.Channel.WellFormed
import Bytescope.Sink.Transcript

/-!
# What holds of every channel

The parts of a channel are changed by many operations, some of which are refused half-way, and by
frames that the receiver may refuse. They always fit together: the buffers have the lengths that
side, mapping and packing ask for, the layout is the one that is built for the mapping and the
side, with a table exactly for the curve, and full opacity is full everywhere.

## Main definitions

* `Channel.Consistent`: the parts of a channel fit together.

## Main results

* `Session.consistent_of_run`: every channel that can be reached is consistent.
-/

namespace Bytescope

namespace Channel

/-- The parts of a channel fit together. -/
structure Consistent (c : Channel) : Prop where
  one_le_side : 1 ≤ c.side
  side_le : c.side ≤ 4096
  footprint_eq : c.footprint = c.packing.footprint c.mapping
  size_window : c.window.size = c.side ^ 2 * c.footprint
  fill_lt : c.window.fill < c.window.size
  size_alpha : c.alpha.size = c.side ^ 2
  side_raster : c.raster.side = c.side
  size_pixels : c.raster.pixels.size = c.side ^ 2
  build_layout : Layout.build c.mapping c.side = .ok c.layout
  isSome_table : c.layout.table?.isSome = true ↔ c.mapping = .curve
  two_pow : c.mapping = .curve → ∃ k, c.side = 2 ^ k
  size_table : ∀ table, c.layout.table? = some table → table.size = c.side ^ 2
  point_table : ∀ table, c.layout.table? = some table →
    ∀ index < c.side ^ 2, table.point? index = some (Curve.point c.side index)
  alpha_eq : c.opacity = .constant → ∀ alpha ∈ c.alpha, alpha = 255
  bytes_pos : ∀ tracker ∈ c.patterns.trackers, 0 < tracker.pattern.size
  progress_lt : ∀ tracker ∈ c.patterns.trackers, tracker.progress < tracker.pattern.size

/-- The table of a channel was built for its side, and it shows along the curve. -/
theorem WellFormed.build_table {c : Channel} (h : c.WellFormed) {table : CurveTable}
    (htable : c.layout.table? = some table) : CurveTable.build c.side = .ok table := by
  have hcurve : c.mapping = .curve := by
    rw [← Layout.isSome_table?_of_build h.build_layout, htable]
    rfl
  have hbuild := h.build_layout
  rw [hcurve, Layout.build_curve_eq_ok_iff] at hbuild
  obtain ⟨built, hbuilt, hlayout⟩ := hbuild
  rw [hlayout] at htable
  rwa [Option.some.inj htable] at hbuilt

theorem WellFormed.consistent {c : Channel} (h : c.WellFormed) : c.Consistent where
  one_le_side := h.side_pos
  side_le := h.side_le
  footprint_eq := h.footprint_eq
  size_window := by rw [h.size_window, sq]
  fill_lt := h.fill_lt
  size_alpha := by rw [h.size_alpha, sq]
  side_raster := h.side_raster
  size_pixels := by rw [c.raster.size_pixels, h.side_raster, sq]
  build_layout := h.build_layout
  isSome_table := Layout.isSome_table?_of_build h.build_layout
  two_pow := h.admits.two_pow
  size_table table htable := by
    rw [CurveTable.size_of_build (h.build_table htable), sq]
  point_table table htable index hindex := by
    rw [CurveTable.point?_of_build (h.build_table htable), if_pos (sq c.side ▸ hindex)]
  alpha_eq hconstant alpha hmem := by
    rw [h.alpha_eq hconstant, Array.mem_replicate] at hmem
    exact hmem.2
  bytes_pos tracker _ := tracker.pattern.bytes_pos
  progress_lt tracker _ := tracker.progress_lt

end Channel

namespace Session

variable {σ : Type} [FrameSink σ] {config : ChannelConfig}

/-- **Channels stay consistent.** A channel can be built for every side that is granted. Whatever
is then done with it, whether it is carried out, refused, or a frame of it is refused by the
receiver, its parts fit together. -/
theorem consistent_of_run (h : config.mapping.Admits config.side) (sink : σ) :
    ∃ s, start sink config = .ok s ∧
      ∀ operations, (s.run operations).channel.Consistent := by
  obtain ⟨c, hbuild⟩ := Channel.exists_build_iff.mpr h
  have hstart : start sink config = .ok ⟨c, sink⟩ := by
    rw [start, hbuild]
    rfl
  exact ⟨_, hstart, fun operations => (wellFormed_run hstart operations).consistent⟩

/-- A frame along the curve is refused, then a side that is not a power of two, an unknown
selector and an empty pattern. -/
theorem consistent_of_run_refusals :
    Mapping.curve.Admits 2 ∧
      ∃ s, start (Transcript.expecting [false]) { side := 2, mapping := .curve } = .ok s ∧
        (s.run [.forceStep, .resize 3, .consume 13, .addPattern #[] 1 1 ⟨true, true⟩,
          .apply (.packing .tight)]).channel.Consistent := by
  let config : ChannelConfig := { side := 2, mapping := .curve }
  have hadmits : config.mapping.Admits config.side := ⟨by decide, by decide, fun _ => ⟨1, rfl⟩⟩
  obtain ⟨s, hstart, hconsistent⟩ := consistent_of_run hadmits (Transcript.expecting [false])
  exact ⟨hadmits, s, hstart, hconsistent _⟩

end Session

end Bytescope
