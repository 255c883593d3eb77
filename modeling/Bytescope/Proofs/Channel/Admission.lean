import Bytescope.Proofs.Channel.Change
import Bytescope.Proofs.Curve.Bijection

/-!
# The sides that are granted

Buffers are granted for every side within the limits of a window, except that the curve asks for
a power of two. Nothing else about a request can make it fail, so a side and a mapping decide
alone whether a channel can be built and rebuilt.

## Main definitions

* `Mapping.Admits`: the sides that are granted under a mapping.
* `Channel.fresh`: a channel that has done nothing yet.

## Main results

* `Channel.exists_build_iff`, `Channel.exists_rebuild_iff`: when a channel is built and rebuilt.
-/

namespace Bytescope

theorem isPowerOfTwo_iff {side : ℕ} : isPowerOfTwo side = true ↔ ∃ k, side = 2 ^ k := by
  constructor
  · intro h
    exact ⟨Curve.level side, (Curve.two_pow_level h).symm⟩
  · rintro ⟨k, rfl⟩
    simp [isPowerOfTwo, Nat.one_shiftLeft]

/-- The sides that are granted under a mapping. -/
structure Mapping.Admits (mapping : Mapping) (side : ℕ) : Prop where
  one_le : 1 ≤ side
  le_max : side ≤ maxWindowSide
  two_pow : mapping = .curve → ∃ k, side = 2 ^ k

section Layouts

variable {mapping : Mapping} {side : ℕ} {layout : Layout}

/-- Within the limits of a window only the curve refuses a side, and only one that is not a power
of two. -/
theorem Layout.exists_build_iff (h : side ≤ maxWindowSide) :
    (∃ layout, Layout.build mapping side = .ok layout) ↔
      (mapping = .curve → ∃ k, side = 2 ^ k) := by
  simp only [build_eq_ok_iff]
  cases mapping with
  | raster => simp [buildTable?]
  | tuple => simp [buildTable?]
  | curve =>
    rw [buildTable?, CurveTable.build_eq, ← isPowerOfTwo_iff]
    by_cases hpower : isPowerOfTwo side = true
    · simp [hpower, h, Except.map]
    · simp [hpower, Except.map]

theorem Layout.Valid.admits (h : layout.Valid) : layout.mapping.Admits layout.side where
  one_le := h.side_pos
  le_max := h.side_le
  two_pow := (Layout.exists_build_iff h.side_le).mp ⟨layout, h.build_eq⟩

theorem Mapping.Admits.exists_layout (h : mapping.Admits side) :
    ∃ layout : Layout, layout.Valid ∧ layout.side = side ∧ layout.mapping = mapping := by
  obtain ⟨layout, hbuild⟩ := (Layout.exists_build_iff h.le_max).mpr h.two_pow
  obtain ⟨rfl, rfl⟩ := Layout.side_eq_of_build hbuild
  exact ⟨layout, ⟨h.one_le, h.le_max, hbuild⟩, rfl, rfl⟩

end Layouts

namespace Channel

variable {c : Channel} {side : ℕ} {mapping : Mapping} {packing : Packing} {config : ChannelConfig}

/-- A channel is rebuilt exactly for the sides that are granted. -/
theorem exists_rebuild_iff :
    (∃ d, c.rebuild side mapping packing = .ok d) ↔ mapping.Admits side := by
  simp only [rebuild_eq_ok_iff]
  constructor
  · rintro ⟨-, layout, hvalid, rfl, rfl, -⟩
    exact hvalid.admits
  · intro h
    obtain ⟨layout, hvalid, hside, hmapping⟩ := h.exists_layout
    exact ⟨_, layout, hvalid, hside, hmapping, rfl⟩

/-- The fresh channel with a layout. -/
def fresh (config : ChannelConfig) (layout : Layout) : Channel where
  clock := config.clock
  packing := config.packing
  opacity := config.opacity
  side := config.side
  footprint := config.packing.footprint config.mapping
  layout := layout
  window := (Buffers.ofLayout layout config.packing).window
  alpha := (Buffers.ofLayout layout config.packing).alpha
  histogram := .empty
  patterns := .empty
  raster := (Buffers.ofLayout layout config.packing).raster
  processed := 0
  processedAtFrame := 0
  frames := 0
  unannounced := true

theorem build_eq_ok_iff :
    build config = .ok c ↔
      ∃ layout : Layout, layout.Valid ∧ layout.side = config.side ∧
        layout.mapping = config.mapping ∧ c = fresh config layout := by
  rw [build, bind_eq_ok_iff]
  constructor
  · rintro ⟨buffers, hbuffers, hc⟩
    obtain ⟨layout, hvalid, hside, hmapping, rfl⟩ := Buffers.allocate_eq_ok_iff.mp hbuffers
    exact ⟨layout, hvalid, hside, hmapping, (Except.ok.inj hc).symm⟩
  · rintro ⟨layout, hvalid, hside, hmapping, rfl⟩
    exact ⟨_, Buffers.allocate_eq_ok_iff.mpr ⟨layout, hvalid, hside, hmapping, rfl⟩, rfl⟩

/-- A channel is built exactly for the sides that are granted. -/
theorem exists_build_iff : (∃ c, build config = .ok c) ↔ config.mapping.Admits config.side := by
  simp only [build_eq_ok_iff]
  constructor
  · rintro ⟨-, layout, hvalid, hside, hmapping, -⟩
    exact hside ▸ hmapping ▸ hvalid.admits
  · intro h
    obtain ⟨layout, hvalid, hside, hmapping⟩ := h.exists_layout
    exact ⟨_, layout, hvalid, hside, hmapping, rfl⟩

end Channel

end Bytescope
