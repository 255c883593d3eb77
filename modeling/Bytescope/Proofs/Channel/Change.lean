import Bytescope.Channel.Basic
import Bytescope.Proofs.Curve.Bijection
import Bytescope.Proofs.Sizes.Rasters

/-!
# The ways a channel changes between frames

Apart from intakes, an operation changes a channel in one of a few ways before any frame is made.
They are listed here once, with what each of them guarantees, so that an invariant of channels
is shown for each way and not for each operation.

## Main definitions

* `Layout.Valid`: the layouts that a channel can have.
* `Channel.renew`, `Channel.relayout`: a channel with fresh buffers, and with another layout over
  the same window.
* `Channel.Change`: the ways a channel changes.

## Main results

* `Buffers.allocate_eq_ok_iff`, `Channel.rebuild_eq_ok_iff`: when buffers are granted, and what
  they are.
* `Channel.Change.of_switchLayout` and its likes: every operation is one of the ways.
-/

namespace Bytescope

/-! ### Buffers -/

/-- A layout that a channel can have: it was built for its mapping and side, and the side is
within the limits of a window. -/
structure Layout.Valid (layout : Layout) : Prop where
  side_pos : 0 < layout.side
  side_le : layout.side ≤ maxWindowSide
  build_eq : Layout.build layout.mapping layout.side = .ok layout

/-- Fresh buffers for a layout and a packing. -/
def Buffers.ofLayout (layout : Layout) (packing : Packing) : Buffers where
  layout := layout
  window := .zeroed (layout.side * layout.side * packing.footprint layout.mapping)
  alpha := Array.replicate (layout.side * layout.side) opaqueAlpha
  raster := .uniform layout.side Pixel.background

theorem Packing.footprint_pos (packing : Packing) (mapping : Mapping) :
    0 < packing.footprint mapping := by
  cases packing <;> exact Nat.add_pos_left (by decide) _

theorem Packing.footprint_le (packing : Packing) (mapping : Mapping) :
    packing.footprint mapping ≤ 6 := by
  cases packing <;> cases mapping <;> decide

/-- A window that a channel can have is far from the limits of buffers and counters. -/
theorem windowSize_le {side : ℕ} (hside : side ≤ maxWindowSide) (packing : Packing)
    (mapping : Mapping) :
    side * side * packing.footprint mapping ≤ maxWindowSide * maxWindowSide * 6 :=
  Nat.mul_le_mul (Nat.mul_le_mul hside hside) (packing.footprint_le mapping)

/-- Buffers are granted for every layout that a channel can have. -/
theorem Buffers.allocate_of_valid {layout : Layout} (h : layout.Valid) (packing : Packing) :
    Buffers.allocate layout.side layout.mapping packing = .ok (.ofLayout layout packing) := by
  have hrange : ¬ (layout.side = 0 ∨ maxWindowSide < layout.side) :=
    not_or.mpr ⟨Nat.ne_of_gt h.side_pos, Nat.not_lt.mpr h.side_le⟩
  have hfoot := packing.footprint_le layout.mapping
  have hbytes : layout.side * layout.side * 4 ≤ maxBufferBytes :=
    Nat.le_trans (Nat.mul_le_mul_right 4 (Nat.mul_le_mul h.side_le h.side_le)) (by decide)
  have halpha : filled "alpha buffer" 1 (layout.side * layout.side) opaqueAlpha =
      .ok (Array.replicate (layout.side * layout.side) opaqueAlpha) :=
    filled_eq_ok_iff.mpr ⟨by omega, rfl⟩
  have hwindow : Window.build (layout.side * layout.side * packing.footprint layout.mapping) =
      .ok (.zeroed (layout.side * layout.side * packing.footprint layout.mapping)) := by
    rw [Window.build, reserve_cells _ h.side_le hfoot (by decide)]
    rfl
  rw [Buffers.allocate, if_neg hrange, product_side h.side_le, h.build_eq]
  dsimp only [bind, Except.bind]
  rw [product_cells h.side_le hfoot]
  dsimp only
  rw [hwindow, halpha, Raster.build_eq_ok_iff.mpr ⟨hbytes, rfl⟩]
  rfl

/-- A layout that is refused is the reason why the buffers are. -/
theorem Buffers.allocate_of_layout_error {side : ℕ} {mapping : Mapping} {packing : Packing}
    {e : Error} (hside : side ≠ 0 ∧ side ≤ maxWindowSide)
    (h : Layout.build mapping side = .error e) :
    Buffers.allocate side mapping packing = .error e := by
  rw [Buffers.allocate, if_neg (by omega), product_side hside.2, h]
  rfl

/-- The layout alone decides whether buffers are granted. -/
theorem Buffers.allocate_eq_ok_iff {side : ℕ} {mapping : Mapping} {packing : Packing}
    {buffers : Buffers} :
    Buffers.allocate side mapping packing = .ok buffers ↔
      ∃ layout : Layout, layout.Valid ∧ layout.side = side ∧ layout.mapping = mapping ∧
        buffers = .ofLayout layout packing := by
  constructor
  · intro h
    by_cases hside : side = 0 ∨ maxWindowSide < side
    · rw [Buffers.allocate, if_pos hside] at h
      cases h
    cases hbuild : Layout.build mapping side with
    | error e =>
      rw [Buffers.allocate_of_layout_error (by omega) hbuild] at h
      cases h
    | ok layout =>
      obtain ⟨rfl, rfl⟩ := Layout.side_eq_of_build hbuild
      have hvalid : layout.Valid := ⟨by omega, by omega, hbuild⟩
      rw [Buffers.allocate_of_valid hvalid] at h
      exact ⟨layout, hvalid, rfl, rfl, (Except.ok.inj h).symm⟩
  · rintro ⟨layout, hvalid, rfl, rfl, rfl⟩
    exact Buffers.allocate_of_valid hvalid packing

/-- Buffers are refused for their side and for nothing else: no product of it is too large for a
word, and no buffer is too large. -/
theorem Buffers.allocate_eq_error {side : ℕ} {mapping : Mapping} {packing : Packing} {e : Error}
    (h : Buffers.allocate side mapping packing = .error e) : ∃ fault, e = .side side fault := by
  by_cases hside : side = 0 ∨ maxWindowSide < side
  · rw [Buffers.allocate, if_pos hside] at h
    exact ⟨_, (Except.error.inj h).symm⟩
  cases hbuild : Layout.build mapping side with
  | error fault =>
    rw [Buffers.allocate_of_layout_error (by omega) hbuild] at h
    obtain rfl := Except.error.inj h
    exact Layout.build_eq_error hbuild
  | ok layout =>
    obtain ⟨rfl, rfl⟩ := Layout.side_eq_of_build hbuild
    rw [Buffers.allocate_of_valid ⟨by omega, by omega, hbuild⟩] at h
    cases h

namespace Channel

/-! ### The changes -/

/-- The channel with fresh buffers for a layout and a packing. -/
def renew (c : Channel) (layout : Layout) (packing : Packing) : Channel :=
  let buffers := Buffers.ofLayout layout packing
  { c with
    packing := packing
    side := layout.side
    footprint := packing.footprint layout.mapping
    layout := buffers.layout
    window := buffers.window
    alpha := buffers.alpha
    histogram := .empty
    raster := buffers.raster
    unannounced := true }

/-- The channel with another layout over the same window. -/
def relayout (c : Channel) (layout : Layout) : Channel :=
  { c with
    layout := layout
    raster := if layout.mapping.isSparse then c.raster.clear Pixel.background else c.raster
    unannounced := true }

/-- The channel with another packing over the same window. -/
def repack (c : Channel) (packing : Packing) : Channel :=
  { c with
    packing := packing
    footprint := packing.footprint c.mapping
    unannounced := true }

/-- The ways a channel changes between frames, apart from intakes. -/
inductive Change (c : Channel) : Channel → Prop
  | keep : Change c c
  | renew {layout : Layout} (h : layout.Valid) (packing : Packing) :
      Change c (c.renew layout packing)
  | relayout {layout : Layout} (h : Layout.build layout.mapping c.side = .ok layout)
      (hfoot : c.packing.footprint layout.mapping = c.footprint) : Change c (c.relayout layout)
  | repack {packing : Packing}
      (hsize : c.window.size = c.side * c.side * packing.footprint c.mapping) :
      Change c (c.repack packing)
  | opacity (mode : Opacity) : Change c (c.switchOpacity mode)
  | clock (mode : Clock) : Change c (c.switchClock mode)
  | offset (offset : ℕ) : Change c (c.setOffset offset)
  | patterns (s : PatternSet) : Change c { c with patterns := s }

variable {c d : Channel}

theorem rebuild_eq_ok_iff {side : ℕ} {mapping : Mapping} {packing : Packing} :
    c.rebuild side mapping packing = .ok d ↔
      ∃ layout : Layout, layout.Valid ∧ layout.side = side ∧ layout.mapping = mapping ∧
        d = c.renew layout packing := by
  rw [rebuild, bind_eq_ok_iff]
  constructor
  · rintro ⟨buffers, hbuffers, hd⟩
    obtain ⟨layout, hvalid, rfl, rfl, rfl⟩ := Buffers.allocate_eq_ok_iff.mp hbuffers
    exact ⟨layout, hvalid, rfl, rfl, (Except.ok.inj hd).symm⟩
  · rintro ⟨layout, hvalid, rfl, rfl, rfl⟩
    exact ⟨_, Buffers.allocate_of_valid hvalid packing, rfl⟩

theorem rebuild_eq_error {side : ℕ} {mapping : Mapping} {packing : Packing} {e : Error}
    (h : c.rebuild side mapping packing = .error e) : ∃ fault, e = .side side fault := by
  rw [rebuild, bind_eq_error_iff] at h
  obtain hbuffers | ⟨buffers, -, hrenewed⟩ := h
  · exact Buffers.allocate_eq_error hbuffers
  · cases hrenewed

/-- A fresh channel has fresh buffers. -/
theorem build_eq_ok {config : ChannelConfig} (h : build config = .ok c) :
    ∃ layout : Layout, layout.Valid ∧ c = c.renew layout config.packing := by
  rw [build, bind_eq_ok_iff] at h
  obtain ⟨buffers, hbuffers, hc⟩ := h
  obtain ⟨layout, hvalid, hside, hmapping, rfl⟩ := Buffers.allocate_eq_ok_iff.mp hbuffers
  obtain rfl := Except.ok.inj hc
  refine ⟨layout, hvalid, ?_⟩
  rw [renew, hside, hmapping]

theorem Change.of_rebuild {side : ℕ} {mapping : Mapping} {packing : Packing}
    (h : c.rebuild side mapping packing = .ok d) : Change c d := by
  obtain ⟨layout, hvalid, -, -, rfl⟩ := rebuild_eq_ok_iff.mp h
  exact .renew hvalid packing

theorem switchPacking_eq_ok {packing : Packing} (h : c.switchPacking packing = .ok d) :
    (c.window.size = c.side * c.side * packing.footprint c.mapping ∧ d = c.repack packing) ∨
      (c.window.size ≠ c.side * c.side * packing.footprint c.mapping ∧
        c.rebuild c.side c.mapping packing = .ok d) := by
  rw [switchPacking] at h
  split_ifs at h with hsize
  · exact Or.inl ⟨hsize, (Except.ok.inj h).symm⟩
  · exact Or.inr ⟨hsize, h⟩

theorem Change.of_switchPacking {packing : Packing} (h : c.switchPacking packing = .ok d) :
    Change c d := by
  rcases switchPacking_eq_ok h with ⟨hsize, rfl⟩ | ⟨-, hrebuild⟩
  · exact .repack hsize
  · exact .of_rebuild hrebuild

/-- Another mapping over the same window. -/
theorem switchLayout_of_footprint_eq {mapping : Mapping}
    (h : c.packing.footprint mapping = c.footprint) :
    c.switchLayout mapping = (Layout.build mapping c.side).map c.relayout := by
  rw [switchLayout, if_pos h]
  cases hbuild : Layout.build mapping c.side with
  | error e => rfl
  | ok layout =>
    obtain ⟨-, rfl⟩ := Layout.side_eq_of_build hbuild
    rfl

/-- Another mapping with fresh buffers. An empty picture is among them, so there it need not be
emptied. -/
theorem switchLayout_of_footprint_ne {mapping : Mapping}
    (h : c.packing.footprint mapping ≠ c.footprint) :
    c.switchLayout mapping = c.rebuild c.side mapping c.packing := by
  rw [switchLayout, if_neg h]
  cases hrebuild : c.rebuild c.side mapping c.packing with
  | error e => rfl
  | ok renewed =>
    obtain ⟨layout, -, -, -, rfl⟩ := rebuild_eq_ok_iff.mp hrebuild
    have hempty : (if mapping.isSparse then
        (c.renew layout c.packing).raster.clear Pixel.background
        else (c.renew layout c.packing).raster) = (c.renew layout c.packing).raster :=
      ite_self _
    exact congrArg (fun raster => Except.ok { c.renew layout c.packing with raster := raster })
      hempty

/-- A mapping is switched over the same window or with fresh buffers. -/
theorem switchLayout_eq_ok {mapping : Mapping} (h : c.switchLayout mapping = .ok d) :
    (∃ layout, Layout.build mapping c.side = .ok layout ∧
        c.packing.footprint mapping = c.footprint ∧ d = c.relayout layout) ∨
      (c.packing.footprint mapping ≠ c.footprint ∧
        c.rebuild c.side mapping c.packing = .ok d) := by
  by_cases hfoot : c.packing.footprint mapping = c.footprint
  · rw [switchLayout_of_footprint_eq hfoot] at h
    cases hbuild : Layout.build mapping c.side with
    | error e =>
      rw [hbuild] at h
      cases h
    | ok layout =>
      rw [hbuild] at h
      exact Or.inl ⟨layout, rfl, hfoot, (Except.ok.inj h).symm⟩
  · rw [switchLayout_of_footprint_ne hfoot] at h
    exact Or.inr ⟨hfoot, h⟩

theorem Change.of_switchLayout {mapping : Mapping} (h : c.switchLayout mapping = .ok d) :
    Change c d := by
  rcases switchLayout_eq_ok h with ⟨layout, hbuild, hfoot, rfl⟩ | ⟨-, hrebuild⟩
  · obtain ⟨-, rfl⟩ := Layout.side_eq_of_build hbuild
    exact .relayout hbuild hfoot
  · exact .of_rebuild hrebuild

theorem addPattern_eq_ok {bytes : Array UInt8} {alpha : UInt8} {id : ℕ} {flags : PatternFlags}
    (h : c.addPattern bytes alpha id flags = .ok d) : ∃ s, d = { c with patterns := s } := by
  rw [addPattern] at h
  cases hpattern : Pattern.build bytes alpha id flags with
  | error e =>
    rw [hpattern] at h
    cases h
  | ok pattern =>
    rw [hpattern] at h
    exact ⟨_, (Except.ok.inj h).symm⟩

/-- A pattern text changes nothing but the patterns. -/
theorem channel_addPatterns (c : Channel) (text : String) :
    ∃ s, (c.addPatterns text).channel = { c with patterns := s } := by
  rw [addPatterns]
  suffices hfold : ∀ (entries : List (Except Error PatternEntry)) (r : Registration),
      (∃ s, r.channel = { c with patterns := s }) →
        ∃ s, (entries.foldl register r).channel = { c with patterns := s } from
    hfold _ _ ⟨c.patterns, rfl⟩
  intro entries
  induction entries with
  | nil => exact fun r hr => hr
  | cons entry rest ih =>
    intro r ⟨s, hs⟩
    refine ih _ ?_
    rw [register]
    split
    · rename_i channel hregistered
      cases entry with
      | error e => cases hregistered
      | ok entry =>
        obtain ⟨t, ht⟩ := addPattern_eq_ok hregistered
        exact ⟨t, by rw [ht, hs]⟩
    · exact ⟨s, hs⟩

end Channel

end Bytescope
