import Bytescope.Proofs.Channel.Coherence
import Bytescope.Proofs.Curve.Bijection

/-!
# What a frame shows

A frame is drawn over the picture that is there. A cell shows the last sample that lies there, or
what was there before. The samples depend on the side, the modes, the window and the patterns
alone, although the opacities, the histogram and the layout are kept from frame to frame.

## Main definitions

* `Scene`, `Channel.scene`: all that a frame may depend on.
* `Scene.cell?`, `Scene.pixel?`: the cell and the pixel of a sample, made from nothing.
* `Scene.top?`, `Scene.picture`: the samples that are seen, and the picture of them alone.

## Main results

* `pixel?_render`: drawing puts the last sample of a cell over what was there.
* `Channel.pixel?_compose`: a frame puts its scene over what was there.
-/

namespace Bytescope

/-! ### Drawing -/

/-- What the sample at an offset shows at a cell. -/
def shown? (layout : Layout) (packing : Packing) (footprint : ℕ) (greys : ByteTable UInt8)
    (window alpha : Array UInt8) (q : Point) (offset : ℕ) : Option Pixel :=
  let sample := sampleAt window footprint offset
  if layout.locate offset sample = some q then
    packing.pack? (sample.drop layout.mapping.extraBytes) (alpha[offset]?.getD opaqueAlpha) greys
  else none

section Drawing

variable (layout : Layout) (packing : Packing) (footprint : ℕ) (greys : ByteTable UInt8)
  (window alpha : Array UInt8) (raster : Raster)

theorem pixel?_plot {q : Point} (hq : q.OnGrid raster.side) (offset : ℕ) :
    (plot layout packing footprint greys window alpha raster offset).pixel? q =
      (shown? layout packing footprint greys window alpha q offset).or (raster.pixel? q) := by
  unfold plot shown?
  dsimp only
  cases layout.locate offset (sampleAt window footprint offset) with
  | none => rfl
  | some p =>
    cases packing.pack? _ _ greys with
    | none => split_ifs <;> rfl
    | some pixel =>
      dsimp only
      rw [Raster.pixel?_put]
      by_cases heq : p = q
      · rw [if_pos ⟨heq, hq⟩, if_pos (congrArg some heq), Option.some_or]
      · rw [if_neg fun hput => heq hput.1, if_neg fun hput => heq (Option.some.inj hput),
          Option.none_or]

/-- Drawing puts the last sample of a cell over what was there. -/
theorem pixel?_render {q : Point} (hq : q.OnGrid raster.side) :
    (render layout packing footprint greys window alpha raster).pixel? q =
      ((List.range (window.size / footprint)).reverse.findSome?
        (shown? layout packing footprint greys window alpha q)).or (raster.pixel? q) := by
  rw [render]
  induction window.size / footprint with
  | zero => rfl
  | succ count ih =>
    rw [Nat.fold_succ, pixel?_plot, ih, List.range_succ, List.reverse_append,
      List.reverse_singleton, List.singleton_append, List.findSome?_cons]
    · cases shown? layout packing footprint greys window alpha q count <;> rfl
    · rwa [side_fold_plot]

end Drawing

theorem Raster.pixel?_of_onGrid (r : Raster) {q : Point} (hq : q.OnGrid r.side) :
    r.pixel? q = r.pixels[slot r.side q]? :=
  if_pos hq

/-- A raster is determined by its side and the pixels on it. -/
theorem Raster.ext_pixel? {r t : Raster} (hside : r.side = t.side)
    (h : ∀ q : Point, q.OnGrid r.side → r.pixel? q = t.pixel? q) : r = t := by
  obtain ⟨side, pixels, hsize⟩ := r
  obtain ⟨_, pixels', hsize'⟩ := t
  obtain rfl : side = _ := hside
  rw [mk.injEq]
  refine ⟨rfl, Array.ext_getElem? fun i => ?_⟩
  rcases Nat.lt_or_ge i (side * side) with hlt | hge
  · have hq : (Point.ofSlot side i).OnGrid side := Point.onGrid_ofSlot hlt
    have hpixel := h _ hq
    rw [pixel?_of_onGrid _ hq, pixel?_of_onGrid _ hq] at hpixel
    simpa only [slot_ofSlot] using hpixel
  · rw [Array.getElem?_eq_none (hsize ▸ hge), Array.getElem?_eq_none (hsize' ▸ hge)]

/-- Enough bytes make a pixel. -/
theorem isSome_pack? {packing : Packing} {bytes : List UInt8}
    (h : packing.baseFootprint ≤ bytes.length) (alpha : UInt8) (greys : ByteTable UInt8) :
    (packing.pack? bytes alpha greys).isSome := by
  cases packing with
  | tight =>
    match bytes, h with
    | _ :: _ :: _ :: _ :: _, _ => rfl
  | tightNoAlpha =>
    match bytes, h with
    | _ :: _ :: _ :: _, _ => rfl
  | intensity | histogramIntensity =>
    match bytes, h with
    | _ :: _, _ => rfl

/-! ### Scenes -/

/-- The entry that registers a pattern. -/
def Pattern.entry (p : Pattern) : PatternEntry := ⟨p.id, p.bytes.toList, p.alpha, p.flags⟩

theorem Pattern.build_entry (p : Pattern) :
    Pattern.build p.entry.bytes.toArray p.entry.alpha p.entry.id p.entry.flags = .ok p := by
  obtain ⟨bytes, alpha, id, flags, hpos, borders, rfl⟩ := p
  exact dif_pos hpos

/-- All that a frame may depend on. -/
structure Scene where
  side : ℕ
  mapping : Mapping
  packing : Packing
  opacity : Opacity
  window : Array UInt8
  patterns : List PatternEntry
  deriving DecidableEq

namespace Scene

variable (s : Scene)

/-- Bytes of one sample. -/
def footprint : ℕ := s.packing.footprint s.mapping

/-- Number of samples. -/
def samples : ℕ := s.window.size / s.footprint

/-- The bytes of the sample at an offset. -/
def sample (offset : ℕ) : List UInt8 := sampleAt s.window s.footprint offset

/-- The cell of a sample under a fresh layout. -/
def cell? (offset : ℕ) : Option Point :=
  match Layout.build s.mapping s.side with
  | .ok layout => layout.locate offset (s.sample offset)
  | .error _ => none

/-- Fresh copies of the patterns. -/
def freshPatterns : PatternSet :=
  ⟨s.patterns.filterMap fun entry =>
    (Pattern.build entry.bytes.toArray entry.alpha entry.id entry.flags).toOption.map
      Tracker.start⟩

/-- Full opacity of every sample. -/
def fullAlpha : Array UInt8 := Array.replicate (s.side * s.side) opaqueAlpha

/-- The opacity of every sample, made from nothing. -/
def alpha : Array UInt8 :=
  match s.opacity with
  | .constant => s.fullAlpha
  | .entropy => Opacity.blockwise s.fullAlpha s.window s.footprint s.side
  | .pattern =>
    if s.patterns = [] then s.fullAlpha
    else (s.freshPatterns.scan s.window s.footprint s.fullAlpha).alpha

/-- The pixel of a sample. -/
def pixel? (offset : ℕ) : Option Pixel :=
  s.packing.pack? ((s.sample offset).drop s.mapping.extraBytes)
    (s.alpha[offset]?.getD opaqueAlpha) (Histogram.ofBytes s.window).intensities

/-- What the sample at an offset shows at a cell. -/
def shown? (q : Point) (offset : ℕ) : Option Pixel :=
  if s.cell? offset = some q then s.pixel? offset else none

/-- The pixel of the last sample at a cell. -/
def top? (q : Point) : Option Pixel := (List.range s.samples).reverse.findSome? (s.shown? q)

/-- The picture of the samples alone. -/
def picture : Raster :=
  ⟨s.side,
    Array.ofFn fun i : Fin (s.side * s.side) =>
      (s.top? (Point.ofSlot s.side i)).getD Pixel.background,
    Array.size_ofFn⟩

theorem pixel?_picture {q : Point} (hq : q.OnGrid s.side) :
    s.picture.pixel? q = some ((s.top? q).getD Pixel.background) := by
  have hslot : Raster.slot s.side q < s.side * s.side := Raster.slot_lt hq.1 hq.2
  have hside : q.OnGrid s.picture.side := hq
  rw [Raster.pixel?_of_onGrid _ hside, picture]
  dsimp only
  rw [Array.getElem?_ofFn, dif_pos hslot]
  dsimp only
  rw [Point.ofSlot_slot hq]

/-! ### Every sample makes a pixel -/

theorem length_sample {offset : ℕ} (h : offset < s.samples) :
    (s.sample offset).length = s.footprint := by
  have hfoot : 0 < s.footprint := s.packing.footprint_pos s.mapping
  have hend : offset * s.footprint + s.footprint ≤ s.window.size := by
    rw [← Nat.succ_mul]
    exact (Nat.le_div_iff_mul_le hfoot).mp h
  rw [sample, sampleAt, Array.length_toList, Array.size_extract]
  omega

theorem isSome_pixel? {offset : ℕ} (h : offset < s.samples) : (s.pixel? offset).isSome := by
  refine isSome_pack? ?_ _ _
  rw [List.length_drop, s.length_sample h, footprint, Packing.footprint]
  omega

/-! ### The samples that are seen -/

theorem top?_eq_none {q : Point} (h : ∀ offset < s.samples, s.cell? offset ≠ some q) :
    s.top? q = none := by
  rw [top?, List.findSome?_eq_none_iff]
  intro offset hoffset
  rw [List.mem_reverse, List.mem_range] at hoffset
  exact if_neg (h offset hoffset)

/-- A cell shows the last sample that lies there. -/
theorem top?_eq_of_last {q : Point} {offset : ℕ} (hoffset : offset < s.samples)
    (hcell : s.cell? offset = some q)
    (hlast : ∀ later < s.samples, offset < later → s.cell? later ≠ some q) :
    s.top? q = s.pixel? offset := by
  have hsplit : ∀ count, count ≤ s.samples → offset < count →
      (List.range count).reverse.findSome? (s.shown? q) = s.pixel? offset := by
    intro count hcount hlt
    induction count with
    | zero => exact absurd hlt (Nat.not_lt_zero _)
    | succ count ih =>
      rw [List.range_succ, List.reverse_append, List.reverse_singleton, List.singleton_append,
        List.findSome?_cons]
      rcases Nat.lt_succ_iff_lt_or_eq.mp hlt with hbefore | rfl
      · rw [shown?, if_neg (hlast count hcount hbefore)]
        exact ih (Nat.le_of_succ_le hcount) hbefore
      · obtain ⟨pixel, hsome⟩ := Option.isSome_iff_exists.mp (s.isSome_pixel? hoffset)
        rw [shown?, if_pos hcell, hsome]
  exact hsplit s.samples (Nat.le_refl _) hoffset

end Scene

namespace Channel

variable {c : Channel}

/-- All that the frame of a channel may depend on. -/
def scene (c : Channel) : Scene where
  side := c.side
  mapping := c.mapping
  packing := c.packing
  opacity := c.opacity
  window := c.window.data
  patterns := c.patterns.patterns.map Pattern.entry

theorem patterns_freshPatterns (c : Channel) :
    c.scene.freshPatterns.patterns = c.patterns.patterns := by
  have hfresh : c.scene.freshPatterns.trackers = c.patterns.patterns.map Tracker.start := by
    rw [Scene.freshPatterns, scene, List.filterMap_map, ← List.filterMap_eq_map]
    dsimp only
    refine List.filterMap_congr fun p _ => ?_
    rw [Function.comp_apply, Pattern.build_entry]
    rfl
  rw [PatternSet.patterns, hfresh, List.map_map]
  exact List.map_id _

/-- The samples of a channel have the length that its packing and its mapping give them. -/
theorem WellFormed.footprint_scene (h : c.WellFormed) : c.footprint = c.scene.footprint :=
  h.footprint_eq

/-- The opacities of a frame are those made from nothing. -/
theorem WellFormed.alpha_compose (h : c.WellFormed) : c.compose.2.alpha = c.scene.alpha := by
  have hsize : c.alpha.size = c.scene.fullAlpha.size := h.size_alpha.trans Array.size_replicate.symm
  have hscene : c.scene.opacity = c.opacity := rfl
  change (c.opacity.generate c.alpha c.window.data c.footprint c.side c.patterns).alpha = _
  rw [Scene.alpha, hscene]
  cases hmode : c.opacity with
  | constant => exact h.alpha_eq hmode
  | entropy =>
    change Opacity.blockwise c.alpha c.window.data c.footprint c.side = _
    rw [Opacity.blockwise, hsize, h.footprint_eq]
    rfl
  | pattern =>
    rw [Opacity.generate]
    by_cases hempty : c.patterns.trackers = []
    · have hnone : c.patterns.isEmpty = true := List.isEmpty_iff.mpr hempty
      have hentries : c.scene.patterns = [] := by
        rw [scene, PatternSet.patterns, hempty]
        rfl
      rw [if_pos hnone]
      dsimp only
      rw [if_pos hentries, Opacity.full, h.size_alpha]
      rfl
    · have hsome : ¬ c.patterns.isEmpty = true := fun hnone => hempty (List.isEmpty_iff.mp hnone)
      have hentries : c.scene.patterns ≠ [] := fun hnil =>
        hempty (List.map_eq_nil_iff.mp (List.map_eq_nil_iff.mp hnil))
      rw [if_neg hsome]
      dsimp only
      rw [if_neg hentries]
      rw [← h.footprint_scene]
      refine PatternSet.alpha_scan_congr c.patterns_freshPatterns.symm h.footprint_pos hsize ?_
      rw [h.size_alpha]
      exact h.size_window

/-! ### The frame over what was there -/

/-- Only one packing looks at the greys, and it gets those of the histogram. -/
theorem pack?_greys (packing : Packing) (histogram : Histogram) (bytes : List UInt8)
    (alpha : UInt8) : packing.pack? bytes alpha (greys packing histogram) =
      packing.pack? bytes alpha histogram.intensities := by
  cases packing with
  | tight => rcases bytes with _ | ⟨r, _ | ⟨g, _ | ⟨b, _ | ⟨a, rest⟩⟩⟩⟩ <;> rfl
  | tightNoAlpha => rcases bytes with _ | ⟨r, _ | ⟨g, _ | ⟨b, rest⟩⟩⟩ <;> rfl
  | intensity => cases bytes <;> rfl
  | histogramIntensity => rfl

theorem WellFormed.cell?_scene (h : c.WellFormed) (offset : ℕ) :
    c.scene.cell? offset = c.layout.locate offset (c.scene.sample offset) := by
  have hbuild : Layout.build c.scene.mapping c.scene.side = .ok c.layout := h.build_layout
  rw [Scene.cell?, hbuild]

/-- **A frame puts its scene over what was there.** -/
theorem WellFormed.pixel?_compose (h : c.WellFormed) (hcoherent : c.DueCoherent) {q : Point}
    (hq : q.OnGrid c.side) :
    c.compose.1.raster.pixel? q = (c.scene.top? q).or (c.raster.pixel? q) := by
  have hshown : shown? c.layout c.packing c.footprint (greys c.packing c.currentHistogram)
      c.window.data c.compose.2.alpha q = c.scene.shown? q := by
    funext offset
    rw [Scene.shown?, h.cell?_scene, Scene.pixel?, shown?]
    rw [pack?_greys, hcoherent.currentHistogram_eq h, h.alpha_compose, h.footprint_scene]
    rfl
  change (render c.layout c.packing c.footprint (greys c.packing c.currentHistogram) c.window.data
    c.compose.2.alpha c.raster).pixel? q = _
  rw [pixel?_render _ _ _ _ _ _ _ (h.side_raster.symm ▸ hq), hshown, h.footprint_scene]
  rfl

end Channel

end Bytescope
