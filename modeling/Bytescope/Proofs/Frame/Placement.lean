import Bytescope.Proofs.Frame.Dense

/-!
# Where samples are written

A layout that is not sparse gives the first offsets their cells, one-to-one onto the grid, and no
cell to the others. A sparse one reads the cell from two bytes of the sample, each spread over the
columns of the grid: rounded down, so that only the last byte comes to the last column. On a grid
of 256 columns or more different bytes have different columns, on one of at most 256 every column
has a byte.

All cells lie on the grid, where a raster does not ignore them, and a sample of a window is long
enough to have one. So when a frame is made, every sample of the window is written to one cell, as
the pixel that it stands for in the scene.

## Main definitions

* `Layout.ReadsPair`: a sample goes to the cell that two of its bytes give.
* `Layout.Spreads`: how bytes are spread over the columns.
* `Layout.Places`: where a layout puts samples.
* `Raster.Writes`: one cell is written, and no other changes.
* `Channel.drawn`: the picture of a frame after some of its samples.
* `Channel.DrawsSamples`: a frame is drawn sample by sample, and none is left out.

## Main results

* `Layout.spreads_coordinate`: the coordinates that the bytes give.
* `Session.samples_placed`: every sample of a window is written to one cell of the grid.
-/

namespace Bytescope

namespace Layout

/-! ### Coordinates from bytes -/

/-- The bytes are spread over the columns of a grid: evenly up to rounding down, from the first
column to the last. -/
structure Spreads (side : ℕ) (column : UInt8 → ℕ) : Prop where
  eq_div : ∀ byte, column byte = byte.toNat * (side - 1) / 255
  monotone : ∀ a b, a ≤ b → column a ≤ column b
  first : column 0 = 0
  last : column 255 = side - 1
  eq_of_last : 2 ≤ side → ∀ byte, column byte = side - 1 → byte = 255
  injective : 256 ≤ side → Function.Injective column
  surjective : side ≤ 256 → ∀ x < side, ∃ byte, column byte = x

theorem coordinate_le (span : ℕ) (byte : UInt8) : coordinate span byte ≤ span :=
  Nat.min_le_right _ _

/-- A product that fits into a word is not cut off, and its quotient is not above the span. -/
theorem coordinate_eq_div {span : ℕ} (hspan : 255 * span < wordSize) (byte : UInt8) :
    coordinate span byte = byte.toNat * span / 255 := by
  have hbyte : byte.toNat ≤ 255 := Nat.le_of_lt_succ byte.toNat_lt
  have hproduct : byte.toNat * span ≤ 255 * span := Nat.mul_le_mul_right span hbyte
  have hquotient : byte.toNat * span / 255 ≤ span := Nat.div_le_of_le_mul hproduct
  rw [coordinate, Nat.min_eq_left (hproduct.trans (Nat.le_sub_one_of_lt hspan)),
    Nat.min_eq_left hquotient]

/-- Where every byte comes at least one column further than the one before, different bytes are
kept apart. -/
theorem quotient_lt {span a b : ℕ} (hspan : 255 ≤ span) (h : a < b) :
    a * span / 255 < b * span / 255 := by
  have hnext : a * span + 255 ≤ b * span :=
    calc a * span + 255 ≤ a * span + span := Nat.add_le_add_left hspan _
      _ = (a + 1) * span := (Nat.succ_mul a span).symm
      _ ≤ b * span := Nat.mul_le_mul_right span h
  have hquotient := Nat.div_le_div_right (c := 255) hnext
  rw [Nat.add_div_right _ (by decide)] at hquotient
  exact hquotient

/-- Where it comes at most one column further, no column is left out: the least byte that comes as
far as a column comes no further. -/
theorem exists_quotient_eq {span x : ℕ} (hspan : span ≤ 255) (hx : x ≤ span) :
    ∃ b ≤ 255, b * span / 255 = x := by
  rcases Nat.eq_zero_or_pos span with rfl | hpos
  · exact ⟨0, Nat.zero_le _, (Nat.le_zero.mp hx).symm⟩
  · have hupper := Nat.div_mul_le_self (255 * x + (span - 1)) span
    have hlower : 255 * x + (span - 1) < _ := Nat.lt_div_mul_add hpos
    have hlast : 255 * x + (span - 1) < 256 * span := by omega
    refine ⟨(255 * x + (span - 1)) / span, ?_, ?_⟩
    · exact Nat.le_of_lt_succ (Nat.div_lt_of_lt_mul (Nat.mul_comm 256 span ▸ hlast))
    · generalize (255 * x + (span - 1)) / span * span = product at hupper hlower
      omega

/-- **Coordinates from bytes.** The bytes are spread over the columns of every grid whose span can
be multiplied by a byte within a word. -/
theorem spreads_coordinate {side : ℕ} (hword : 255 * (side - 1) < wordSize) :
    Spreads side (coordinate (side - 1)) where
  eq_div := coordinate_eq_div hword
  monotone a b h := by
    rw [coordinate_eq_div hword, coordinate_eq_div hword]
    exact Nat.div_le_div_right (Nat.mul_le_mul_right _ h)
  first := by
    rw [coordinate_eq_div hword]
    exact (congrArg (· / 255) (Nat.zero_mul _)).trans (Nat.zero_div 255)
  last := by
    rw [coordinate_eq_div hword]
    exact Nat.mul_div_cancel_left _ (by decide)
  eq_of_last hside byte hlast := by
    have hspan : 0 < side - 1 := by omega
    have hproduct := Nat.div_mul_le_self (byte.toNat * (side - 1)) 255
    rw [← coordinate_eq_div hword, hlast, Nat.mul_comm] at hproduct
    have hbyte : 255 ≤ byte.toNat := Nat.le_of_mul_le_mul_right hproduct hspan
    exact UInt8.toNat_inj.mp (Nat.le_antisymm (Nat.le_of_lt_succ byte.toNat_lt) hbyte)
  injective hside a b heq := by
    have hspan : 255 ≤ side - 1 := by omega
    rw [coordinate_eq_div hword, coordinate_eq_div hword] at heq
    rcases Nat.lt_trichotomy a.toNat b.toNat with hlt | hsame | hgt
    · exact absurd heq (Nat.ne_of_lt (quotient_lt hspan hlt))
    · exact UInt8.toNat_inj.mp hsame
    · exact absurd heq (Nat.ne_of_gt (quotient_lt hspan hgt))
  surjective hside x hx := by
    obtain ⟨b, hb, hquotient⟩ : ∃ b ≤ 255, b * (side - 1) / 255 = x :=
      exists_quotient_eq (by omega) (Nat.le_sub_one_of_lt hx)
    refine ⟨UInt8.ofNat b, ?_⟩
    rw [coordinate_eq_div hword, UInt8.toNat_ofNat_of_lt' (Nat.lt_succ_of_le hb), hquotient]

/-- A sample goes to the cell whose column and row its first two bytes give. -/
structure ReadsPair (layout : Layout) (column : UInt8 → ℕ) : Prop where
  locate_eq : ∀ (offset : ℕ) (x y : UInt8) (rest : List UInt8),
    layout.locate offset (x :: y :: rest) = some ⟨column x, column y⟩
  isSome_iff : ∀ (offset : ℕ) (sample : List UInt8),
    (layout.locate offset sample).isSome ↔ 2 ≤ sample.length

theorem readsPair_of_build {mapping : Mapping} (hsparse : mapping.isSparse = true) {side : ℕ}
    (hside : 1 ≤ side) {layout : Layout} (hbuild : build mapping side = .ok layout) :
    layout.ReadsPair (coordinate (side - 1)) := by
  cases mapping with
  | raster | curve => cases hsparse
  | tuple =>
    obtain rfl := Except.ok.inj hbuild
    have hpos : side ≠ 0 := Nat.ne_of_gt hside
    refine ⟨fun offset x y rest => if_neg hpos, fun offset sample => ?_⟩
    match sample with
    | [] | [_] => simp [locate, hpos]
    | x :: y :: rest => simp [locate, hpos]

/-! ### Every cell lies on the grid -/

section Build

variable {mapping : Mapping} {side : ℕ} {layout : Layout} {offset : ℕ} {sample : List UInt8}

theorem onGrid_of_locate (hside : 1 ≤ side) (hbuild : build mapping side = .ok layout)
    {q : Point} (hq : layout.locate offset sample = some q) : q.OnGrid side := by
  cases hsparse : mapping.isSparse with
  | false =>
    obtain ⟨cell, hcells⟩ := exists_enumerates hsparse hside hbuild
    rw [hcells.locate_eq] at hq
    split_ifs at hq with hoffset
    exact Option.some.inj hq ▸ hcells.bijOn.mapsTo hoffset
  | true =>
    have hpair := readsPair_of_build hsparse hside hbuild
    have hlength : 2 ≤ sample.length :=
      (hpair.isSome_iff offset sample).mp (Option.isSome_of_eq_some hq)
    match sample, hlength with
    | x :: y :: rest, _ =>
      rw [hpair.locate_eq] at hq
      have hlt (byte : UInt8) : coordinate (side - 1) byte < side :=
        Nat.lt_of_le_of_lt (coordinate_le _ byte) (Nat.sub_one_lt (Nat.ne_of_gt hside))
      exact Option.some.inj hq ▸ ⟨hlt x, hlt y⟩

/-- A sample within the grid that holds its coordinates has a cell. -/
theorem isSome_locate (hside : 1 ≤ side) (hbuild : build mapping side = .ok layout)
    (hoffset : offset < side * side) (hlength : mapping.extraBytes ≤ sample.length) :
    (layout.locate offset sample).isSome := by
  cases hsparse : mapping.isSparse with
  | false =>
    obtain ⟨cell, hcells⟩ := exists_enumerates hsparse hside hbuild
    rw [hcells.locate_eq, if_pos hoffset, Option.isSome_some]
  | true =>
    have hpair := readsPair_of_build hsparse hside hbuild
    cases mapping with
    | raster | curve => cases hsparse
    | tuple => exact (hpair.isSome_iff offset sample).mpr hlength

/-- Where a layout puts samples: on the grid, through which one that is not sparse goes one-to-one,
and where a sparse one follows two bytes of the sample, spread over the columns. -/
structure Places (layout : Layout) (mapping : Mapping) (side : ℕ) : Prop where
  onGrid : ∀ (offset : ℕ) (sample : List UInt8) (q : Point),
    layout.locate offset sample = some q → q.OnGrid side
  enumerates : mapping.isSparse = false → ∃ cell, layout.Enumerates side cell
  readsPair : mapping.isSparse = true → ∃ column, layout.ReadsPair column ∧
    (255 * (side - 1) < wordSize → Spreads side column)

theorem places_of_build (hside : 1 ≤ side) (hbuild : build mapping side = .ok layout) :
    layout.Places mapping side where
  onGrid _ _ _ := onGrid_of_locate hside hbuild
  enumerates hdense := exists_enumerates hdense hside hbuild
  readsPair hsparse := ⟨_, readsPair_of_build hsparse hside hbuild, spreads_coordinate⟩

end Build

end Layout

/-! ### Writing a sample -/

/-- A raster comes from another one by writing a pixel to a cell of the grid. -/
structure Raster.Writes (r : Raster) (q : Point) (pixel : Pixel) (t : Raster) : Prop where
  onGrid : q.OnGrid r.side
  side_eq : t.side = r.side
  pixel?_eq : ∀ p, t.pixel? p = if p = q then some pixel else r.pixel? p

theorem Raster.writes_put {r : Raster} {q : Point} (hq : q.OnGrid r.side) (pixel : Pixel) :
    r.Writes q pixel (r.put q pixel) where
  onGrid := hq
  side_eq := side_put ..
  pixel?_eq p := by
    rw [pixel?_put]
    by_cases heq : p = q
    · obtain rfl := heq
      rw [if_pos ⟨rfl, hq⟩, if_pos rfl]
    · rw [if_neg fun h => heq h.1.symm, if_neg heq]

/-- A sample that has a cell and makes a pixel is written. -/
theorem plot_eq_put {layout : Layout} {packing : Packing} {footprint : ℕ}
    {greys : ByteTable UInt8} {window alpha : Array UInt8} {raster : Raster} {offset : ℕ}
    {q : Point} {pixel : Pixel}
    (hq : layout.locate offset (sampleAt window footprint offset) = some q)
    (hpixel : packing.pack? ((sampleAt window footprint offset).drop layout.mapping.extraBytes)
      (alpha[offset]?.getD opaqueAlpha) greys = some pixel) :
    plot layout packing footprint greys window alpha raster offset = raster.put q pixel := by
  simp only [plot, hq, hpixel]

namespace Channel

variable {c : Channel}

/-- The picture of a frame after the samples at the first offsets were drawn. -/
def drawn (c : Channel) (count : ℕ) : Raster :=
  count.fold (fun offset _ raster =>
    plot c.layout c.packing c.footprint (greys c.packing c.currentHistogram) c.window.data
      c.compose.2.alpha raster offset) c.raster

theorem drawn_succ (c : Channel) (count : ℕ) : c.drawn (count + 1) =
    plot c.layout c.packing c.footprint (greys c.packing c.currentHistogram) c.window.data
      c.compose.2.alpha (c.drawn count) count :=
  Nat.fold_succ ..

theorem WellFormed.side_drawn (h : c.WellFormed) (count : ℕ) : (c.drawn count).side = c.side :=
  (side_fold_plot ..).trans h.side_raster

/-- A frame is what is drawn when all samples were drawn. -/
theorem WellFormed.raster_compose_eq_drawn (h : c.WellFormed) :
    c.compose.1.raster = c.drawn (c.side * c.side) := by
  rw [← h.samples_scene, Scene.samples, ← h.footprint_scene]
  rfl

/-- A sample has the pixel that it stands for in the scene. -/
theorem WellFormed.pack?_eq_pixel?_scene (h : c.WellFormed) (hcoherent : c.DueCoherent)
    (offset : ℕ) :
    c.packing.pack? ((sampleAt c.window.data c.footprint offset).drop c.mapping.extraBytes)
      (c.compose.2.alpha[offset]?.getD opaqueAlpha) (greys c.packing c.currentHistogram) =
        c.scene.pixel? offset := by
  rw [pack?_greys, hcoherent.currentHistogram_eq h, h.alpha_compose, h.footprint_scene]
  rfl

/-- A frame is drawn over what was there, sample by sample until none is left, and each sample is
written to its cell as the pixel that it stands for. -/
structure DrawsSamples (c : Channel) : Prop where
  size_window : c.window.size = c.side * c.side * c.footprint
  drawn_zero : c.drawn 0 = c.raster
  drawn_last : c.drawn (c.side * c.side) = c.compose.1.raster
  writes : ∀ offset < c.side * c.side, ∃ q pixel,
    c.layout.locate offset (sampleAt c.window.data c.footprint offset) = some q ∧
      c.scene.pixel? offset = some pixel ∧
      (c.drawn offset).Writes q pixel (c.drawn (offset + 1))

theorem WellFormed.drawsSamples (h : c.WellFormed) (hcoherent : c.DueCoherent) :
    c.DrawsSamples where
  size_window := h.size_window
  drawn_zero := rfl
  drawn_last := h.raster_compose_eq_drawn.symm
  writes offset hoffset := by
    have hsample : offset < c.scene.samples := h.samples_scene ▸ hoffset
    have hlength : c.mapping.extraBytes ≤ (sampleAt c.window.data c.footprint offset).length := by
      rw [h.footprint_scene]
      exact (c.scene.length_sample hsample).symm ▸ Nat.le_add_left ..
    obtain ⟨q, hq⟩ := Option.isSome_iff_exists.mp
      (Layout.isSome_locate h.side_pos h.build_layout hoffset hlength)
    obtain ⟨pixel, hpixel⟩ := Option.isSome_iff_exists.mp (c.scene.isSome_pixel? hsample)
    have hgrid : q.OnGrid (c.drawn offset).side := by
      rw [h.side_drawn]
      exact Layout.onGrid_of_locate h.side_pos h.build_layout hq
    have hput : c.drawn (offset + 1) = (c.drawn offset).put q pixel :=
      (c.drawn_succ offset).trans
        (plot_eq_put hq ((h.pack?_eq_pixel?_scene hcoherent offset).trans hpixel))
    exact ⟨q, pixel, hq, hpixel, hput ▸ Raster.writes_put hgrid pixel⟩

end Channel

namespace Session

/-- **Samples and their cells.** In every layout of a side that is not zero, all cells lie on the
grid. A layout that is not sparse gives exactly the offsets below the number of cells a cell, and
goes through the grid one-to-one. A sparse one gives exactly the samples of two bytes or more a
cell, and spreads each of the two bytes over the columns. So whenever a frame is made, in every
run, each sample of the window is written to its cell on the grid, as the pixel that it stands for,
and to no other. -/
theorem samples_placed :
    (∀ (mapping : Mapping) (side : ℕ) (layout : Layout), 1 ≤ side →
      Layout.build mapping side = .ok layout → layout.Places mapping side) ∧
    ∀ (σ : Type) [FrameSink σ] (sink : σ) (config : ChannelConfig) (s : Session σ)
      (operations : List Operation) (operation : Operation) (c : Channel),
      start sink config = .ok s → (s.run operations).Presents operation c → c.DrawsSamples :=
  ⟨fun _ _ _ hside hbuild => Layout.places_of_build hside hbuild,
    fun _ _ _ _ _ _ _ _ h hc => (wellFormed_of_presents h hc).drawsSamples
      (dueCoherent_of_presents h hc)⟩

/-- Half of the bytes on 128 columns, and a full window of four samples, each of two coordinates and
a grey: the last one is written to the last cell. -/
theorem samples_placed_tuple :
    (∃ layout, Layout.build .tuple 128 = .ok layout ∧
      layout.locate 0 [128, 0] = some ⟨63, 0⟩) ∧
    ∃ s c, start (Transcript.expecting [])
      { side := 2, mapping := .tuple, packing := .intensity, opacity := .constant } = .ok s ∧
      (s.run []).Presents (.ingest [0, 0, 7, 254, 255, 8, 255, 254, 9, 255, 255, 10]) c ∧
      (c.drawn 3).Writes ⟨1, 1⟩ ⟨10, 10, 10, 255⟩ c.compose.1.raster := by
  constructor
  · have hbuild : Layout.build .tuple 128 = .ok _ := rfl
    obtain ⟨column, hpair, hspreads⟩ := (samples_placed.1 _ _ _ (by decide) hbuild).readsPair rfl
    have hcolumns := hspreads (by decide)
    refine ⟨_, hbuild, ?_⟩
    rw [hpair.locate_eq, hcolumns.eq_div, hcolumns.first]
    rfl
  · have hstart : start (Transcript.expecting [])
        { side := 2, mapping := .tuple, packing := .intensity, opacity := .constant } =
          .ok _ := rfl
    have hdraws := samples_placed.2 _ _ _ _ []
      (.ingest [0, 0, 7, 254, 255, 8, 255, 254, 9, 255, 255, 10]) _ hstart ⟨rfl, rfl⟩
    obtain ⟨q, pixel, hq, hpixel, hwrites⟩ := hdraws.writes 3 (by decide)
    refine ⟨_, _, hstart, ⟨rfl, rfl⟩, ?_⟩
    obtain rfl : ⟨1, 1⟩ = q := Option.some.inj hq
    obtain rfl : ⟨10, 10, 10, 255⟩ = pixel := Option.some.inj hpixel
    exact hdraws.drawn_last ▸ hwrites

end Session

end Bytescope
