import Bytescope.Proofs.Frame.Scene

/-!
# Frames that cover the picture

A mapping that is not sparse places one sample at each cell, so a frame covers all that was
there. What the receiver is sent is then the picture of the scene, whatever happened before.

## Main results

* `Session.frame_of_dense`: frames under such a mapping are pictures of their scenes.
-/

namespace Bytescope

namespace Channel

variable {c : Channel}

theorem WellFormed.samples_scene (h : c.WellFormed) : c.scene.samples = c.side * c.side := by
  change c.window.size / c.scene.footprint = _
  rw [h.size_window, ← h.footprint_scene, Nat.mul_div_cancel _ h.footprint_pos]

/-- Each cell has one sample. -/
theorem WellFormed.existsUnique_cell? (h : c.WellFormed) (hdense : c.mapping.isSparse = false)
    {q : Point} (hq : q.OnGrid c.side) :
    ∃! offset, offset < c.side * c.side ∧ c.scene.cell? offset = some q := by
  simp only [h.cell?_scene]
  exact Layout.existsUnique_locate hdense h.build_layout hq _

/-- The pixel of a cell is that of its sample. -/
theorem WellFormed.top?_scene (h : c.WellFormed) (hdense : c.mapping.isSparse = false) {q : Point}
    (hq : q.OnGrid c.side) {offset : ℕ} (hoffset : offset < c.side * c.side)
    (hcell : c.scene.cell? offset = some q) : c.scene.top? q = c.scene.pixel? offset := by
  obtain ⟨only, -, honly⟩ := h.existsUnique_cell? hdense hq
  rw [← h.samples_scene] at hoffset
  refine c.scene.top?_eq_of_last hoffset hcell fun later hlater hlt hother => ?_
  rw [h.samples_scene] at hoffset hlater
  rw [honly offset ⟨hoffset, hcell⟩, honly later ⟨hlater, hother⟩] at hlt
  exact Nat.lt_irrefl _ hlt

/-- A frame under a mapping that is not sparse is the picture of its scene. -/
theorem WellFormed.raster_compose (h : c.WellFormed) (hcoherent : c.DueCoherent)
    (hdense : c.mapping.isSparse = false) : c.compose.1.raster = c.scene.picture := by
  have hside : c.compose.1.raster.side = c.side := (side_render ..).trans h.side_raster
  refine Raster.ext_pixel? hside fun q hq => ?_
  rw [hside] at hq
  obtain ⟨offset, ⟨hoffset, hcell⟩, -⟩ := h.existsUnique_cell? hdense hq
  have hsample : offset < c.scene.samples := h.samples_scene ▸ hoffset
  obtain ⟨pixel, hpixel⟩ := Option.isSome_iff_exists.mp (c.scene.isSome_pixel? hsample)
  rw [h.pixel?_compose hcoherent hq, c.scene.pixel?_picture hq,
    h.top?_scene hdense hq hoffset hcell, hpixel]
  rfl

end Channel

namespace Session

variable {σ : Type} [FrameSink σ] {sink : σ} {config : ChannelConfig} {s : Session σ}
  {operations : List Operation} {operation : Operation} {c : Channel}

/-- **Frames that cover the picture.** Under a mapping that is not sparse, every frame of every
run, whatever the receiver refuses, is the picture of its scene. Each cell has exactly one sample
and shows its pixel, and frames of equal scenes are equal, whatever the runs that made them. -/
theorem frame_of_dense (h : start sink config = .ok s)
    (hc : (s.run operations).Presents operation c) (hdense : c.mapping.isSparse = false) :
    c.compose.1.raster = c.scene.picture ∧
      ((s.run operations).perform operation).2.2.sink =
        (FrameSink.flush (notifyAll (s.run operations).sink c.compose.1.notices)
          c.scene.picture).2 ∧
      (∀ q : Point, q.OnGrid c.side →
        (∃! offset, offset < c.side * c.side ∧ c.scene.cell? offset = some q) ∧
        ∀ offset < c.side * c.side, c.scene.cell? offset = some q →
          (c.scene.pixel? offset).isSome ∧
            c.compose.1.raster.pixel? q = c.scene.pixel? offset) ∧
      ∀ (τ : Type) [FrameSink τ] (sink' : τ) (config' : ChannelConfig) (t : Session τ)
        (operations' : List Operation) (operation' : Operation) (d : Channel),
        start sink' config' = .ok t → (t.run operations').Presents operation' d →
          d.scene = c.scene → d.compose.1.raster = c.compose.1.raster := by
  have hwell := wellFormed_of_presents h hc
  have hpicture := hwell.raster_compose (dueCoherent_of_presents h hc) hdense
  refine ⟨hpicture, by rw [hc.sink_eq, hpicture], fun q hq => ?_, ?_⟩
  · refine ⟨hwell.existsUnique_cell? hdense hq, fun offset hoffset hcell => ?_⟩
    have hsample : offset < c.scene.samples := hwell.samples_scene ▸ hoffset
    have hsome := c.scene.isSome_pixel? hsample
    obtain ⟨pixel, hpixel⟩ := Option.isSome_iff_exists.mp hsome
    refine ⟨hsome, ?_⟩
    rw [hpicture, c.scene.pixel?_picture hq, hwell.top?_scene hdense hq hoffset hcell, hpixel]
    rfl
  · intro τ _ sink' config' t operations' operation' d ht hd hscene
    have hmapping : d.mapping = c.mapping := congrArg Scene.mapping hscene
    rw [(wellFormed_of_presents ht hd).raster_compose (dueCoherent_of_presents ht hd)
      (hmapping ▸ hdense), hscene, hpicture]

/-- A frame along the curve, after a refused frame in another mode. -/
theorem frame_of_dense_curve : ∃ s c, start (Transcript.expecting [false])
    { side := 2, packing := .intensity, opacity := .constant } = .ok s ∧
      (s.run [.ingest [1, 2, 3, 4], .ingest [5]]).Presents (.apply (.mapping .curve)) c ∧
      c.mapping.isSparse = false ∧ c.compose.1.raster = c.scene.picture := by
  have hstart : start (Transcript.expecting [false])
      { side := 2, packing := .intensity, opacity := .constant } = .ok _ := rfl
  exact ⟨_, _, hstart, ⟨rfl, rfl⟩, rfl, (frame_of_dense hstart ⟨rfl, rfl⟩ rfl).1⟩

end Session

end Bytescope
