import Bytescope.Proofs.Channel.Admission
import Bytescope.Proofs.Pattern.Paint
import Bytescope.Proofs.Session.Phases

/-!
# Well-formed channels

A channel keeps its side and the length of a sample beside the buffers and the layout that were
made for them, and its operations set some of these at a time. They always fit together: the layout
is the one that is built for the mapping and the side, the length of a sample is that of packing
and mapping, and the buffers have the lengths that follow. The window is never left full, and a
channel that was told to be opaque has full opacity. This holds for a fresh channel and is kept by
everything that a channel does.

## Main definitions

* `Channel.WellFormed`: the buffers of a channel fit together.

## Main results

* `Session.wellFormed_run`: every channel that can be reached is well-formed.
-/

namespace Bytescope

/-! ### Sizes that stay -/

section Rasters

variable (layout : Layout) (packing : Packing) (footprint : ℕ) (greys : ByteTable UInt8)
  (window alpha : Array UInt8) (raster : Raster)

@[simp] theorem side_plot (offset : ℕ) :
    (plot layout packing footprint greys window alpha raster offset).side = raster.side := by
  unfold plot
  dsimp only
  split
  · rfl
  · split
    · rfl
    · exact Raster.side_put ..

theorem side_fold_plot (count : ℕ) :
    (count.fold (fun offset _ raster =>
      plot layout packing footprint greys window alpha raster offset) raster).side =
        raster.side := by
  induction count with
  | zero => rfl
  | succ count ih => rw [Nat.fold_succ, side_plot, ih]

@[simp] theorem side_render :
    (render layout packing footprint greys window alpha raster).side = raster.side :=
  side_fold_plot ..

end Rasters

@[simp] theorem Opacity.size_alpha_generate (mode : Opacity) (alpha window : Array UInt8)
    (footprint block : ℕ) (patterns : PatternSet) :
    (mode.generate alpha window footprint block patterns).alpha.size = alpha.size := by
  cases mode with
  | constant => rfl
  | entropy => exact Array.size_ofFn
  | pattern =>
    rw [generate]
    split_ifs
    · exact Array.size_replicate
    · exact PatternSet.size_alpha_scan ..

theorem Window.fill_ingest_lt (w : Window) (clock : Clock) (chunk : List UInt8) (h : 0 < w.size) :
    (w.ingest clock chunk).1.fill < w.size := by
  cases clock with
  | slide => exact h
  | block =>
    rw [ingest]
    split_ifs with hroom
    · exact hroom
    · exact h

namespace Channel

/-! ### Well-formedness -/

/-- What a channel keeps fits its side, mapping and packing. -/
structure WellFormed (c : Channel) : Prop where
  side_pos : 0 < c.side
  side_le : c.side ≤ maxWindowSide
  build_layout : Layout.build c.mapping c.side = .ok c.layout
  footprint_eq : c.footprint = c.packing.footprint c.mapping
  size_window : c.window.size = c.side * c.side * c.footprint
  fill_lt : c.window.fill < c.window.size
  size_alpha : c.alpha.size = c.side * c.side
  side_raster : c.raster.side = c.side
  alpha_eq : c.opacity = .constant → c.alpha = Array.replicate (c.side * c.side) opaqueAlpha

variable {c d : Channel}

theorem WellFormed.size_pos (h : c.WellFormed) : 0 < c.window.size :=
  Nat.zero_lt_of_lt h.fill_lt

theorem WellFormed.size_le (h : c.WellFormed) :
    c.window.size ≤ maxWindowSide * maxWindowSide * 6 := by
  rw [h.size_window, h.footprint_eq]
  exact windowSize_le h.side_le c.packing c.mapping

/-- The side of a channel is one that its mapping is granted. -/
theorem WellFormed.admits (h : c.WellFormed) : c.mapping.Admits c.side where
  one_le := h.side_pos
  le_max := h.side_le
  two_pow := (Layout.exists_build_iff h.side_le).mp ⟨c.layout, h.build_layout⟩

theorem WellFormed.footprint_pos (h : c.WellFormed) : 0 < c.footprint :=
  h.footprint_eq ▸ c.packing.footprint_pos c.mapping

theorem wellFormed_renew (c : Channel) {layout : Layout} (h : layout.Valid) (packing : Packing) :
    (c.renew layout packing).WellFormed where
  side_pos := h.side_pos
  side_le := h.side_le
  build_layout := h.build_eq
  footprint_eq := rfl
  size_window := Array.size_replicate
  fill_lt := by
    have hsize : (c.renew layout packing).window.size =
        layout.side * layout.side * packing.footprint layout.mapping := Array.size_replicate
    rw [hsize]
    exact Nat.mul_pos (Nat.mul_pos h.side_pos h.side_pos) (packing.footprint_pos _)
  size_alpha := Array.size_replicate
  side_raster := rfl
  alpha_eq _ := rfl

theorem wellFormed_build {config : ChannelConfig} (h : build config = .ok c) : c.WellFormed := by
  obtain ⟨layout, hvalid, heq⟩ := build_eq_ok h
  rw [heq]
  exact wellFormed_renew c hvalid config.packing

theorem WellFormed.relayout (h : c.WellFormed) {layout : Layout}
    (hbuild : Layout.build layout.mapping c.side = .ok layout)
    (hfoot : c.packing.footprint layout.mapping = c.footprint) :
    (c.relayout layout).WellFormed where
  side_pos := h.side_pos
  side_le := h.side_le
  build_layout := hbuild
  footprint_eq := hfoot.symm
  size_window := h.size_window
  fill_lt := h.fill_lt
  size_alpha := h.size_alpha
  side_raster := by
    rw [Channel.relayout]
    dsimp only
    split_ifs
    · exact h.side_raster
    · exact h.side_raster
  alpha_eq := h.alpha_eq

theorem WellFormed.switchOpacity (h : c.WellFormed) (mode : Opacity) :
    (c.switchOpacity mode).WellFormed where
  side_pos := h.side_pos
  side_le := h.side_le
  build_layout := h.build_layout
  footprint_eq := h.footprint_eq
  size_window := h.size_window
  fill_lt := h.fill_lt
  size_alpha := by
    rw [Channel.switchOpacity]
    dsimp only
    split_ifs
    · exact Array.size_replicate.trans h.size_alpha
    · exact h.size_alpha
  side_raster := h.side_raster
  alpha_eq hmode := by
    have hfull : (c.switchOpacity mode).alpha = Opacity.full c.alpha := if_pos hmode
    rw [hfull, Opacity.full, h.size_alpha]
    rfl

/-- Every change keeps a channel well-formed. -/
theorem WellFormed.change (h : c.WellFormed) (hchange : Change c d) : d.WellFormed := by
  cases hchange with
  | keep => exact h
  | renew hvalid packing => exact wellFormed_renew c hvalid packing
  | relayout hbuild hfoot => exact h.relayout hbuild hfoot
  | repack hsize => exact { h with footprint_eq := rfl, size_window := hsize }
  | opacity mode => exact h.switchOpacity mode
  | clock mode => exact { h with }
  | offset offset => exact { h with }
  | patterns s => exact { h with }

theorem WellFormed.absorb (h : c.WellFormed) (chunk : List UInt8) :
    (c.absorb chunk).1.WellFormed where
  side_pos := h.side_pos
  side_le := h.side_le
  build_layout := h.build_layout
  footprint_eq := h.footprint_eq
  size_window := (Window.size_ingest c.window c.clock chunk).trans h.size_window
  fill_lt := by
    have hsize : (c.absorb chunk).1.window.size = c.window.size := Window.size_ingest ..
    rw [hsize]
    exact Window.fill_ingest_lt _ _ _ h.size_pos
  size_alpha := h.size_alpha
  side_raster := h.side_raster
  alpha_eq := h.alpha_eq

theorem WellFormed.prepare (h : c.WellFormed) (operation : Operation) :
    (c.prepare operation).WellFormed := by
  rcases change_prepare c operation with ⟨chunk, rfl⟩ | hchange
  · exact h.absorb chunk
  · exact h.change hchange

theorem WellFormed.compose (h : c.WellFormed) : c.compose.2.WellFormed where
  side_pos := h.side_pos
  side_le := h.side_le
  build_layout := h.build_layout
  footprint_eq := h.footprint_eq
  size_window := h.size_window
  fill_lt := h.fill_lt
  size_alpha := (Opacity.size_alpha_generate ..).trans h.size_alpha
  side_raster := (side_render ..).trans h.side_raster
  alpha_eq hmode := by
    have hconstant : c.opacity = .constant := hmode
    have halpha : c.compose.2.alpha = c.alpha := by
      rw [Channel.compose]
      dsimp only
      rw [hconstant]
      rfl
    rw [halpha]
    exact h.alpha_eq hconstant

theorem WellFormed.settle (h : c.WellFormed) (accepted : Bool) :
    (c.settle accepted).WellFormed := by
  rw [Channel.settle]
  split_ifs
  · exact { h with side_raster := h.side_raster }
  · exact { h with }
  · exact h

theorem WellFormed.conclude (h : c.WellFormed) (operation : Operation) (accepted : Bool) :
    (c.conclude operation accepted).WellFormed := by
  cases operation with
  | ingest chunk =>
    rw [Channel.conclude]
    split_ifs
    · exact { h with }
    · exact h
  | _ => exact h

end Channel

namespace Session

variable {σ : Type} [FrameSink σ] {sink : σ} {config : ChannelConfig} {s : Session σ}

/-- Every channel that can be reached is well-formed. -/
theorem wellFormed_run (h : start sink config = .ok s) (operations : List Operation) :
    (s.run operations).channel.WellFormed := by
  refine run_invariant (I := Channel.WellFormed) (D := fun _ c => c.WellFormed) ?_ ?_ ?_ s
    (Channel.wellFormed_build (build_of_start h)) operations
  · exact fun c operation hc _ => hc.prepare operation
  · exact fun c operation hc _ => hc.prepare operation
  · exact fun c operation accepted hc => (hc.compose.settle accepted).conclude operation accepted

/-- So is every channel of which a frame is made. -/
theorem wellFormed_of_presents (h : start sink config = .ok s) {operations : List Operation}
    {operation : Operation} {c : Channel} (hc : (s.run operations).Presents operation c) :
    c.WellFormed := by
  obtain ⟨-, rfl⟩ := hc
  exact (wellFormed_run h operations).prepare operation

end Session

end Bytescope
