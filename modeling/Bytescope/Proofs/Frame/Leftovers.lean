import Bytescope.Proofs.Frame.Scene

/-!
# Frames that leave cells uncovered

Under a sparse mapping the picture has to be empty before a frame is drawn. It is emptied when
the mapping is chosen, when the buffers are made anew, and after every frame that is accepted. A
frame that is refused stays on the picture: the next frame is drawn over it, and where it has no
sample, the refused one is still seen.

## Main definitions

* `Scene.IsShownBy`: a raster shows the samples of a scene and nothing else.
* `Channel.empties`: an operation empties the picture before it makes a frame.
* `Session.leftovers`: the refused frames that are still on the picture.

## Main results

* `Session.frame_of_sparse`: what a frame shows, and when it shows its window alone.
-/

namespace Bytescope

/-- The raster shows the samples of a scene and nothing else: every cell holds the pixel of the
last sample that lies there, and the background if there is none. -/
def Scene.IsShownBy (s : Scene) (raster : Raster) : Prop :=
  ∀ q : Point, q.OnGrid s.side →
    (∀ offset < s.samples, s.cell? offset = some q →
      (∀ later < s.samples, offset < later → s.cell? later ≠ some q) →
        (s.pixel? offset).isSome ∧ raster.pixel? q = s.pixel? offset) ∧
    ((∀ offset < s.samples, s.cell? offset ≠ some q) → raster.pixel? q = some Pixel.background)

/-- What is seen of scenes that were drawn one over the other, the last one first. -/
def seen (scenes : List Scene) (q : Point) : Pixel :=
  (scenes.findSome? (·.top? q)).getD Pixel.background

theorem seen_nil (q : Point) : seen [] q = Pixel.background := rfl

theorem seen_cons (s : Scene) (scenes : List Scene) (q : Point) :
    seen (s :: scenes) q = (s.top? q).getD (seen scenes q) := by
  rw [seen, List.findSome?_cons]
  cases s.top? q <;> rfl

namespace Scene

/-- A raster that shows a scene over other scenes shows that scene alone if, and only if, no
cell without a sample shows anything else. -/
theorem isShownBy_iff {s : Scene} {scenes : List Scene} {raster : Raster}
    (h : ∀ q : Point, q.OnGrid s.side → raster.pixel? q = some (seen (s :: scenes) q)) :
    s.IsShownBy raster ↔ ∀ q : Point, q.OnGrid s.side →
      (∀ offset < s.samples, s.cell? offset ≠ some q) → seen scenes q = Pixel.background := by
  constructor
  · intro hshown q hq hnone
    have hpixel := (hshown q hq).2 hnone
    rw [h q hq, seen_cons, s.top?_eq_none hnone] at hpixel
    exact Option.some.inj hpixel
  · intro hempty q hq
    refine ⟨fun offset hoffset hcell hlast => ⟨s.isSome_pixel? hoffset, ?_⟩, fun hnone => ?_⟩
    · obtain ⟨pixel, hpixel⟩ := Option.isSome_iff_exists.mp (s.isSome_pixel? hoffset)
      rw [h q hq, seen_cons, s.top?_eq_of_last hoffset hcell hlast, hpixel]
      rfl
    · rw [h q hq, seen_cons, s.top?_eq_none hnone, hempty q hq hnone]
      rfl

end Scene

/-! ### The refused frames on the picture -/

namespace Channel

/-- Whether a command empties the picture: it makes new buffers or chooses a sparse mapping. -/
def emptiesCommand (c : Channel) : Command → Bool
  | .clock _ | .opacity _ => false
  | .packing mode =>
    (c.switchPacking mode).isOk &&
      decide (c.window.size ≠ c.side * c.side * mode.footprint c.mapping)
  | .mapping mode =>
    (c.switchLayout mode).isOk && (mode.isSparse || decide (c.packing.footprint mode ≠ c.footprint))

/-- Whether an operation empties the picture before it makes a frame. -/
def empties (c : Channel) : Operation → Bool
  | .resize side => (c.resize side).isOk
  | .apply command => c.emptiesCommand command
  | .consume selector =>
    match Command.ofSelector selector with
    | .ok command => c.emptiesCommand command
    | .error _ => false
  | _ => false

/-- The picture is empty. -/
def Blank (c : Channel) : Prop := c.raster = .uniform c.side Pixel.background

/-- The picture of a channel stays as it was, and its mapping does not become sparse. -/
structure KeepsPicture (c d : Channel) : Prop where
  raster_eq : d.raster = c.raster
  side_eq : d.side = c.side
  isSparse_of : d.mapping.isSparse = true → c.mapping.isSparse = true

theorem KeepsPicture.refl (c : Channel) : c.KeepsPicture c := ⟨rfl, rfl, id⟩

variable {c d : Channel} {scenes : List Scene}

theorem blank_of_rebuild {side : ℕ} {mapping : Mapping} {packing : Packing}
    (h : c.rebuild side mapping packing = .ok d) : d.Blank := by
  obtain ⟨layout, -, -, -, rfl⟩ := rebuild_eq_ok_iff.mp h
  rfl

theorem WellFormed.blank_relayout (h : c.WellFormed) {layout : Layout}
    (hsparse : layout.mapping.isSparse = true) : (c.relayout layout).Blank := by
  change (if layout.mapping.isSparse then c.raster.clear Pixel.background else c.raster) =
    Raster.uniform c.side Pixel.background
  rw [if_pos hsparse, ← h.side_raster]
  rfl

theorem keepsPicture_relayout {layout : Layout} (hdense : layout.mapping.isSparse = false) :
    c.KeepsPicture (c.relayout layout) where
  raster_eq := if_neg (ne_true_of_eq_false hdense)
  side_eq := rfl
  isSparse_of hsparse := absurd hsparse (ne_true_of_eq_false hdense)

/-- A command empties the picture or leaves it. -/
theorem WellFormed.emptiesCommand_or (h : c.WellFormed) (command : Command) :
    (c.emptiesCommand command = true ∧ (c.prepareCommand command).Blank) ∨
      (c.emptiesCommand command = false ∧ c.KeepsPicture (c.prepareCommand command)) := by
  cases command with
  | clock mode => exact Or.inr ⟨rfl, rfl, rfl, id⟩
  | opacity mode => exact Or.inr ⟨rfl, rfl, rfl, id⟩
  | packing mode =>
    rw [emptiesCommand, prepareCommand]
    cases hswitch : c.switchPacking mode with
    | error e => exact Or.inr ⟨rfl, KeepsPicture.refl c⟩
    | ok d =>
      rcases switchPacking_eq_ok hswitch with ⟨hsize, rfl⟩ | ⟨hsize, hrebuild⟩
      · refine Or.inr ⟨?_, rfl, rfl, id⟩
        rw [decide_eq_false (not_not_intro hsize), Bool.and_false]
      · refine Or.inl ⟨?_, blank_of_rebuild hrebuild⟩
        rw [decide_eq_true hsize]
        rfl
  | mapping mode =>
    rw [emptiesCommand, prepareCommand]
    cases hswitch : c.switchLayout mode with
    | error e => exact Or.inr ⟨rfl, KeepsPicture.refl c⟩
    | ok d =>
      rcases switchLayout_eq_ok hswitch with ⟨layout, hbuild, hfoot, rfl⟩ | ⟨hfoot, hrebuild⟩
      · obtain ⟨-, rfl⟩ := Layout.side_eq_of_build hbuild
        rw [decide_eq_false (not_not_intro hfoot), Bool.or_false]
        cases hsparse : layout.mapping.isSparse with
        | true => exact Or.inl ⟨rfl, h.blank_relayout hsparse⟩
        | false => exact Or.inr ⟨rfl, keepsPicture_relayout hsparse⟩
      · refine Or.inl ⟨?_, blank_of_rebuild hrebuild⟩
        rw [decide_eq_true hfoot, Bool.or_true]
        rfl

/-- An operation empties the picture before it makes a frame, or it leaves the picture. -/
theorem WellFormed.empties_or (h : c.WellFormed) (operation : Operation) :
    (c.empties operation = true ∧ (c.prepare operation).Blank) ∨
      (c.empties operation = false ∧ c.KeepsPicture (c.prepare operation)) := by
  cases operation with
  | ingest chunk => exact Or.inr ⟨rfl, rfl, rfl, id⟩
  | resize side =>
    rw [empties, Channel.prepare]
    cases hresize : c.resize side with
    | error e => exact Or.inr ⟨rfl, KeepsPicture.refl c⟩
    | ok d => exact Or.inl ⟨rfl, blank_of_rebuild hresize⟩
  | apply command => exact h.emptiesCommand_or command
  | consume selector =>
    rw [empties, Channel.prepare]
    cases Command.ofSelector selector with
    | ok command => exact h.emptiesCommand_or command
    | error e => exact Or.inr ⟨rfl, KeepsPicture.refl c⟩
  | addPattern bytes alpha id flags =>
    refine Or.inr ⟨rfl, ?_⟩
    rw [Channel.prepare]
    cases hadd : c.addPattern bytes alpha id flags with
    | error e => exact KeepsPicture.refl c
    | ok d =>
      obtain ⟨patterns, rfl⟩ := addPattern_eq_ok hadd
      exact ⟨rfl, rfl, fun hsparse => hsparse⟩
  | addPatterns text =>
    obtain ⟨patterns, hpatterns⟩ := channel_addPatterns c text
    refine Or.inr ⟨rfl, ?_⟩
    rw [Channel.prepare, hpatterns]
    exact ⟨rfl, rfl, id⟩
  | setOffset offset => exact Or.inr ⟨rfl, rfl, rfl, id⟩
  | forceStep => exact Or.inr ⟨rfl, KeepsPicture.refl c⟩

/-! ### What the picture bears -/

/-- The picture consists of scenes that were drawn one over the other, the last one first. -/
def Bears (c : Channel) (scenes : List Scene) : Prop :=
  ∀ q : Point, q.OnGrid c.side → c.raster.pixel? q = some (seen scenes q)

theorem Blank.bears (h : c.Blank) : c.Bears [] := by
  intro q hq
  have hclear := Raster.pixel?_clear (.uniform c.side Pixel.background) Pixel.background q
  rw [h]
  exact hclear.trans (if_pos hq)

/-- The scenes that are on the picture when an operation makes its frame. -/
def kept (c : Channel) (scenes : List Scene) (operation : Operation) : List Scene :=
  if c.empties operation then [] else scenes

theorem WellFormed.bears_prepare (h : c.WellFormed) {operation : Operation}
    (hbears : c.mapping.isSparse = true → c.Bears scenes)
    (hsparse : (c.prepare operation).mapping.isSparse = true) :
    (c.prepare operation).Bears (c.kept scenes operation) := by
  rw [kept]
  rcases h.empties_or operation with ⟨hempties, hblank⟩ | ⟨hempties, hkeeps⟩
  · rw [if_pos hempties]
    exact hblank.bears
  · rw [if_neg (ne_true_of_eq_false hempties)]
    intro q hq
    rw [hkeeps.raster_eq]
    exact hbears (hkeeps.isSparse_of hsparse) q (hkeeps.side_eq ▸ hq)

/-- A frame is drawn over what the picture bears. -/
theorem WellFormed.pixel?_compose_of_bears (h : c.WellFormed) (hcoherent : c.DueCoherent)
    (hbears : c.Bears scenes) {q : Point} (hq : q.OnGrid c.side) :
    c.compose.1.raster.pixel? q = some (seen (c.scene :: scenes) q) := by
  rw [h.pixel?_compose hcoherent hq, hbears q hq, seen_cons]
  cases c.scene.top? q <;> rfl

theorem WellFormed.bears_compose (h : c.WellFormed) (hcoherent : c.DueCoherent)
    (hbears : c.Bears scenes) : c.compose.2.Bears (c.scene :: scenes) :=
  fun _ hq => h.pixel?_compose_of_bears hcoherent hbears hq

@[simp] theorem mapping_settle (c : Channel) (accepted : Bool) :
    (c.settle accepted).mapping = c.mapping := by
  rw [Channel.settle]
  split_ifs <;> rfl

@[simp] theorem mapping_conclude (c : Channel) (operation : Operation) (accepted : Bool) :
    (c.conclude operation accepted).mapping = c.mapping := by
  cases operation with
  | ingest chunk =>
    rw [Channel.conclude]
    split_ifs <;> rfl
  | _ => rfl

/-- An accepted frame leaves an empty picture, unless the next one covers it anyway. -/
theorem blank_settle (hside : c.raster.side = c.side) (hsparse : c.mapping.isSparse = true) :
    (c.settle true).Blank := by
  change (if c.mapping.isSparse then c.raster.clear Pixel.background else c.raster) =
    Raster.uniform c.side Pixel.background
  rw [if_pos hsparse, ← hside]
  rfl

theorem Bears.settle (h : c.Bears scenes) (hside : c.raster.side = c.side)
    (hsparse : c.mapping.isSparse = true) (accepted : Bool) :
    (c.settle accepted).Bears (if accepted then [] else scenes) := by
  cases accepted with
  | false => exact h
  | true => exact (blank_settle hside hsparse).bears

theorem Bears.conclude (h : c.Bears scenes) (operation : Operation) (accepted : Bool) :
    (c.conclude operation accepted).Bears scenes := by
  cases operation with
  | ingest chunk =>
    rw [Channel.conclude]
    split_ifs <;> exact h
  | _ => exact h

end Channel

/-! ### Whole runs -/

namespace Session

variable {σ : Type} [FrameSink σ]

/-- The refused frames that are on the picture after an operation, last first, from those before
it. Under a mapping that is not sparse nothing is kept of them. -/
def leave (s : Session σ) (scenes : List Scene) (operation : Operation) : List Scene :=
  let scenes := s.channel.kept scenes operation
  if s.channel.isDue operation then
    let c := s.channel.prepare operation
    if c.mapping.isSparse then
      if (step ⟨c, s.sink⟩).1.isOk then [] else c.scene :: scenes
    else []
  else scenes

/-- The refused frames that are still on the picture after operations, last first. -/
def leftovers (s : Session σ) (operations : List Operation) : List Scene :=
  (operations.foldl (fun (state : Session σ × List Scene) operation =>
    ((state.1.perform operation).2.2, state.1.leave state.2 operation)) (s, [])).2

theorem leftovers_concat (s : Session σ) (operations : List Operation) (operation : Operation) :
    s.leftovers (operations ++ [operation]) =
      (s.run operations).leave (s.leftovers operations) operation := by
  have hrun (state : Session σ × List Scene) : (operations.foldl
      (fun (state : Session σ × List Scene) operation =>
        ((state.1.perform operation).2.2, state.1.leave state.2 operation)) state).1 =
      state.1.run operations := by
    induction operations generalizing state with
    | nil => rfl
    | cons first rest ih => exact ih _
  rw [leftovers, List.foldl_append, List.foldl_cons, List.foldl_nil, hrun]
  rfl

variable {sink : σ} {config : ChannelConfig} {s : Session σ} {operations : List Operation}
  {operation : Operation} {c : Channel}

theorem mapping_present (sink : σ) (operation : Operation) (c : Channel) :
    (present sink operation c).channel.mapping = c.mapping :=
  (Channel.mapping_conclude ..).trans (Channel.mapping_settle ..)

/-- After a frame the picture is empty, or it bears the frame that was refused. -/
theorem bears_present {scenes : List Scene} (hwell : c.WellFormed) (hcoherent : c.DueCoherent)
    (hbears : c.Bears scenes) (hsparse : c.mapping.isSparse = true) (sink : σ)
    (operation : Operation) : (present sink operation c).channel.Bears
      (if (step ⟨c, sink⟩).1.isOk then [] else c.scene :: scenes) :=
  ((hwell.bears_compose hcoherent hbears).settle hwell.compose.side_raster hsparse _).conclude
    operation _

/-- Under a sparse mapping the picture consists of the refused frames that are still on it. -/
theorem bears_leftovers (h : start sink config = .ok s) (operations : List Operation)
    (hsparse : (s.run operations).channel.mapping.isSparse = true) :
    (s.run operations).channel.Bears (s.leftovers operations) := by
  induction operations using List.reverseRecOn with
  | nil =>
    obtain ⟨layout, -, heq⟩ := Channel.build_eq_ok (build_of_start h)
    refine Channel.Blank.bears ?_
    change s.channel.Blank
    rw [heq]
    rfl
  | append_singleton operations operation ih =>
    have hwell := wellFormed_run h operations
    rw [leftovers_concat]
    rw [run_concat] at hsparse ⊢
    cases hdue : (s.run operations).channel.isDue operation with
    | false =>
      rw [perform_of_not_due hdue] at hsparse ⊢
      rw [leave, hdue]
      exact hwell.bears_prepare ih hsparse
    | true =>
      have hc : (s.run operations).Presents operation _ := ⟨hdue, rfl⟩
      have hready := wellFormed_of_presents h hc
      rw [perform_of_due hdue] at hsparse ⊢
      rw [mapping_present] at hsparse
      rw [leave, if_pos hdue]
      dsimp only
      rw [if_pos hsparse]
      exact bears_present hready (dueCoherent_of_presents h hc) (hwell.bears_prepare ih hsparse)
        hsparse _ operation

/-- **Frames that leave cells uncovered.** Under a sparse mapping every frame of every run shows
the last sample at each cell, and elsewhere what is left of the frames that were refused since
the picture was last emptied. So it shows its window alone if, and only if, nothing of them is
seen where it has no sample; in particular if no frame was refused since then. -/
theorem frame_of_sparse (h : start sink config = .ok s)
    (hc : (s.run operations).Presents operation c) (hsparse : c.mapping.isSparse = true) :
    ∃ refused, refused = (s.run operations).channel.kept (s.leftovers operations) operation ∧
      c.compose.1.raster.side = c.side ∧
      ((s.run operations).perform operation).2.2.sink =
        (FrameSink.flush (notifyAll (s.run operations).sink c.compose.1.notices)
          c.compose.1.raster).2 ∧
      (∀ q : Point, q.OnGrid c.side →
        c.compose.1.raster.pixel? q = some (seen (c.scene :: refused) q)) ∧
      (c.scene.IsShownBy c.compose.1.raster ↔ ∀ q : Point, q.OnGrid c.side →
        (∀ offset < c.scene.samples, c.scene.cell? offset ≠ some q) →
          seen refused q = Pixel.background) ∧
      (refused = [] → c.scene.IsShownBy c.compose.1.raster) := by
  have hready := wellFormed_of_presents h hc
  have hcoherent := dueCoherent_of_presents h hc
  have hkept : c.Bears ((s.run operations).channel.kept (s.leftovers operations) operation) := by
    obtain ⟨-, rfl⟩ := hc
    exact (wellFormed_run h operations).bears_prepare (bears_leftovers h operations) hsparse
  have hpixel (q : Point) (hq : q.OnGrid c.side) :=
    hready.pixel?_compose_of_bears hcoherent hkept hq
  have hiff := Scene.isShownBy_iff (s := c.scene) hpixel
  refine ⟨_, rfl, hready.compose.side_raster, hc.sink_eq, hpixel, hiff, fun hnone => ?_⟩
  exact hiff.mpr fun q _ _ => by rw [hnone, seen_nil]

/-- The frame after a refused one shows that one in the first cell. -/
theorem frame_of_sparse_corner : ∃ s c, start (Transcript.expecting [false])
    { side := 2, mapping := .tuple, packing := .intensity, opacity := .constant } = .ok s ∧
      (s.run [.ingest [0, 0, 170, 0, 0, 170, 0, 0, 170, 0, 0, 170]]).Presents
        (.ingest [255, 255, 187, 255, 255, 187, 255, 255, 187, 255, 255, 187]) c ∧
      c.mapping.isSparse = true ∧ ∃ refused, refused ≠ [] ∧
        c.compose.1.raster.pixel? ⟨0, 0⟩ = some (seen (c.scene :: refused) ⟨0, 0⟩) := by
  have hstart : start (Transcript.expecting [false])
      { side := 2, mapping := .tuple, packing := .intensity, opacity := .constant } = .ok _ := rfl
  obtain ⟨refused, hrefused, -, -, hpixel, -⟩ := @frame_of_sparse _ _ _ _ _
    [.ingest [0, 0, 170, 0, 0, 170, 0, 0, 170, 0, 0, 170]]
    (.ingest [255, 255, 187, 255, 255, 187, 255, 255, 187, 255, 255, 187]) _ hstart ⟨rfl, rfl⟩ rfl
  refine ⟨_, _, hstart, ⟨rfl, rfl⟩, rfl, refused, ?_, hpixel ⟨0, 0⟩ (by decide)⟩
  rw [hrefused]
  exact List.cons_ne_nil _ _

/-- A refused frame has its samples in the first cell and the next frame in the last one, but the
next frame still shows the first cell of the refused one. -/
theorem refused_frame_is_seen : ¬ ∀ (sink : Transcript) (config : ChannelConfig)
    (s : Session Transcript) (operations : List Operation) (operation : Operation) (c : Channel),
    start sink config = .ok s → (s.run operations).Presents operation c →
      c.mapping.isSparse = true → c.scene.IsShownBy c.compose.1.raster := by
  intro hall
  have hstart : start (Transcript.expecting [false])
      { side := 2, mapping := .tuple, packing := .intensity, opacity := .constant } = .ok _ := rfl
  have hshown := hall _ _ _ [.ingest [0, 0, 170, 0, 0, 170, 0, 0, 170, 0, 0, 170]]
    (.ingest [255, 255, 187, 255, 255, 187, 255, 255, 187, 255, 255, 187]) _ hstart ⟨rfl, rfl⟩ rfl
  have hpixel := (hshown ⟨0, 0⟩ (by decide)).2 (by decide +kernel)
  exact absurd hpixel (by decide +kernel)

end Session

end Bytescope
