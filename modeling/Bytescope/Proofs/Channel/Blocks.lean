import Bytescope.Proofs.Channel.Admission
import Bytescope.Proofs.Frame.Composition

/-!
# Streams cut into blocks

Under the block clock a channel that accepts every frame cuts what it is given into blocks of the
length of its window. Which blocks it has seen and which bytes it still holds determine all of
the channel that frames depend on, so the frame of a block is that which a fresh channel makes of
the block, up to its number.

## Main definitions

* `blockAt`: a block of a stream.
* `Frame.numbered`: a frame under another number.
* `Channel.frameOf`: the frame that a channel makes of a block.
* `Channel.Holds`, `Channel.Streamed`: what a channel is after blocks and a tail, without and with
  its counters.

## Main results

* `Channel.Holds.raster_compose_absorb`: the picture of a block.
* `Channel.Streamed.absorb_open`, `Channel.Streamed.absorb_done`: what an intake adds.
* `Channel.Streamed.fst_compose_absorb`: the frame of a block.
-/

namespace Bytescope

/-! ### Blocks of a stream -/

/-- The block of a stream with this index. -/
def blockAt (width : ℕ) (bytes : List UInt8) (index : ℕ) : List UInt8 :=
  (bytes.drop (index * width)).take width

section Blocks

variable {width : ℕ} {blocks : List (List UInt8)} {tail : List UInt8}

theorem length_flatten_blocks (hblocks : ∀ block ∈ blocks, block.length = width) :
    blocks.flatten.length = blocks.length * width := by
  induction blocks with
  | nil => simp
  | cons block rest ih =>
    rw [List.forall_mem_cons] at hblocks
    rw [List.flatten_cons, List.length_append, hblocks.1, ih hblocks.2, List.length_cons,
      Nat.succ_mul, Nat.add_comm]

theorem length_blocks (hblocks : ∀ block ∈ blocks, block.length = width)
    (htail : tail.length < width) : (blocks.flatten ++ tail).length / width = blocks.length := by
  rw [List.length_append, length_flatten_blocks hblocks, Nat.add_comm,
    Nat.add_mul_div_right _ _ (Nat.zero_lt_of_lt htail), Nat.div_eq_of_lt htail, Nat.zero_add]

theorem length_tail (hblocks : ∀ block ∈ blocks, block.length = width)
    (htail : tail.length < width) : (blocks.flatten ++ tail).length % width = tail.length := by
  rw [List.length_append, length_flatten_blocks hblocks, Nat.add_comm, Nat.add_mul_mod_self_right,
    Nat.mod_eq_of_lt htail]

theorem drop_blocks (hblocks : ∀ block ∈ blocks, block.length = width) :
    (blocks.flatten ++ tail).drop (blocks.length * width) = tail :=
  List.drop_left' (length_flatten_blocks hblocks)

theorem map_blockAt (hblocks : ∀ block ∈ blocks, block.length = width) :
    (List.range blocks.length).map (blockAt width (blocks.flatten ++ tail)) = blocks := by
  induction blocks with
  | nil => rfl
  | cons block rest ih =>
    rw [List.forall_mem_cons] at hblocks
    obtain ⟨hblock, hrest⟩ := hblocks
    have hlater (index : ℕ) : blockAt width ((block :: rest).flatten ++ tail) (index + 1) =
        blockAt width (rest.flatten ++ tail) index := by
      rw [blockAt, List.flatten_cons, List.append_assoc, Nat.succ_mul, Nat.add_comm,
        ← List.drop_drop, List.drop_left' hblock, blockAt]
    rw [List.length_cons, List.range_succ_eq_map, List.map_cons, List.map_map]
    refine congrArg₂ List.cons ?_ ?_
    · rw [blockAt, Nat.zero_mul, List.drop_zero, List.flatten_cons, List.append_assoc,
        List.take_left' hblock]
    · exact (List.map_congr_left fun index _ => hlater index).trans (ih hrest)

end Blocks

/-! ### Frames of blocks -/

/-- The frame under another number, made when so many bytes had been processed. Only the first
frame is announced. -/
def Frame.numbered (frame : Frame) (number processed : ℕ) : Frame :=
  { frame with
    notices := frame.notices.filterMap fun
      | .status _ _ entropy => some (.status number processed entropy)
      | .stream code => if number = 1 then some (.stream code) else none
      | .matched found => some (.matched found) }

theorem Scene.numbered_frame (s : Scene) (first bytes number processed : ℕ) :
    (s.frame first bytes true).numbered number processed =
      s.frame number processed (decide (number = 1)) := by
  by_cases h : number = 1
  · simp [Frame.numbered, frame, h, List.filterMap_map]
  · simp [Frame.numbered, frame, h, List.filterMap_map]

namespace Channel

/-- The frame that a channel makes of a block that it is given at once. -/
def frameOf (c : Channel) (block : List UInt8) : Frame := (c.absorb block).1.compose.1

/-- The frames of the blocks of a stream. -/
def framesOf (c : Channel) (blocks : List (List UInt8)) : List Frame :=
  blocks.mapIdx fun index block =>
    (c.frameOf block).numbered (index + 1) ((index + 1) * c.window.size)

/-- The scene that a channel makes of a block. -/
def sceneOf (c : Channel) (block : List UInt8) : Scene :=
  { c.scene with window := block.toArray }

/-- What has become of a fresh channel that made frames and then took the tail, as far as the next
frames depend on it. -/
structure Holds (fresh : Channel) (tail : List UInt8) (c : Channel) : Prop where
  wellFormed : c.WellFormed
  clock_eq : c.clock = .block
  size_eq : c.window.size = fresh.window.size
  sceneOf_eq : c.sceneOf = fresh.sceneOf
  written : c.window.data.toList.take c.window.fill = tail
  counts : c.histogram.Counts tail
  blank : c.mapping.isSparse = true → c.Blank

/-- What has become of a fresh channel that made frames of the blocks and then took the tail. -/
structure Streamed (fresh : Channel) (blocks : List (List UInt8)) (tail : List UInt8)
    (c : Channel) : Prop where
  wellFormed : c.WellFormed
  clock_eq : c.clock = .block
  size_eq : c.window.size = fresh.window.size
  sceneOf_eq : c.sceneOf = fresh.sceneOf
  length_eq : ∀ block ∈ blocks, block.length = fresh.window.size
  written : c.window.data.toList.take c.window.fill = tail
  counts : c.histogram.Counts tail
  processed_eq : c.processed = blocks.length * fresh.window.size + tail.length
  frames_eq : c.frames = blocks.length
  unannounced_eq : c.unannounced = blocks.isEmpty
  blank : c.mapping.isSparse = true → c.Blank

variable {fresh c : Channel} {blocks : List (List UInt8)} {tail chunk : List UInt8}

namespace Holds

theorem fill_eq (h : fresh.Holds tail c) : c.window.fill = tail.length := by
  rw [← h.written, Window.length_take_fill]

theorem length_tail_lt (h : fresh.Holds tail c) : tail.length < fresh.window.size := by
  rw [← h.fill_eq, ← h.size_eq]
  exact h.wellFormed.fill_lt

/-- The tail has been counted. -/
theorem coherent (h : fresh.Holds tail c) : c.Coherent :=
  ⟨tail, h.counts, h.written ▸ Tally.written⟩

theorem remaining_pos (h : fresh.Holds tail c) : 0 < c.remaining :=
  Nat.sub_pos_of_lt h.wellFormed.fill_lt

theorem remaining_eq (h : fresh.Holds tail c) :
    c.remaining = fresh.window.size - tail.length := by
  rw [← h.fill_eq, ← h.size_eq]
  rfl

theorem window_absorb (h : fresh.Holds tail c) (chunk : List UInt8) :
    (c.absorb chunk).1.window = (c.window.ingest .block chunk).1 := by
  rw [absorb, h.clock_eq]

theorem snd_absorb (h : fresh.Holds tail c) (chunk : List UInt8) :
    (c.absorb chunk).2 = (c.window.ingest .block chunk).2 := by
  rw [absorb, h.clock_eq]

theorem taken_absorb (h : fresh.Holds tail c) (chunk : List UInt8) :
    (c.absorb chunk).2.taken = chunk.take c.remaining := by
  rw [h.snd_absorb, Window.taken_ingest_block]
  rfl

theorem length_taken_le (h : fresh.Holds tail c) (chunk : List UInt8) :
    (tail ++ chunk.take c.remaining).length ≤ fresh.window.size := by
  rw [List.length_append, ← h.fill_eq, ← h.size_eq]
  exact c.window.fill_add_taken_le chunk

theorem completed_absorb_iff (h : fresh.Holds tail c) :
    (c.absorb chunk).2.completed = true ↔
      (tail ++ chunk.take c.remaining).length = fresh.window.size := by
  rw [h.snd_absorb, Window.completed_ingest_block, decide_eq_true_iff, List.length_append,
    ← h.fill_eq, ← h.size_eq]
  rfl

/-- An intake that leaves room makes the tail longer. -/
theorem absorb_open (h : fresh.Holds tail c) (hopen : (c.absorb chunk).2.completed = false) :
    fresh.Holds (tail ++ chunk.take c.remaining) (c.absorb chunk).1 where
  wellFormed := h.wellFormed.absorb chunk
  clock_eq := h.clock_eq
  size_eq := (Window.size_ingest ..).trans h.size_eq
  sceneOf_eq := h.sceneOf_eq
  written := by
    rw [h.snd_absorb] at hopen
    rw [h.window_absorb, Window.take_fill_ingest_block _ _ hopen, h.written]
    rfl
  counts := by
    have hbucket := h.wellFormed.three_mul_size_lt
    have hlength := h.length_taken_le chunk
    rw [h.size_eq] at hbucket
    rw [List.length_append] at hlength
    change (c.histogram.absorbAll (c.absorb chunk).2.taken).Counts _
    rw [h.taken_absorb]
    exact h.counts.absorbAll (by omega)
  blank := h.blank

/-- The frame of a block depends on how many there were before it and on nothing else of them. -/
theorem fst_compose_absorb (h : fresh.Holds tail c) (hdone : (c.absorb chunk).2.completed = true) :
    (c.absorb chunk).1.compose.1 = (fresh.sceneOf (tail ++ chunk.take c.remaining)).frame
      (c.frames + 1) (c.absorb chunk).1.processed c.unannounced := by
  have hwindow : (c.absorb chunk).1.window.data.toList = tail ++ chunk.take c.remaining := by
    rw [h.snd_absorb] at hdone
    rw [h.window_absorb, Window.toList_ingest_block_of_completed _ _ hdone, h.written]
    rfl
  have hscene : (c.absorb chunk).1.scene = fresh.sceneOf (tail ++ chunk.take c.remaining) := by
    rw [← h.sceneOf_eq, ← hwindow, sceneOf, Array.toArray_toList]
    rfl
  rw [(h.wellFormed.absorb chunk).fst_compose (h.coherent.due_absorb h.wellFormed hdone) h.blank,
    hscene]
  rfl

/-- An intake that fills the window leaves nothing, once its frame has been accepted. -/
theorem absorb_done (h : fresh.Holds tail c) (hdone : (c.absorb chunk).2.completed = true) :
    fresh.Holds [] ((c.absorb chunk).1.compose.2.settle true).restartCount where
  wellFormed := { ((h.wellFormed.absorb chunk).compose.settle true) with }
  clock_eq := h.clock_eq
  size_eq := (Window.size_ingest ..).trans h.size_eq
  sceneOf_eq := by
    rw [← h.sceneOf_eq]
    funext block
    refine congrArg (fun patterns => { c.sceneOf block with patterns := patterns }) ?_
    exact congrArg (List.map Pattern.entry) (Opacity.patterns_generate ..)
  written := by
    have hfill : ((c.absorb chunk).1.compose.2.settle true).restartCount.window.fill = 0 :=
      fill_absorb hdone
    rw [hfill, List.take_zero]
  counts := Histogram.counts_empty
  blank hsparse := by
    have hside := (h.wellFormed.absorb chunk).compose.side_raster
    exact blank_settle hside hsparse

/-- A channel that holds nothing takes a block at once. -/
theorem absorb_block (h : fresh.Holds [] c) {block : List UInt8}
    (hblock : block.length = fresh.window.size) : (c.absorb block).2 = ⟨block, true⟩ := by
  have htaken : block.take c.remaining = block := by
    rw [h.remaining_eq, List.length_nil, Nat.sub_zero, ← hblock, List.take_length]
  have hdone : (c.absorb block).2.completed = true := by
    rw [h.completed_absorb_iff, htaken, List.nil_append, hblock]
  calc (c.absorb block).2
      = ⟨(c.absorb block).2.taken, (c.absorb block).2.completed⟩ := rfl
    _ = ⟨block, true⟩ := by rw [h.taken_absorb, htaken, hdone]

/-- The picture of a block is that which a fresh channel makes of the block. -/
theorem raster_compose_absorb (h : fresh.Holds tail c) (hfresh : fresh.Holds [] fresh)
    (hdone : (c.absorb chunk).2.completed = true) :
    (c.absorb chunk).1.compose.1.raster =
      (fresh.frameOf (tail ++ chunk.take c.remaining)).raster := by
  have hblock := hfresh.absorb_block (h.completed_absorb_iff.mp hdone)
  have hfirst := hfresh.fst_compose_absorb (congrArg Intake.completed hblock)
  have htaken := hfresh.taken_absorb (tail ++ chunk.take c.remaining)
  rw [congrArg Intake.taken hblock] at htaken
  rw [h.fst_compose_absorb hdone, frameOf, hfirst, List.nil_append, ← htaken]
  rfl

end Holds

namespace Streamed

/-- The blocks matter to the next frames only through what they leave in the window. -/
theorem holds (h : fresh.Streamed blocks tail c) : fresh.Holds tail c := { h with }

/-- The counter of bytes does not reach its limit. -/
theorem processed_absorb (h : fresh.Streamed blocks tail c)
    (hlimit : blocks.length * fresh.window.size + tail.length + chunk.length < wordSize) :
    (c.absorb chunk).1.processed =
      blocks.length * fresh.window.size + (tail ++ chunk.take c.remaining).length := by
  have htaken : (chunk.take c.remaining).length ≤ chunk.length := List.length_take_le' ..
  change min (c.processed + (c.absorb chunk).2.taken.length) counterLimit = _
  rw [h.holds.taken_absorb, h.processed_eq, List.length_append, ← Nat.add_assoc]
  refine Nat.min_eq_left ?_
  simp only [wordSize] at hlimit
  simp only [counterLimit]
  omega

/-- Taking nothing changes nothing. -/
theorem absorb_nil (h : fresh.Streamed blocks tail c)
    (hlimit : blocks.length * fresh.window.size + tail.length < wordSize) :
    c.absorb [] = (c, ⟨[], false⟩) := by
  have hprocessed : min (c.processed + 0) counterLimit = c.processed := by
    rw [h.processed_eq]
    simp only [wordSize] at hlimit
    simp only [counterLimit]
    omega
  rw [absorb, h.clock_eq, Window.ingest_block_nil _ h.wellFormed.fill_lt]
  dsimp only
  rw [List.length_nil, hprocessed, Histogram.absorbAll_nil, ← h.clock_eq]

/-- An intake that leaves room makes the tail longer. -/
theorem absorb_open (h : fresh.Streamed blocks tail c)
    (hlimit : blocks.length * fresh.window.size + tail.length + chunk.length < wordSize)
    (hopen : (c.absorb chunk).2.completed = false) :
    fresh.Streamed blocks (tail ++ chunk.take c.remaining) (c.absorb chunk).1 where
  length_eq := h.length_eq
  processed_eq := h.processed_absorb hlimit
  frames_eq := h.frames_eq
  unannounced_eq := h.unannounced_eq
  __ := h.holds.absorb_open hopen

/-- The frame of a block depends on how many there were before it and on nothing else of them. -/
theorem fst_compose_absorb (h : fresh.Streamed blocks tail c)
    (hlimit : blocks.length * fresh.window.size + tail.length + chunk.length < wordSize)
    (hdone : (c.absorb chunk).2.completed = true) :
    (c.absorb chunk).1.compose.1 = (fresh.sceneOf (tail ++ chunk.take c.remaining)).frame
      (blocks.length + 1) ((blocks.length + 1) * fresh.window.size) blocks.isEmpty := by
  have hprocessed : (c.absorb chunk).1.processed = (blocks.length + 1) * fresh.window.size := by
    rw [h.processed_absorb hlimit, h.holds.completed_absorb_iff.mp hdone, Nat.succ_mul]
  rw [h.holds.fst_compose_absorb hdone, hprocessed, h.frames_eq, h.unannounced_eq]

/-- An intake that fills the window adds a block, once its frame has been accepted. -/
theorem absorb_done (h : fresh.Streamed blocks tail c)
    (hlimit : blocks.length * fresh.window.size + tail.length + chunk.length < wordSize)
    (hdone : (c.absorb chunk).2.completed = true) :
    fresh.Streamed (blocks ++ [tail ++ chunk.take c.remaining]) []
      ((c.absorb chunk).1.compose.2.settle true).restartCount where
  length_eq := by
    rw [List.forall_mem_append, List.forall_mem_singleton]
    exact ⟨h.length_eq, h.holds.completed_absorb_iff.mp hdone⟩
  processed_eq := by
    change (c.absorb chunk).1.processed = _
    rw [h.processed_absorb hlimit, h.holds.completed_absorb_iff.mp hdone, List.length_append,
      List.length_singleton, Nat.succ_mul, List.length_nil, Nat.add_zero]
  frames_eq := by
    change c.frames + 1 = _
    rw [h.frames_eq, List.length_append, List.length_singleton]
  unannounced_eq := by
    rw [List.isEmpty_eq_false_iff.mpr (List.append_ne_nil_of_right_ne_nil _ (List.cons_ne_nil _ _))]
    rfl
  __ := h.holds.absorb_done hdone

/-- A fresh channel makes a frame of every block that it is given at once. -/
theorem frameOf_eq (h : fresh.Streamed [] [] fresh) {block : List UInt8}
    (hblock : block.length = fresh.window.size) : (fresh.absorb block).2 = ⟨block, true⟩ ∧
      fresh.frameOf block = (fresh.sceneOf block).frame 1 fresh.window.size true := by
  have hintake := h.holds.absorb_block hblock
  have htaken := h.holds.taken_absorb block
  rw [congrArg Intake.taken hintake] at htaken
  have hlimit := h.wellFormed.three_mul_size_lt
  have hword : 0 * fresh.window.size + 0 + block.length < wordSize := by
    simp only [bucketLimit] at hlimit
    simp only [wordSize]
    omega
  have hframe := h.fst_compose_absorb hword (congrArg Intake.completed hintake)
  rw [← htaken, List.length_nil, Nat.zero_add, Nat.one_mul] at hframe
  exact ⟨hintake, hframe⟩

/-- The frame of a block is that which a fresh channel makes of the block, under its number. -/
theorem fst_compose_absorb_eq_numbered (h : fresh.Streamed blocks tail c)
    (hfresh : fresh.Streamed [] [] fresh)
    (hlimit : blocks.length * fresh.window.size + tail.length + chunk.length < wordSize)
    (hdone : (c.absorb chunk).2.completed = true) :
    (c.absorb chunk).1.compose.1 = (fresh.frameOf (tail ++ chunk.take c.remaining)).numbered
      (blocks.length + 1) ((blocks.length + 1) * fresh.window.size) := by
  have hfirst : decide (blocks.length + 1 = 1) = blocks.isEmpty := by
    cases blocks <;> simp
  have hframe := (hfresh.frameOf_eq (h.holds.completed_absorb_iff.mp hdone)).2
  rw [h.fst_compose_absorb hlimit hdone, hframe, Scene.numbered_frame, hfirst]

end Streamed

end Channel

end Bytescope
