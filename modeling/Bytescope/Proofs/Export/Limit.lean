import Bytescope.Image.Formats
import Bytescope.Proofs.Export.Saving
import Bytescope.Proofs.Session.Answers
import Bytescope.Proofs.Session.Streaming
import Bytescope.Sensor

/-!
# Frames exported from a file

A file is read in chunks, each chunk is taken in by intakes, and the limit is looked at after every
intake. Neither the chunks nor the intakes have to end where a window does. Still the frames that
are exported are those of the first blocks of the file, one after the other, until the limit or the
last block is reached.

A limit of zero is looked at only after the first intake, so a frame that this intake completes is
exported nevertheless.

## Main definitions

* `Session.Reads`: a session after some bytes of a file.
* `Session.ReadsUntil`: a session after a file was read as far as the limit allows.
* `Arguments.frameCount`: how many frames are exported.

## Main results

* `Session.exported_feedUntil_le`, `Sensor.exported_readFrom_le`: the limit, under both clocks.
* `Session.Reads.ingest`, `Session.Reads.feedUntil`, `Sensor.readsUntil_readFrom`: what an intake,
  a chunk and a file export.
* `Sensor.ending_of_run`, `Sensor.frames_of_run`: the frames of a run.
-/

namespace Bytescope

namespace Encoder

/-! ### The encoder of the program -/

/-- The encoder of the program makes an animation of all frames that one can hold. -/
theorem animates_standard : standard.Animates := by
  intro first rest delay h
  have hfits : (first :: rest).all PictureFormat.fitsAnimation = true := by
    rw [List.all_eq_true]
    intro image himage
    obtain ⟨hwidth, hheight⟩ := h image himage
    exact Bool.and_eq_true_iff.mpr ⟨decide_eq_true hwidth, decide_eq_true hheight⟩
  exact ⟨_, if_pos hfits⟩

/-- What it makes holds the frames, and the time for which they can be shown. -/
theorem eq_of_animation_standard {first : Image} {rest : List Image} {delay : ℕ}
    {content : FileContent} (h : standard.animation first rest delay = .ok content) :
    content = .animation first rest (PictureFormat.shownDelay delay) := by
  change PictureFormat.encodeAnimation first rest delay = _ at h
  rw [PictureFormat.encodeAnimation] at h
  split at h
  next => exact (Except.ok.inj h).symm
  next => cases h

end Encoder

namespace Session

variable {limit : ℕ} {s : Session Exporter} {chunk : List UInt8}

/-! ### The limit -/

/-- The frame of an intake is sent, whatever the receiver answers. -/
theorem sink_ingest_of_due {σ : Type} [FrameSink σ] {s : Session σ}
    (hdue : (s.channel.absorb chunk).2.completed = true) : (s.ingest chunk).2.sink =
      ((s.channel.absorb chunk).1.compose.1.send s.sink).2 := by
  rw [ingest_eq, if_pos hdue]
  rfl

theorem exported_send (e : Exporter) (frame : Frame) :
    (frame.send e).2.exported = e.exported + 1 := by
  obtain ⟨log, hsend⟩ := e.exists_send_eq e.log frame
  have hself : e.withLog e.log = e := rfl
  rw [hself] at hsend
  rw [hsend]
  exact e.exported_accept frame.raster

/-- An intake exports at most one frame. -/
theorem exported_ingest_le (s : Session Exporter) (chunk : List UInt8) :
    (s.ingest chunk).2.sink.exported ≤ s.sink.exported + 1 := by
  cases hdue : (s.channel.absorb chunk).2.completed with
  | true => rw [sink_ingest_of_due hdue, exported_send]
  | false =>
    rw [ingest_of_open hdue]
    exact Nat.le_succ _

/-- Intakes export no more frames than the limit allows, or one if it allows none. -/
theorem exported_feedUntil_le (h : s.sink.exported < max limit 1) (chunk : List UInt8) :
    (s.feedUntil (limit ≤ ·.exported) chunk).2.sink.exported ≤ max limit 1 := by
  induction hlength : chunk.length using Nat.strong_induction_on generalizing chunk s with
  | _ length ih =>
    by_cases hchunk : chunk = []
    · rw [hchunk, feedUntil_nil]
      exact Nat.le_of_lt h
    · have hone := Nat.le_trans (s.exported_ingest_le chunk) h
      rcases hingest : s.ingest chunk with ⟨e | intake, next⟩
      · rw [feedUntil_of_error hchunk hingest]
        rwa [hingest] at hone
      · rw [hingest] at hone
        rw [feedUntil, dif_neg hchunk, hingest]
        dsimp only
        split
        next => exact hone
        next hmore =>
          rw [not_or, decide_eq_true_iff, Nat.not_le] at hmore
          refine ih _ ?_ (Nat.lt_of_lt_of_le hmore.1 (Nat.le_max_left ..)) _ rfl
          rw [← hlength, List.length_drop]
          exact length_sub_lt hchunk hmore.2

/-! ### Blocks and their pictures -/

/-- The pictures that a fresh channel makes of blocks. -/
def picturesOf (fresh : Channel) (blocks : List (List UInt8)) : List Raster :=
  blocks.map fun block => (fresh.frameOf block).raster

variable {fresh : Session Exporter} {bytes : List UInt8} {result : Except Error Unit}

/-- The session has read these bytes since it was fresh, and saving the pictures of their blocks has
come to this result. If they could all be saved, it can go on. -/
def Reads (fresh : Session Exporter) (bytes : List UInt8) (result : Except Error Unit)
    (s : Session Exporter) : Prop :=
  ∃ blocks tail e log, bytes = blocks.flatten ++ tail ∧
    (∀ block ∈ blocks, block.length = fresh.channel.window.size) ∧
    tail.length < fresh.channel.window.size ∧
    fresh.sink.acceptAll (picturesOf fresh.channel blocks) = (result, e) ∧ s.sink = e.withLog log ∧
    (result = .ok () → fresh.channel.Holds tail s.channel)

theorem reads_fresh (h : fresh.channel.Holds [] fresh.channel) : fresh.Reads [] (.ok ()) fresh :=
  ⟨[], [], fresh.sink, fresh.sink.log, rfl, nofun, h.length_tail_lt, rfl, rfl, fun _ => h⟩

/-- As many frames were exported as there were blocks. -/
theorem Reads.exported_eq (h : fresh.Reads bytes (.ok ()) s) (hzero : fresh.sink.exported = 0) :
    s.sink.exported = bytes.length / fresh.channel.window.size := by
  obtain ⟨blocks, tail, e, log, rfl, hblocks, htail, haccept, hsink, -⟩ := h
  have hexported : e.exported = blocks.length := by
    rw [Exporter.exported_acceptAll haccept, hzero, picturesOf, List.length_map, Nat.zero_add]
  rw [length_blocks hblocks htail, hsink]
  exact hexported

theorem Reads.taken_absorb (h : fresh.Reads bytes (.ok ()) s) (chunk : List UInt8) :
    (s.channel.absorb chunk).2.taken = chunk.take s.channel.remaining ∧
      0 < s.channel.remaining := by
  obtain ⟨blocks, tail, e, log, -, -, -, -, -, hholds⟩ := h
  exact ⟨(hholds rfl).taken_absorb chunk, (hholds rfl).remaining_pos⟩

/-- **What an intake exports.** It adds the bytes that it takes, and exports the picture of the
block that they complete, if they do. -/
theorem Reads.ingest (h : fresh.Reads bytes (.ok ()) s)
    (hfresh : fresh.channel.Holds [] fresh.channel) (chunk : List UInt8) :
    ∃ result : Except Error Unit,
      (s.ingest chunk).1 = result.map (fun _ => (s.channel.absorb chunk).2) ∧
      (bytes ++ (s.channel.absorb chunk).2.taken).length / fresh.channel.window.size ≤
        bytes.length / fresh.channel.window.size + 1 ∧
      fresh.Reads (bytes ++ (s.channel.absorb chunk).2.taken) result (s.ingest chunk).2 := by
  rw [(h.taken_absorb chunk).1]
  obtain ⟨blocks, tail, e, log, rfl, hblocks, htail, haccept, hsink, hholds⟩ := h
  have hchannel := hholds rfl
  have hcount : (blocks.flatten ++ tail ++ chunk.take s.channel.remaining).length /
      fresh.channel.window.size ≤
        (blocks.flatten ++ tail).length / fresh.channel.window.size + 1 := by
    have hle := hchannel.length_taken_le chunk
    rw [length_blocks hblocks htail, List.append_assoc, List.length_append,
      length_flatten_blocks hblocks]
    exact Nat.div_le_of_le_mul (by rw [Nat.mul_succ, Nat.mul_comm]; omega)
  cases hdone : (s.channel.absorb chunk).2.completed with
  | false =>
    have hopen := hchannel.absorb_open hdone
    rw [ingest_of_open hdone]
    exact ⟨.ok (), rfl, hcount, blocks, _, e, log, List.append_assoc .., hblocks,
      hopen.length_tail_lt, haccept, hsink, fun _ => hopen⟩
  | true =>
    obtain ⟨log', hsend⟩ := e.exists_send_eq log (s.channel.absorb chunk).1.compose.1
    rw [hchannel.raster_compose_absorb hfresh hdone, ← hsink] at hsend
    rcases hsave : e.accept (fresh.channel.frameOf (tail ++ chunk.take s.channel.remaining)).raster
      with ⟨result, next⟩
    rw [hsave] at hsend
    have hpictures : fresh.sink.acceptAll (picturesOf fresh.channel
        (blocks ++ [tail ++ chunk.take s.channel.remaining])) = (result, next) := by
      rw [picturesOf, List.map_append, ← hsave]
      exact (Exporter.acceptAll_append haccept).trans Exporter.acceptAll_singleton
    refine ⟨result, ?_, hcount, blocks ++ [tail ++ chunk.take s.channel.remaining], [], next, log',
      ?_, ?_, Nat.zero_lt_of_lt htail, hpictures, ?_, fun hok => ?_⟩
    · rw [fst_ingest_of_due hdone, hsend]
    · simp
    · exact List.forall_mem_append.mpr
        ⟨hblocks, List.forall_mem_singleton.mpr (hchannel.completed_absorb_iff.mp hdone)⟩
    · rw [sink_ingest_of_due hdone, hsend]
    · rw [ingest_of_accepted hdone hchannel.clock_eq (by rw [hsend]; exact hok)]
      exact hchannel.absorb_done hdone

/-- The session has read the bytes and then as many of those that were offered as the limit
allows, or up to a picture that could not be saved. -/
def ReadsUntil (limit : ℕ) (fresh : Session Exporter) (bytes offered : List UInt8)
    (result : Except Error Unit) (s : Session Exporter) : Prop :=
  ∃ n ≤ offered.length, fresh.Reads (bytes ++ offered.take n) result s ∧
    (bytes ++ offered.take n).length / fresh.channel.window.size ≤ limit ∧
    (result = .ok () → n = offered.length ∨
      (bytes ++ offered.take n).length / fresh.channel.window.size = limit)

variable {front back : List UInt8}

/-- What comes after bytes that were all read. -/
theorem ReadsUntil.of_front (h : ReadsUntil limit fresh (bytes ++ front) back result s) :
    ReadsUntil limit fresh bytes (front ++ back) result s := by
  obtain ⟨n, hn, hreads, hle, hstop⟩ := h
  have htake : (front ++ back).take (front.length + n) = front ++ back.take n :=
    List.take_length_add_append n
  refine ⟨front.length + n, ?_, ?_, ?_, fun hok => ?_⟩
  · rw [List.length_append]
    exact Nat.add_le_add_left hn _
  · rwa [htake, ← List.append_assoc]
  · rwa [htake, ← List.append_assoc]
  · rw [htake, ← List.append_assoc, List.length_append]
    exact (hstop hok).imp_left (congrArg (front.length + ·))

/-- Nothing is read once the limit is reached, or after a picture that could not be saved. -/
theorem ReadsUntil.append (h : ReadsUntil limit fresh bytes front result s)
    (hzero : fresh.sink.exported = 0) (hstop : result = .ok () → limit ≤ s.sink.exported)
    (back : List UInt8) : ReadsUntil limit fresh bytes (front ++ back) result s := by
  obtain ⟨n, hn, hreads, hle, -⟩ := h
  have htake : (front ++ back).take n = front.take n := List.take_append_of_le_length hn
  refine ⟨n, ?_, ?_, ?_, fun hok => Or.inr ?_⟩
  · rw [List.length_append]
    exact Nat.le_add_right_of_le hn
  · rwa [htake]
  · rwa [htake]
  · subst hok
    rw [htake]
    exact Nat.le_antisymm hle (hreads.exported_eq hzero ▸ hstop rfl)

/-- Bytes that were all read leave the limit to be reached. -/
theorem ReadsUntil.reads (h : ReadsUntil limit fresh bytes front (.ok ()) s)
    (hzero : fresh.sink.exported = 0) (hmore : s.sink.exported < limit) :
    fresh.Reads (bytes ++ front) (.ok ()) s ∧
      (bytes ++ front).length / fresh.channel.window.size < limit := by
  obtain ⟨n, -, hreads, -, hstop⟩ := h
  have hexported := hreads.exported_eq hzero
  rcases hstop rfl with rfl | hlimit
  · rw [List.take_length] at hreads hexported
    exact ⟨hreads, hexported ▸ hmore⟩
  · rw [hlimit] at hexported
    exact absurd hexported (Nat.ne_of_lt hmore)

/-- **What a chunk exports.** Intake after intake reads it as far as the limit allows. -/
theorem Reads.feedUntil (h : fresh.Reads bytes (.ok ()) s)
    (hfresh : fresh.channel.Holds [] fresh.channel) (hzero : fresh.sink.exported = 0)
    (hmore : bytes.length / fresh.channel.window.size < limit) (chunk : List UInt8) :
    ∃ result : Except Error Unit,
      (∀ e, (s.feedUntil (limit ≤ ·.exported) chunk).1.getLast? = some (.error e) ↔
        result = .error e) ∧
      ReadsUntil limit fresh bytes chunk result (s.feedUntil (limit ≤ ·.exported) chunk).2 := by
  -- Every intake takes something, since the window is never left full: what remains is shorter.
  induction hlength : chunk.length using Nat.strong_induction_on generalizing chunk bytes s with
  | _ length ih =>
    by_cases hchunk : chunk = []
    · rw [hchunk, feedUntil_nil]
      refine ⟨.ok (), by simp, 0, Nat.le_refl _, ?_, ?_, fun _ => Or.inl rfl⟩
      · rwa [List.take_zero, List.append_nil]
      · rw [List.take_zero, List.append_nil]
        exact Nat.le_of_lt hmore
    · obtain ⟨result, hanswer, hcount, hreads⟩ := h.ingest hfresh chunk
      obtain ⟨htaken, hroom⟩ := h.taken_absorb chunk
      generalize (s.channel.absorb chunk).2 = intake at hanswer hcount hreads htaken
      have hnonempty : intake.taken ≠ [] := by
        rw [htaken, Ne, List.take_eq_nil_iff, not_or]
        exact ⟨Nat.ne_of_gt hroom, hchunk⟩
      have hsplit : intake.taken ++ chunk.drop intake.taken.length = chunk := by
        rw [htaken]
        exact List.prefix_iff_eq_append.mp (List.take_prefix ..)
      have hone : ReadsUntil limit fresh bytes intake.taken result (s.ingest chunk).2 := by
        refine ⟨_, Nat.le_refl _, ?_, ?_, fun _ => Or.inl rfl⟩
        · rwa [List.take_length]
        · rw [List.take_length]
          exact Nat.le_trans hcount hmore
      rcases hingest : s.ingest chunk with ⟨answer, next⟩
      rw [hingest] at hanswer hone
      obtain rfl : answer = result.map fun _ => intake := hanswer
      cases result with
      | error e =>
        have hstop := hone.append hzero nofun (chunk.drop intake.taken.length)
        rw [hsplit] at hstop
        rw [feedUntil_of_error hchunk hingest]
        exact ⟨.error e, by simp, hstop⟩
      | ok =>
        by_cases hlimit : limit ≤ next.sink.exported
        · have hstop := hone.append hzero (fun _ => hlimit) (chunk.drop intake.taken.length)
          rw [hsplit] at hstop
          rw [feedUntil_of_enough hchunk hingest (decide_eq_true hlimit)]
          exact ⟨.ok (), by simp, hstop⟩
        · obtain ⟨hnext, hless⟩ := hone.reads hzero (Nat.not_le.mp hlimit)
          have hshorter : (chunk.drop intake.taken.length).length < length := by
            rw [← hlength, List.length_drop]
            exact length_sub_lt hchunk hnonempty
          obtain ⟨result, hlast, hrest⟩ := ih _ hshorter hnext hless _ rfl
          have hall := hrest.of_front
          rw [hsplit] at hall
          rw [feedUntil_of_more hchunk hingest (decide_eq_false hlimit) hnonempty]
          refine ⟨result, fun e => ?_, hall⟩
          rw [← hlast, List.getLast?_cons]
          generalize next.feedUntil (limit ≤ ·.exported) _ = fed
          cases fed.1.getLast? with
          | none => simp
          | some answer => simp

end Session

namespace Sensor

variable {limit chunk : ℕ} {s : Session Exporter}

theorem exported_readFrom_le (hchunk : 0 < chunk) (h : s.sink.exported < max limit 1)
    (stream : List UInt8) :
    (readFrom limit chunk hchunk s stream).2.sink.exported ≤ max limit 1 := by
  induction hlength : stream.length using Nat.strong_induction_on generalizing stream s with
  | _ length ih =>
    have hfeed := Session.exported_feedUntil_le h (stream.take chunk)
    rw [readFrom]
    split
    next => exact Nat.le_of_lt h
    next hstream =>
      dsimp only
      split
      next => exact hfeed
      next =>
        split
        next => exact hfeed
        next hmore =>
          rw [Nat.not_le] at hmore
          refine ih _ ?_ (Nat.lt_of_lt_of_le hmore (Nat.le_max_left ..)) _ rfl
          rw [← hlength]
          exact length_drop_lt hstream hchunk

/-! ### Reading a file -/

variable {fresh : Session Exporter} {bytes : List UInt8}

/-- **What a file exports.** Chunk after chunk is read as far as the limit allows. -/
theorem readsUntil_readFrom (hchunk : 0 < chunk) (h : fresh.Reads bytes (.ok ()) s)
    (hfresh : fresh.channel.Holds [] fresh.channel) (hzero : fresh.sink.exported = 0)
    (hmore : bytes.length / fresh.channel.window.size < limit) (stream : List UInt8) :
    Session.ReadsUntil limit fresh bytes stream (readFrom limit chunk hchunk s stream).1
      (readFrom limit chunk hchunk s stream).2 := by
  induction hlength : stream.length using Nat.strong_induction_on generalizing stream bytes s with
  | _ length ih =>
    by_cases hstream : stream = []
    · rw [hstream, readFrom, dif_pos rfl]
      refine ⟨0, Nat.le_refl _, ?_, ?_, fun _ => Or.inl rfl⟩
      · rwa [List.take_zero, List.append_nil]
      · rw [List.take_zero, List.append_nil]
        exact Nat.le_of_lt hmore
    · have hsplit := List.take_append_drop chunk stream
      obtain ⟨result, hlast, hfeed⟩ := h.feedUntil hfresh hzero hmore (stream.take chunk)
      rw [readFrom, dif_neg hstream]
      generalize s.feedUntil (limit ≤ ·.exported) (stream.take chunk) = fed at hlast hfeed ⊢
      obtain ⟨answers, next⟩ := fed
      dsimp only at hlast hfeed ⊢
      cases result with
      | error e =>
        have hstop := hfeed.append hzero nofun (stream.drop chunk)
        rw [hsplit] at hstop
        rwa [(hlast e).mpr rfl]
      | ok =>
        split
        next e heq => cases (hlast e).mp heq
        next =>
          by_cases hlimit : limit ≤ next.sink.exported
          · have hstop := hfeed.append hzero (fun _ => hlimit) (stream.drop chunk)
            rw [hsplit] at hstop
            rwa [if_pos hlimit]
          · obtain ⟨hnext, hless⟩ := hfeed.reads hzero (Nat.not_le.mp hlimit)
            have hshorter : (stream.drop chunk).length < length :=
              hlength ▸ length_drop_lt hstream hchunk
            have hall := (ih _ hshorter hnext hless _ rfl).of_front
            rw [hsplit] at hall
            rwa [if_neg hlimit]

/-- A limit of zero is looked at only after the first intake. -/
theorem readFrom_zero (hchunk : 0 < chunk) {stream : List UInt8} (hstream : stream ≠ []) :
    readFrom 0 chunk hchunk s stream =
      ((s.ingest (stream.take chunk)).1.map fun _ => (), (s.ingest (stream.take chunk)).2) := by
  have hfirst : stream.take chunk ≠ [] := by
    rw [Ne, List.take_eq_nil_iff, not_or]
    exact ⟨Nat.ne_of_gt hchunk, hstream⟩
  rw [readFrom, dif_neg hstream]
  rcases hingest : s.ingest (stream.take chunk) with ⟨e | intake, next⟩
  · rw [Session.feedUntil_of_error hfirst hingest]
    rfl
  · rw [Session.feedUntil_of_enough hfirst hingest (decide_eq_true (Nat.zero_le _))]
    exact if_pos (Nat.zero_le _)

end Sensor

/-- How many frames are exported of a file, of which so many bytes are read, under the block clock.
If the limit is zero, only the first intake counts. -/
def Arguments.frameCount (a : Arguments) (width rest : ℕ) : ℕ :=
  if a.frames = 0 then min 1 (min a.chunk rest / width) else min a.frames (rest / width)

namespace Sensor

variable {a : Arguments} {fresh : Session Exporter} {stream : List UInt8}

/-- **How far a file is read.** If all pictures can be saved, the bytes that are read have as many
blocks as frames are to be exported, and otherwise no more. -/
theorem reads_readFrom (hchunk : 0 < a.chunk) (hfresh : fresh.channel.Holds [] fresh.channel)
    (hzero : fresh.sink.exported = 0) (stream : List UInt8) :
    ∃ n, fresh.Reads (stream.take n) (readFrom a.frames a.chunk hchunk fresh stream).1
        (readFrom a.frames a.chunk hchunk fresh stream).2 ∧
      (stream.take n).length / fresh.channel.window.size ≤
        a.frameCount fresh.channel.window.size stream.length ∧
      ((readFrom a.frames a.chunk hchunk fresh stream).1 = .ok () →
        (stream.take n).length / fresh.channel.window.size =
          a.frameCount fresh.channel.window.size stream.length) := by
  have hwidth : 0 < fresh.channel.window.size := hfresh.length_tail_lt
  have hstart := Session.reads_fresh hfresh
  by_cases hframes : a.frames = 0
  · rw [Arguments.frameCount, if_pos hframes, hframes]
    by_cases hstream : stream = []
    · rw [hstream, readFrom, dif_pos rfl]
      exact ⟨0, hstart, by simp, by simp⟩
    · obtain ⟨result, hanswer, -, hreads⟩ := hstart.ingest hfresh (stream.take a.chunk)
      have hn : (stream.take (min fresh.channel.window.size a.chunk)).length /
          fresh.channel.window.size =
            min 1 (min a.chunk stream.length / fresh.channel.window.size) := by
        have hmono : Monotone (· / fresh.channel.window.size) := fun _ _ => Nat.div_le_div_right
        rw [List.length_take, Nat.min_assoc, ← Nat.div_self hwidth]
        exact hmono.map_min
      have hmap : (fresh.ingest (stream.take a.chunk)).1.map (fun _ => ()) = result := by
        rw [hanswer]
        cases result <;> rfl
      rw [List.nil_append, hfresh.taken_absorb, hfresh.remaining_eq, List.length_nil, Nat.sub_zero,
        List.take_take] at hreads
      rw [readFrom_zero hchunk hstream, hmap]
      exact ⟨_, hreads, Nat.le_of_eq hn, fun _ => hn⟩
  · have hpos : ([] : List UInt8).length / fresh.channel.window.size < a.frames := by
      rw [List.length_nil, Nat.zero_div]
      exact Nat.pos_of_ne_zero hframes
    obtain ⟨n, hn, hreads, hle, hstop⟩ :=
      readsUntil_readFrom hchunk hstart hfresh hzero hpos stream
    rw [List.nil_append] at hreads hle hstop
    have hlength : (stream.take n).length / fresh.channel.window.size ≤
        stream.length / fresh.channel.window.size :=
      Nat.div_le_div_right (List.length_take_le' ..)
    rw [Arguments.frameCount, if_neg hframes]
    refine ⟨n, hreads, Nat.le_min.mpr ⟨hle, hlength⟩, fun hok => ?_⟩
    rcases hstop hok with rfl | hlimit
    · rw [List.take_length] at hle ⊢
      exact (Nat.min_eq_right hle).symm
    · rw [hlimit] at hlength ⊢
      exact (Nat.min_eq_left hlength).symm

/-- The pictures of the first blocks of a file. -/
def pictures (fresh : Channel) (stream : List UInt8) (count : ℕ) : List Raster :=
  Session.picturesOf fresh ((List.range count).map (blockAt fresh.window.size stream))

/-- **The pictures that are saved** are those of the first blocks of the file. -/
theorem acceptAll_pictures {n count : ℕ} {result : Except Error Unit} {s : Session Exporter}
    (h : fresh.Reads (stream.take n) result s)
    (hle : (stream.take n).length / fresh.channel.window.size ≤ count)
    (hok : result = .ok () → (stream.take n).length / fresh.channel.window.size = count) :
    ∃ e log, fresh.sink.acceptAll (pictures fresh.channel stream count) = (result, e) ∧
      s.sink = e.withLog log := by
  obtain ⟨blocks, tail, e, log, hbytes, hblocks, htail, haccept, hsink, -⟩ := h
  have hfirst : (List.range blocks.length).map (blockAt fresh.channel.window.size stream) =
      blocks := by
    rw [← List.take_append_drop n stream, hbytes, List.append_assoc]
    exact map_blockAt hblocks
  rw [hbytes, length_blocks hblocks htail] at hle hok
  refine ⟨e, log, ?_, hsink⟩
  obtain ⟨more, rfl⟩ := Nat.exists_eq_add_of_le hle
  have hpictures : pictures fresh.channel stream (blocks.length + more) =
      Session.picturesOf fresh.channel blocks ++ Session.picturesOf fresh.channel
        (((List.range more).map (blocks.length + ·)).map
          (blockAt fresh.channel.window.size stream)) := by
    rw [pictures, List.range_add, List.map_append, hfirst]
    exact List.map_append
  rw [hpictures]
  cases result with
  | error refusal => exact Exporter.acceptAll_append_of_refused haccept
  | ok =>
    obtain rfl : more = 0 := by simpa using hok rfl
    rw [Exporter.acceptAll_append haccept]
    rfl

/-- How a run ends after the pictures were saved, or one of them could not be. -/
def endingOf : Except Error Unit × Exporter → Ending
  | (.error e, _) => .failed e
  | (.ok (), e) => .exported e.exported

/-- **What is exported of an open file.** -/
theorem exportFrom_eq (hchunk : 0 < a.chunk) (hlimit : a.chunk ≤ maxBufferBytes)
    (hfresh : fresh.channel.Holds [] fresh.channel) (hzero : fresh.sink.exported = 0)
    (content : FileContent) :
    let saved := fresh.sink.saveAll (pictures fresh.channel (streamOf content a.skip)
      (a.frameCount fresh.channel.window.size (streamOf content a.skip).length))
    (exportFrom a hchunk (.file content) fresh).1 = endingOf saved ∧
      (exportFrom a hchunk (.file content) fresh).2.volume = saved.2.volume := by
  obtain ⟨n, hreads, hle, hok⟩ :=
    reads_readFrom hchunk hfresh hzero (streamOf content a.skip)
  obtain ⟨e, log, haccept, hsink⟩ := acceptAll_pictures hreads hle hok
  intro saved
  have hsaved : saved = fresh.sink.saveAll (pictures fresh.channel (streamOf content a.skip)
      (a.frameCount fresh.channel.window.size (streamOf content a.skip).length)) := rfl
  rw [Exporter.saveAll, haccept] at hsaved
  rw [exportFrom, if_neg (Nat.not_lt.mpr hlimit), hsaved]
  generalize readFrom a.frames a.chunk hchunk fresh (streamOf content a.skip) = outcome at *
  obtain ⟨_ | ⟨⟩, s⟩ := outcome
  · dsimp only at hsink ⊢
    rw [hsink]
    exact ⟨rfl, rfl⟩
  · dsimp only at hsink ⊢
    rw [hsink, Exporter.finish_withLog]
    rcases e.finish with ⟨_ | ⟨⟩, last⟩
    · exact ⟨rfl, rfl⟩
    · exact ⟨rfl, rfl⟩

/-! ### Runs -/

variable {encoder : Encoder} {v : Volume} {entry : VolumeEntry} {stem : String} {c : Channel}

theorem prepare_eq_ok (hopen : v.openEntry a.target = .ok entry) (hskip : a.skip ≤ maxOffset)
    (hstem : Path.fileStem? a.target = some stem)
    (hbuild : Channel.build a.channelConfig = .ok c) : prepare encoder a v = .ok (entry,
      ⟨(registerPatterns a (c.setOffset a.skip)).1,
        Exporter.fresh encoder a.outputDirectory stem a.gif v⟩,
      (registerPatterns a (c.setOffset a.skip)).2) := by
  rw [prepare, hopen]
  simp only [Except.mapError, bind, Except.bind, if_neg (Nat.not_lt.mpr hskip), hstem,
    Session.start, hbuild, Except.map]
  rfl

/-- A run starts with an exporter that has exported nothing. -/
theorem exported_of_prepare {s : Session Exporter} {log : List LogLine}
    (h : prepare encoder a v = .ok (entry, s, log)) : s.sink.exported = 0 := by
  rw [prepare] at h
  obtain ⟨found, -, h⟩ := bind_eq_ok_iff.mp h
  dsimp only at h
  split_ifs at h
  · obtain ⟨_, hthrow, _⟩ := bind_eq_ok_iff.mp h
    cases hthrow
  · split at h
    next => cases h
    next =>
      obtain ⟨started, -, h⟩ := bind_eq_ok_iff.mp h
      obtain ⟨-, h⟩ := Prod.mk.inj (Except.ok.inj h)
      obtain ⟨rfl, -⟩ := Prod.mk.inj h
      rfl

theorem exportFrom_le (hchunk : 0 < a.chunk) {s : Session Exporter} {m : ℕ}
    (hzero : s.sink.exported = 0) (h : (exportFrom a hchunk entry s).1 = .exported m) :
    m ≤ max a.frames 1 := by
  rw [exportFrom.eq_def] at h
  split_ifs at h
  split at h
  next => cases h
  next content =>
    have hpos : s.sink.exported < max a.frames 1 := by
      rw [hzero]
      exact Nat.lt_of_lt_of_le Nat.zero_lt_one (Nat.le_max_right ..)
    have hle := exported_readFrom_le hchunk hpos (streamOf content a.skip)
    split at h
    next => cases h
    next next hread =>
      rw [hread] at hle
      have hfinish := next.sink.exported_finish
      split at h
      next => cases h
      next last hlast =>
        rw [hlast] at hfinish
        rw [← Ending.exported.inj h]
        exact Nat.le_trans (Nat.le_of_eq hfinish) hle

/-- **The limit**, under both clocks. No more frames are exported than it allows, or one if it
allows none. -/
theorem le_of_run_exported {m : ℕ} (h : (run encoder a v).ending = .exported m) :
    m ≤ max a.frames 1 := by
  rw [run] at h
  split at h
  next hchunk =>
    split at h
    next => cases h
    next entry s log hprepare => exact exportFrom_le hchunk (exported_of_prepare hprepare) h
  next => cases h

/-- The channel that a run starts with is fresh up to its patterns and its offset. -/
theorem holds_registerPatterns (hbuild : Channel.build a.channelConfig = .ok c)
    (hclock : a.clock = .block) :
    let fresh := (registerPatterns a (c.setOffset a.skip)).1
    fresh.Holds [] fresh ∧
      fresh.window.size = a.side * a.side * a.packing.footprint a.mapping := by
  obtain ⟨layout, hvalid, hside, hmapping, rfl⟩ := Channel.build_eq_ok_iff.mp hbuild
  have hregister : ∃ set, (registerPatterns a ((Channel.fresh a.channelConfig layout).setOffset
      a.skip)).1 = { (Channel.fresh a.channelConfig layout).setOffset a.skip with
        patterns := set } := by
    rw [registerPatterns]
    split
    next => exact ⟨_, rfl⟩
    next => exact Channel.channel_addPatterns _ _
  obtain ⟨set, hset⟩ := hregister
  have hholds := (Session.streamed_fresh hvalid hside hmapping hclock set).holds
  rw [hset]
  refine ⟨{ hholds with wellFormed := hholds.wellFormed.change (.offset a.skip) }, ?_⟩
  refine Array.size_replicate.trans ?_
  rw [hside, hmapping]
  rfl

theorem run_of_prepare (hchunk : 0 < a.chunk) {s : Session Exporter} {log : List LogLine}
    (h : prepare encoder a v = .ok (entry, s, log)) :
    (run encoder a v).ending = (exportFrom a hchunk entry s).1 ∧
      (run encoder a v).volume = (exportFrom a hchunk entry s).2.volume := by
  rw [run, dif_pos hchunk, h]
  exact ⟨rfl, rfl⟩

/-- **What a run exports under the block clock.** It saves the pictures of the first blocks of what
is left of the file after the bytes that are passed over, as many as there are to be exported. -/
theorem ending_of_run {data : Array UInt8}
    (hopen : v.openEntry a.target = .ok (.file (.bytes data)))
    (hstem : Path.fileStem? a.target = some stem)
    (hbuild : Channel.build a.channelConfig = .ok c) (hchunk : 0 < a.chunk)
    (hlimit : a.chunk ≤ maxBufferBytes) (hskip : a.skip ≤ maxOffset) (hclock : a.clock = .block) :
    let sink := Exporter.fresh encoder a.outputDirectory stem a.gif v
    let fresh := (registerPatterns a (c.setOffset a.skip)).1
    let width := a.side * a.side * a.packing.footprint a.mapping
    let saved := sink.saveAll ((List.range (a.frameCount width (data.size - a.skip))).map
      fun index => (fresh.frameOf (blockAt width (data.toList.drop a.skip) index)).raster)
    (run encoder a v).ending = endingOf saved ∧
      (run encoder a v).volume = saved.2.volume := by
  intro sink fresh width saved
  obtain ⟨hfresh, hwidth⟩ := holds_registerPatterns hbuild hclock
  have hlength : (streamOf (.bytes data) a.skip).length = data.size - a.skip := by
    rw [streamOf, List.length_drop, Array.length_toList]
  have hsaved : sink.saveAll (pictures fresh (streamOf (.bytes data) a.skip)
      (a.frameCount fresh.window.size (streamOf (.bytes data) a.skip).length)) = saved := by
    rw [pictures, Session.picturesOf, hwidth, hlength, List.map_map]
    rfl
  obtain ⟨hending, hvolume⟩ := run_of_prepare hchunk (prepare_eq_ok hopen hskip hstem hbuild)
  have hexport := @exportFrom_eq a ⟨fresh, sink⟩ hchunk hlimit hfresh rfl (.bytes data)
  rw [hsaved] at hexport
  exact ⟨hending.trans hexport.1, hvolume.trans hexport.2⟩

/-- No frame is too large for an animation. -/
theorem side_frameOf_lt {fresh : Channel} (h : fresh.WellFormed) (block : List UInt8) :
    (fresh.frameOf block).raster.side < 65536 := by
  have hside : (fresh.frameOf block).raster.side = fresh.side :=
    (h.absorb block).compose.side_raster
  exact hside ▸ Nat.lt_of_le_of_lt h.side_le (by decide)

/-- Frames can be saved as an animation at the top of a tree. -/
theorem saveAll_frames_at_top (hencoder : encoder.Animates) {fresh : Channel}
    (h : fresh.WellFormed) (hstem : '/' ∉ stem.toList)
    (hname : Path.IsName (Exporter.animationName stem))
    (hfree : v.lookup [Exporter.animationName stem] ≠ some .directory)
    (indices : List ℕ) (block : ℕ → List UInt8) :
    ((Exporter.fresh encoder "" stem true v).saveAll
      (indices.map fun index => (fresh.frameOf (block index)).raster)).1 = .ok () := by
  refine Exporter.saveAll_at_top hencoder hstem hname hfree fun raster hraster => ?_
  obtain ⟨index, -, rfl⟩ := List.mem_map.mp hraster
  exact side_frameOf_lt h (block index)

/-- A run that makes an animation at the top of a tree succeeds. -/
theorem ending_of_run_at_top (hencoder : encoder.Animates) {data : Array UInt8}
    (hopen : v.openEntry a.target = .ok (.file (.bytes data)))
    (hstem : Path.fileStem? a.target = some stem)
    (hbuild : Channel.build a.channelConfig = .ok c) (hchunk : 0 < a.chunk)
    (hlimit : a.chunk ≤ maxBufferBytes) (hskip : a.skip ≤ maxOffset) (hclock : a.clock = .block)
    (hgif : a.gif = true) (hdirectory : a.outputDirectory = "")
    (hname : Path.IsName (Exporter.animationName stem))
    (hfree : v.lookup [Exporter.animationName stem] ≠ some .directory) :
    (run encoder a v).ending = .exported (a.frameCount
      (a.side * a.side * a.packing.footprint a.mapping) (data.size - a.skip)) := by
  have hslash := Path.slash_notMem_of_fileStem? hstem
  rw [(ending_of_run hopen hstem hbuild hchunk hlimit hskip hclock).1, hdirectory, hgif]
  have hsave := saveAll_frames_at_top hencoder (holds_registerPatterns hbuild hclock).1.wellFormed
    hslash hname hfree (List.range (a.frameCount (a.side * a.side * a.packing.footprint a.mapping)
      (data.size - a.skip)))
    (blockAt (a.side * a.side * a.packing.footprint a.mapping) (data.toList.drop a.skip))
  generalize hresult : (Exporter.fresh encoder "" stem true v).saveAll _ = result at hsave ⊢
  obtain ⟨_, e⟩ := result
  obtain rfl := hsave
  rw [endingOf, (Exporter.saved_of_saveAll hslash hresult).1, List.length_map, List.length_range]

/-- **Frames exported from a file.** A run exports no more frames than its limit allows, or one if
the limit is zero. Under the block clock it exports the frames of the first blocks of what is left
of the file after the bytes that are passed over, whatever the length of the chunks: as many as
there are, or as the limit allows. If nothing goes wrong in saving them, the run succeeds; and if
the run succeeds, each of them is found where it was saved. -/
theorem frames_of_run (encoder : Encoder) (a : Arguments) (v : Volume) :
    (∀ m, (run encoder a v).ending = .exported m → m ≤ max a.frames 1) ∧
    ∀ (data : Array UInt8) (stem : String) (c : Channel),
      v.openEntry a.target = .ok (.file (.bytes data)) → Path.fileStem? a.target = some stem →
      Channel.build a.channelConfig = .ok c → 0 < a.chunk → a.chunk ≤ maxBufferBytes →
      a.skip ≤ maxOffset → a.clock = .block →
      let sink := Exporter.fresh encoder a.outputDirectory stem a.gif v
      let fresh := (registerPatterns a (c.setOffset a.skip)).1
      let width := a.side * a.side * a.packing.footprint a.mapping
      let count := a.frameCount width (data.size - a.skip)
      let rasters := (List.range count).map fun index =>
        (fresh.frameOf (blockAt width (data.toList.drop a.skip) index)).raster
      ((sink.saveAll rasters).1 = .ok () → (run encoder a v).ending = .exported count) ∧
        ∀ m, (run encoder a v).ending = .exported m →
          m = count ∧ sink.Saved (rasters.map Image.ofRaster) (run encoder a v).volume := by
  refine ⟨fun m => le_of_run_exported, ?_⟩
  intro data stem c hopen hstem hbuild hchunk hlimit hskip hclock sink fresh width count rasters
  obtain ⟨hending, hvolume⟩ :=
    @ending_of_run _ encoder _ _ _ _ hopen hstem hbuild hchunk hlimit hskip hclock
  have hcount : rasters.length = count := by rw [List.length_map, List.length_range]
  rw [hending, hvolume]
  change ((sink.saveAll rasters).1 = .ok () → endingOf (sink.saveAll rasters) = .exported count) ∧
    ∀ m, endingOf (sink.saveAll rasters) = .exported m →
      m = count ∧ sink.Saved (rasters.map Image.ofRaster) (sink.saveAll rasters).2.volume
  rcases hresult : sink.saveAll rasters with ⟨_ | ⟨⟩, e⟩
  · exact ⟨nofun, nofun⟩
  · obtain ⟨hexported, hfound⟩ :=
      Exporter.saved_of_saveAll (Path.slash_notMem_of_fileStem? hstem) hresult
    refine ⟨fun _ => congrArg Ending.exported (hexported.trans hcount), fun m hm => ?_⟩
    exact ⟨(Ending.exported.inj hm).symm.trans (hexported.trans hcount), hfound⟩

/-- A frame that the limit does not allow: the limit is zero, and the first intake completes a
window. -/
theorem frame_beyond_limit : ¬ ∀ (encoder : Encoder) (a : Arguments) (v : Volume) (m : ℕ),
    (run encoder a v).ending = .exported m → m ≤ a.frames := by
  intro hall
  let a : Arguments := { target := "a", side := 1, chunk := 1, frames := 0, gif := true }
  let v := Volume.empty.insert ["a"] (.file (.bytes #[7]))
  have hadmits : a.channelConfig.mapping.Admits a.channelConfig.side :=
    ⟨by decide, by decide, nofun⟩
  obtain ⟨c, hbuild⟩ := Channel.exists_build_iff.mpr hadmits
  have hfree : v.lookup [Exporter.animationName "a"] ≠ some .directory := by
    rw [Volume.lookup_alone (by decide) (by decide) (by decide)]
    nofun
  have hopen : v.openEntry "a" = .ok (.file (.bytes #[7])) := Volume.openEntry_name (by decide) _
  have hcount : a.frameCount (a.side * a.side * a.packing.footprint a.mapping)
      (#[(7 : UInt8)].size - a.skip) = 1 := by decide
  have hending := ending_of_run_at_top Encoder.animates_standard hopen (by decide) hbuild
    (by decide) (by decide) (by decide) rfl rfl (by decide) (by decide) hfree
  rw [hcount] at hending
  exact absurd (hall .standard a v 1 hending) (by decide)

/-- Chunks of three bytes, windows of four and a rest of nine: two frames, and a byte that is left
over. -/
theorem frames_of_run_uneven :
    let a : Arguments := { target := "a", side := 2, chunk := 3, skip := 1, gif := true }
    let v := Volume.empty.insert ["a"] (.file (.bytes #[9, 8, 7, 6, 5, 4, 3, 2, 1, 0]))
    ∃ c, Channel.build a.channelConfig = .ok c ∧ (run .standard a v).ending = .exported 2 ∧
      (run .standard a v).volume.openEntry "a_frames.gif" = .ok (.file (.animation
        (Image.ofRaster ((c.setOffset 1).frameOf [8, 7, 6, 5]).raster)
        [Image.ofRaster ((c.setOffset 1).frameOf [4, 3, 2, 1]).raster] 100)) := by
  intro a v
  have hadmits : a.channelConfig.mapping.Admits a.channelConfig.side :=
    ⟨by decide, by decide, nofun⟩
  obtain ⟨c, hbuild⟩ := Channel.exists_build_iff.mpr hadmits
  have hfree : v.lookup [Exporter.animationName "a"] ≠ some .directory := by
    rw [Volume.lookup_alone (by decide) (by decide) (by decide)]
    nofun
  have hfresh := (Channel.wellFormed_build hbuild).change (.offset 1)
  have hrun := (frames_of_run .standard a v).2 #[9, 8, 7, 6, 5, 4, 3, 2, 1, 0] "a" c
    (Volume.openEntry_name (by decide) _) (by decide) hbuild (by decide) (by decide) (by decide) rfl
  have hpatterns : (registerPatterns a (c.setOffset a.skip)).1 = c.setOffset 1 := rfl
  have hwidth : a.side * a.side * a.packing.footprint a.mapping = 4 := by decide
  have hcount : a.frameCount 4 (#[(9 : UInt8), 8, 7, 6, 5, 4, 3, 2, 1, 0].size - a.skip) = 2 := by
    decide
  have hdirectory : a.outputDirectory = "" := by decide
  dsimp only at hrun
  rw [hpatterns, hwidth, hcount, hdirectory] at hrun
  have hending := hrun.1 (saveAll_frames_at_top Encoder.animates_standard hfresh (by decide)
    (by decide) hfree _ _)
  have hpath : (Exporter.fresh .standard "" "a" a.gif v).animationPath = "a_frames.gif" :=
    Path.join_empty _
  have hrange : List.range 2 = [0, 1] := by decide
  have hfirst : blockAt 4 (List.drop a.skip [9, 8, 7, 6, 5, 4, 3, 2, 1, 0]) 0 = [8, 7, 6, 5] := by
    decide
  have hsecond : blockAt 4 (List.drop a.skip [9, 8, 7, 6, 5, 4, 3, 2, 1, 0]) 1 = [4, 3, 2, 1] := by
    decide
  have hfound := (hrun.2 2 hending).2.animation rfl
  rw [hpath, hrange, List.map_cons, List.map_singleton, hfirst, hsecond] at hfound
  obtain ⟨content, hcontent, hopened⟩ := hfound _ _ rfl
  have hframes : content = .animation
      (Image.ofRaster ((c.setOffset 1).frameOf [8, 7, 6, 5]).raster)
      [Image.ofRaster ((c.setOffset 1).frameOf [4, 3, 2, 1]).raster] 100 :=
    Encoder.eq_of_animation_standard hcontent
  exact ⟨c, hbuild, hending, hframes ▸ hopened⟩

end Sensor

end Bytescope
