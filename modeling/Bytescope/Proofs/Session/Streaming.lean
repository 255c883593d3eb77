import Bytescope.Proofs.Channel.Blocks
import Bytescope.Proofs.Session.Events
import Bytescope.Sink.Recorder

/-!
# Streams and their frames

A stream comes in chunks, each of which is fed to the channel until it is used up. Under the
block clock the receiver is sent one frame for every block of the stream, whatever the chunks
are: the frame that a fresh channel makes of the block, under its number. What is left of the
stream stays in the window.

## Main definitions

* `sendAll`, `Accepting`: a receiver that is sent frames and accepts them.
* `Session.stream`: feeds chunks one after the other.
* `Session.Fed`: what a session is after some bytes.
* `Session.ShowsBlock`: a block that is given at once is answered with its frame.
* `Session.Transcribed`: the frames of a stream are those of its blocks, and its rest is kept.

## Main results

* `Session.Fed.ingest`, `Session.Fed.feed`, `Session.Fed.stream`: what an intake, a chunk and a
  stream add.
* `Session.stream_eq_blocks`: the frames of a stream are those of its blocks.
-/

namespace Bytescope

section Sending

variable {σ : Type} [FrameSink σ]

/-- Sends frames one after the other. -/
def sendAll (sink : σ) (frames : List Frame) : σ :=
  frames.foldl (fun sink frame => (frame.send sink).2) sink

/-- A receiver that accepts all the frames it will be sent. -/
def Accepting (sink : σ) : Prop :=
  ∀ (frames : List Frame) (frame : Frame), (frame.send (sendAll sink frames)).1 = .ok ()

theorem sendAll_concat (sink : σ) (frames : List Frame) (frame : Frame) :
    sendAll sink (frames ++ [frame]) = (frame.send (sendAll sink frames)).2 := by
  rw [sendAll, List.foldl_append]
  rfl

end Sending

theorem Channel.framesOf_concat (c : Channel) (blocks : List (List UInt8)) (block : List UInt8) :
    c.framesOf (blocks ++ [block]) = c.framesOf blocks ++
      [(c.frameOf block).numbered (blocks.length + 1) ((blocks.length + 1) * c.window.size)] := by
  simp [framesOf, List.mapIdx_append]

/-- The operation that registers a pattern. -/
def PatternEntry.registration (entry : PatternEntry) : Operation :=
  .addPattern entry.bytes.toArray entry.alpha entry.id entry.flags

namespace Session

variable {σ : Type} [FrameSink σ]

/-- Feeds chunks one after the other, each until it is used up. -/
def stream (s : Session σ) (chunks : List (List UInt8)) : Session σ :=
  chunks.foldl (fun s chunk => (s.feed chunk).2) s

/-! ### Intakes -/

theorem ingest_of_open {s : Session σ} {chunk : List UInt8}
    (h : (s.channel.absorb chunk).2.completed = false) : s.ingest chunk =
      (.ok (s.channel.absorb chunk).2, ⟨(s.channel.absorb chunk).1, s.sink⟩) := by
  rw [ingest]
  dsimp only
  rw [if_neg (ne_true_of_eq_false h)]

theorem ingest_of_accepted {s : Session σ} {chunk : List UInt8}
    (h : (s.channel.absorb chunk).2.completed = true) (hblock : s.channel.clock = .block)
    (haccept : ((s.channel.absorb chunk).1.compose.1.send s.sink).1 = .ok ()) :
    s.ingest chunk = (.ok (s.channel.absorb chunk).2,
      ⟨((s.channel.absorb chunk).1.compose.2.settle true).restartCount,
        ((s.channel.absorb chunk).1.compose.1.send s.sink).2⟩) := by
  have hstep : step ⟨(s.channel.absorb chunk).1, s.sink⟩ =
      (.ok (), ⟨(s.channel.absorb chunk).1.compose.2.settle true,
        ((s.channel.absorb chunk).1.compose.1.send s.sink).2⟩) := by
    rw [step_eq, haccept]
    rfl
  rw [ingest]
  dsimp only
  rw [if_pos h, hstep]
  dsimp only
  exact if_pos hblock

@[simp] theorem feed_nil (s : Session σ) : s.feed [] = ([], s) := by
  rw [feed, feedUntil, dif_pos rfl]

section Feeding

variable {enough : σ → Bool} {s next : Session σ} {chunk : List UInt8} {intake : Intake}

theorem feedUntil_nil (enough : σ → Bool) (s : Session σ) : s.feedUntil enough [] = ([], s) := by
  rw [feedUntil, dif_pos rfl]

/-- Nothing is fed after an intake that was refused. -/
theorem feedUntil_of_error {e : Error} (hchunk : chunk ≠ [])
    (h : s.ingest chunk = (.error e, next)) : s.feedUntil enough chunk = ([.error e], next) := by
  rw [feedUntil, dif_neg hchunk, h]

/-- Nothing is fed once the receiver has had enough. -/
theorem feedUntil_of_enough (hchunk : chunk ≠ []) (h : s.ingest chunk = (.ok intake, next))
    (henough : enough next.sink = true) : s.feedUntil enough chunk = ([.ok intake], next) := by
  rw [feedUntil, dif_neg hchunk, h]
  exact dif_pos (Or.inl henough)

/-- What an intake leaves of a chunk is fed again. -/
theorem feedUntil_of_more (hchunk : chunk ≠ []) (h : s.ingest chunk = (.ok intake, next))
    (hmore : enough next.sink = false) (htaken : intake.taken ≠ []) :
    s.feedUntil enough chunk =
      (.ok intake :: (next.feedUntil enough (chunk.drop intake.taken.length)).1,
        (next.feedUntil enough (chunk.drop intake.taken.length)).2) := by
  rw [feedUntil, dif_neg hchunk, h]
  exact dif_neg (not_or.mpr ⟨ne_true_of_eq_false hmore, htaken⟩)

end Feeding

/-- What an intake leaves of a chunk is fed again. -/
theorem feed_of_ingest {s : Session σ} {chunk : List UInt8} {intake : Intake} (hchunk : chunk ≠ [])
    (hok : (s.ingest chunk).1 = .ok intake) (htaken : intake.taken ≠ []) :
    (s.feed chunk).2 = ((s.ingest chunk).2.feed (chunk.drop intake.taken.length)).2 := by
  rw [feed, feedUntil_of_more hchunk (Prod.ext hok rfl) rfl htaken]
  rfl

/-- The session has been given these bytes since it was fresh: it has sent the frames of their
blocks and keeps the rest. -/
def Fed (fresh : Session σ) (bytes : List UInt8) (s : Session σ) : Prop :=
  ∃ blocks tail, bytes = blocks.flatten ++ tail ∧ fresh.channel.Streamed blocks tail s.channel ∧
    s.sink = sendAll fresh.sink (fresh.channel.framesOf blocks)

namespace Fed

variable {fresh s : Session σ} {bytes : List UInt8}

/-- An intake gives the session what it takes. -/
theorem ingest (hfresh : fresh.channel.Streamed [] [] fresh.channel)
    (haccept : Accepting fresh.sink) (h : fresh.Fed bytes s) {chunk : List UInt8}
    (hlimit : bytes.length + chunk.length < wordSize) :
    (s.ingest chunk).1 = .ok (s.channel.absorb chunk).2 ∧
      fresh.Fed (bytes ++ chunk.take s.channel.remaining) (s.ingest chunk).2 := by
  obtain ⟨blocks, tail, rfl, hchannel, hsink⟩ := h
  rw [List.length_append, length_flatten_blocks hchannel.length_eq] at hlimit
  cases hdone : (s.channel.absorb chunk).2.completed with
  | false =>
    rw [ingest_of_open hdone, List.append_assoc]
    exact ⟨rfl, blocks, _, rfl, hchannel.absorb_open hlimit hdone, hsink⟩
  | true =>
    have hframe := hchannel.fst_compose_absorb_eq_numbered hfresh hlimit hdone
    have hsent : ((s.channel.absorb chunk).1.compose.1.send s.sink).1 = .ok () := by
      rw [hsink]
      exact haccept _ _
    rw [ingest_of_accepted hdone hchannel.clock_eq hsent]
    refine ⟨rfl, _, [], ?_, hchannel.absorb_done hlimit hdone, ?_⟩
    · simp
    · rw [Channel.framesOf_concat, sendAll_concat, ← hframe, hsink]

/-- A chunk is used up. -/
theorem feed (hfresh : fresh.channel.Streamed [] [] fresh.channel)
    (haccept : Accepting fresh.sink) (h : fresh.Fed bytes s) {chunk : List UInt8}
    (hlimit : bytes.length + chunk.length < wordSize) :
    fresh.Fed (bytes ++ chunk) (s.feed chunk).2 := by
  -- Every intake takes something, since the window is never left full: what remains is shorter.
  induction hlength : chunk.length using Nat.strong_induction_on generalizing chunk bytes s with
  | _ length ih =>
    by_cases hchunk : chunk = []
    · rwa [hchunk, feed_nil, List.append_nil]
    · obtain ⟨hok, hfed⟩ := h.ingest hfresh haccept hlimit
      obtain ⟨blocks, tail, -, hchannel, -⟩ := h
      rw [← hchannel.holds.taken_absorb] at hfed
      have htaken : (s.channel.absorb chunk).2.taken ≠ [] := by
        rw [hchannel.holds.taken_absorb, Ne, List.take_eq_nil_iff, not_or]
        exact ⟨Nat.ne_of_gt hchannel.holds.remaining_pos, hchunk⟩
      have hsplit : (s.channel.absorb chunk).2.taken ++
          chunk.drop (s.channel.absorb chunk).2.taken.length = chunk := by
        rw [hchannel.holds.taken_absorb]
        exact List.prefix_iff_eq_append.mp (List.take_prefix ..)
      have hshorter : (chunk.drop (s.channel.absorb chunk).2.taken.length).length < length := by
        rw [List.length_drop, ← hlength]
        exact length_sub_lt hchunk htaken
      rw [← hsplit, List.length_append, ← Nat.add_assoc, ← List.length_append] at hlimit
      have hrest := ih _ hshorter hfed hlimit rfl
      rwa [List.append_assoc, hsplit, ← feed_of_ingest hchunk hok htaken] at hrest

/-- A stream is used up, however it is cut. -/
theorem stream (hfresh : fresh.channel.Streamed [] [] fresh.channel)
    (haccept : Accepting fresh.sink) (h : fresh.Fed bytes s) {chunks : List (List UInt8)}
    (hlimit : bytes.length + chunks.flatten.length < wordSize) :
    fresh.Fed (bytes ++ chunks.flatten) (s.stream chunks) := by
  induction chunks generalizing bytes s with
  | nil => simpa [Session.stream] using h
  | cons chunk rest ih =>
    rw [List.flatten_cons, List.length_append] at hlimit
    rw [List.flatten_cons, ← List.append_assoc]
    refine ih (h.feed hfresh haccept (by omega)) ?_
    rwa [List.length_append, Nat.add_assoc]

/-- An intake of nothing changes nothing. -/
theorem ingest_nil (h : fresh.Fed bytes s) (hlimit : bytes.length < wordSize) :
    s.ingest [] = (.ok ⟨[], false⟩, s) := by
  obtain ⟨blocks, tail, rfl, hchannel, -⟩ := h
  rw [List.length_append, length_flatten_blocks hchannel.length_eq] at hlimit
  have hnothing := hchannel.absorb_nil hlimit
  rw [ingest_of_open (by rw [hnothing]), hnothing]

/-- The receiver has been sent the frames of the blocks. -/
theorem sink_eq (h : fresh.Fed bytes s) : s.sink = sendAll fresh.sink
    ((List.range (bytes.length / fresh.channel.window.size)).map fun index =>
      (fresh.channel.frameOf (blockAt fresh.channel.window.size bytes index)).numbered (index + 1)
        ((index + 1) * fresh.channel.window.size)) := by
  obtain ⟨blocks, tail, rfl, hchannel, hsink⟩ := h
  have hblocks : (List.range blocks.length).map (blockAt _ (blocks.flatten ++ tail)) = blocks :=
    map_blockAt hchannel.length_eq
  rw [hsink, length_blocks hchannel.length_eq hchannel.holds.length_tail_lt, Channel.framesOf]
  refine congrArg (sendAll fresh.sink) (List.ext_getElem (by simp) fun index hindex _ => ?_)
  have hindex' : index < blocks.length := by simpa using hindex
  have hblock : blockAt fresh.channel.window.size (blocks.flatten ++ tail) index =
      blocks[index] := by
    rw [← List.getElem_of_eq hblocks (by simpa using hindex')]
    simp
  simp [hblock]

end Fed

/-- The receiver has been sent the frames that a fresh channel makes of the blocks of a stream, each
under its number and with the bytes processed by then. The rest of the stream is in the window and
has been counted, every byte is processed, and an intake of nothing does nothing. -/
structure Transcribed (sink : σ) (fresh : Channel) (width : ℕ) (bytes : List UInt8)
    (t : Session σ) : Prop where
  sink_eq : t.sink = sendAll sink ((List.range (bytes.length / width)).map fun index =>
    (fresh.frameOf (blockAt width bytes index)).numbered (index + 1) ((index + 1) * width))
  frames_eq : t.channel.frames = bytes.length / width
  fill_eq : t.channel.window.fill = bytes.length % width
  kept_eq : t.channel.window.data.toList.take t.channel.window.fill =
    bytes.drop (bytes.length / width * width)
  counts : t.channel.histogram.Counts (bytes.drop (bytes.length / width * width))
  processed_eq : t.channel.processed = bytes.length
  ingest_nil : t.ingest [] = (.ok ⟨[], false⟩, t)

theorem Fed.transcribed {fresh s : Session σ} {bytes : List UInt8} (h : fresh.Fed bytes s)
    {width : ℕ} (hwidth : fresh.channel.window.size = width) (hlimit : bytes.length < wordSize) :
    Transcribed fresh.sink fresh.channel width bytes s := by
  subst hwidth
  have hsink := h.sink_eq
  have hnothing := h.ingest_nil hlimit
  obtain ⟨blocks, tail, rfl, hchannel, -⟩ := h
  have hlength := hchannel.length_eq
  have htail := hchannel.holds.length_tail_lt
  have hcount := length_blocks hlength htail
  have hrest : (blocks.flatten ++ tail).drop
      ((blocks.flatten ++ tail).length / fresh.channel.window.size * fresh.channel.window.size) =
        tail := by
    rw [hcount, drop_blocks hlength]
  exact
    { sink_eq := hsink
      frames_eq := hchannel.frames_eq.trans hcount.symm
      fill_eq := hchannel.holds.fill_eq.trans (length_tail hlength htail).symm
      kept_eq := hchannel.written.trans hrest.symm
      counts := hrest.symm ▸ hchannel.counts
      processed_eq := by
        rw [hchannel.processed_eq, List.length_append, length_flatten_blocks hlength]
      ingest_nil := hnothing }

/-! ### Fresh sessions -/

/-- Registering patterns changes nothing but the patterns. -/
theorem run_registrations (s : Session σ) (patterns : List PatternEntry) : ∃ set : PatternSet,
    s.run (patterns.map PatternEntry.registration) =
      ⟨{ s.channel with patterns := set }, s.sink⟩ := by
  induction patterns using List.reverseRecOn with
  | nil => exact ⟨s.channel.patterns, rfl⟩
  | append_singleton patterns entry ih =>
    obtain ⟨set, hset⟩ := ih
    rw [List.map_append, List.map_singleton, run_concat, hset, perform_of_not_due rfl,
      PatternEntry.registration, Channel.prepare]
    cases hadd : Channel.addPattern { s.channel with patterns := set } entry.bytes.toArray
        entry.alpha entry.id entry.flags with
    | error e => exact ⟨set, rfl⟩
    | ok d =>
      obtain ⟨next, rfl⟩ := Channel.addPattern_eq_ok hadd
      exact ⟨next, rfl⟩

/-- A fresh channel has been given nothing. -/
theorem streamed_fresh {config : ChannelConfig} {layout : Layout} (hvalid : layout.Valid)
    (hside : layout.side = config.side) (hmapping : layout.mapping = config.mapping)
    (hclock : config.clock = .block) (set : PatternSet) :
    let c := { Channel.fresh config layout with patterns := set }
    c.Streamed [] [] c where
  wellFormed := by
    have hbuild := Channel.build_eq_ok_iff.mpr ⟨layout, hvalid, hside, hmapping, rfl⟩
    exact (Channel.wellFormed_build hbuild).change (.patterns set)
  clock_eq := hclock
  size_eq := rfl
  sceneOf_eq := rfl
  length_eq := fun _ hmem => absurd hmem List.not_mem_nil
  written := rfl
  counts := Histogram.counts_empty
  processed_eq := by simp [Channel.fresh]
  frames_eq := rfl
  unannounced_eq := rfl
  blank := fun _ => congrArg (Raster.uniform · Pixel.background) hside

/-- A block that is given to a fresh session at once is taken as a whole, and its frame is sent,
with the first number, the entropy of the block and the code of the modes. -/
structure ShowsBlock (sink : σ) (width : ℕ) (code : List UInt8) (fresh : Session σ)
    (block : List UInt8) : Prop where
  fst_ingest : (fresh.ingest block).1 = .ok ⟨block, true⟩
  sink_ingest : (fresh.ingest block).2.sink = ((fresh.channel.frameOf block).send sink).2
  notices_eq : ∃ found : List MatchCount, (fresh.channel.frameOf block).notices =
    .status 1 width (unitEntropy (shannonEntropy block.toArray)) ::
      .stream code :: found.map .matched

theorem showsBlock_of_streamed {s : Session σ} (hfresh : s.channel.Streamed [] [] s.channel)
    (haccept : Accepting s.sink) {block : List UInt8}
    (hblock : block.length = s.channel.window.size) :
    ShowsBlock s.sink s.channel.window.size
      (streamCode s.channel.packing s.channel.mapping s.channel.footprint) s block := by
  obtain ⟨htaken, hframe⟩ := hfresh.frameOf_eq hblock
  have hdone : (s.channel.absorb block).2.completed = true := by rw [htaken]
  have hingest := ingest_of_accepted hdone hfresh.clock_eq (haccept [] _)
  rw [htaken] at hingest
  refine ⟨congrArg Prod.fst hingest, congrArg (fun r => r.2.sink) hingest, ?_⟩
  rw [hframe, hfresh.wellFormed.footprint_scene]
  exact ⟨_, rfl⟩

/-- **Streams and their frames.** Let a channel under the block clock with any configuration that
is granted, any patterns and a receiver that accepts every frame be fed a stream, cut into chunks
in any way. Then the receiver is sent one frame for each block of the stream and nothing else: the
frame which the fresh channel makes of the block when it is given the block at once, under its
number and with the bytes processed by then. So it makes no difference to the receiver how the
stream is cut. The rest of the stream is in the window and has been counted, every byte is
processed, and an intake of nothing does nothing. -/
theorem stream_eq_blocks (sink : σ) (config : ChannelConfig)
    (hadmits : config.mapping.Admits config.side) (hclock : config.clock = .block)
    (haccept : Accepting sink) (patterns : List PatternEntry) (chunks : List (List UInt8))
    (hlimit : chunks.flatten.length < wordSize) :
    ∃ s, start sink config = .ok s ∧
      let fresh := s.run (patterns.map PatternEntry.registration)
      let t := fresh.stream chunks
      let width := config.side * config.side * config.packing.footprint config.mapping
      let code := streamCode config.packing config.mapping
        (config.packing.footprint config.mapping)
      Transcribed sink fresh.channel width chunks.flatten t ∧
        (∀ others : List (List UInt8), others.flatten = chunks.flatten →
          (fresh.stream others).sink = t.sink) ∧
        ∀ block : List UInt8, block.length = width → ShowsBlock sink width code fresh block := by
  obtain ⟨c, hbuild⟩ := Channel.exists_build_iff.mpr hadmits
  obtain ⟨layout, hvalid, hside, hmapping, rfl⟩ := Channel.build_eq_ok_iff.mp hbuild
  refine ⟨⟨Channel.fresh config layout, sink⟩, by rw [start, hbuild]; rfl, ?_⟩
  obtain ⟨set, hset⟩ := run_registrations ⟨Channel.fresh config layout, sink⟩ patterns
  rw [hset]
  intro fresh t width code
  have hfresh : fresh.channel.Streamed [] [] fresh.channel :=
    streamed_fresh hvalid hside hmapping hclock set
  have hwidth : fresh.channel.window.size = width := by
    refine Array.size_replicate.trans ?_
    rw [hside, hmapping]
  have hmode : fresh.channel.mapping = config.mapping := hmapping
  have hstream (pieces : List (List UInt8)) (hpieces : pieces.flatten = chunks.flatten) :
      Transcribed sink fresh.channel width chunks.flatten (fresh.stream pieces) := by
    have hnone : fresh.Fed [] fresh := ⟨[], [], rfl, hfresh, rfl⟩
    have hfed := hnone.stream hfresh haccept
      (by rwa [hpieces, List.length_nil, Nat.zero_add])
    rw [hpieces] at hfed
    exact hfed.transcribed hwidth hlimit
  refine ⟨hstream chunks rfl, fun others hothers => ?_, fun block hblock => ?_⟩
  · exact (hstream others hothers).sink_eq.trans (hstream chunks rfl).sink_eq.symm
  · have hshows := showsBlock_of_streamed hfresh haccept (hblock.trans hwidth.symm)
    rwa [hwidth, hmode] at hshows

/-- Nine bytes in chunks of one, none and eight make two frames, and the last byte is left. -/
theorem stream_eq_blocks_uneven : Accepting (Recorder.fresh true) ∧ Mapping.raster.Admits 2 ∧
    ∃ s, start (Recorder.fresh true) { side := 2 } = .ok s ∧
    let fresh := s.run [.addPattern #[2] 9 7 ⟨false, true⟩]
    let t := fresh.stream [[1], [], [2, 3, 4, 5, 6, 7, 8, 9]]
    t.sink = sendAll (Recorder.fresh true)
        [(fresh.channel.frameOf [1, 2, 3, 4]).numbered 1 4,
          (fresh.channel.frameOf [5, 6, 7, 8]).numbered 2 8] ∧
      t.channel.window.fill = 1 ∧ t.channel.histogram.Counts [9] ∧ t.channel.processed = 9 := by
  have haccept : Accepting (Recorder.fresh true) := fun _ _ => rfl
  have hadmits : Mapping.raster.Admits 2 := ⟨by decide, by decide, nofun⟩
  have hwidth : 2 * 2 * Packing.intensity.footprint .raster = 4 := rfl
  have hbytes : [[1], [], [2, 3, 4, 5, 6, 7, 8, 9]].flatten =
      ([1, 2, 3, 4, 5, 6, 7, 8, 9] : List UInt8) := rfl
  obtain ⟨s, hstart, hstream⟩ := stream_eq_blocks (Recorder.fresh true) { side := 2 } hadmits rfl
    haccept [⟨7, [2], 9, ⟨false, true⟩⟩] [[1], [], [2, 3, 4, 5, 6, 7, 8, 9]] (by decide)
  dsimp only at hstream
  rw [hwidth, hbytes] at hstream
  obtain ⟨hend, -, -⟩ := hstream
  exact ⟨haccept, hadmits, s, hstart, hend.sink_eq, hend.fill_eq, hend.counts, hend.processed_eq⟩

end Session

end Bytescope
