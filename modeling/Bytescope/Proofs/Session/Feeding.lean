import Bytescope.Proofs.Session.Sliding
import Mathlib.Algebra.Order.Floor.Div

/-!
# Feeding a chunk

A chunk is fed by offering the channel what is left of it, as long as something is left. Nothing
counts the intakes: that they come to an end, and after how many, is due to the window, which has
bytes and is never left full. All intakes but the last one fill the window.

## Main definitions

* `Session.Feeding`: the intakes of a chunk that is fed to the end.
* `Channel.held`: what the next frame keeps of the window.

## Main results

* `Session.Steady.exists_feeding`: feeding comes to an end.
* `Session.Feeding.length_eq`, `Session.Feeding.countP_of_block`: how many intakes it takes, and
  how many frames it makes.
* `Session.feeding_of_run`: feeding a channel that can be reached.
-/

namespace Bytescope

/-! ### Windows -/

namespace Window

variable (w : Window) (chunk : List UInt8)

/-- Under the block clock the bytes taken are written where the others end. -/
theorem getElem?_written {offset : ℕ} (hoffset : offset < (chunk.take w.remaining).length) :
    (w.ingest .block chunk).1.data[w.fill + offset]? = (chunk.take w.remaining)[offset]? := by
  rw [← Array.getElem?_toList, toList_ingest_block, List.append_assoc,
    List.getElem?_append_right (by rw [length_take_fill]; exact Nat.le_add_right _ _),
    length_take_fill, Nat.add_sub_cancel_left, List.getElem?_append_left hoffset]

/-- All other bytes stay. -/
theorem getElem?_unwritten {position : ℕ} (hposition : position < w.fill ∨
    w.fill + (chunk.take w.remaining).length ≤ position) :
    (w.ingest .block chunk).1.data[position]? = w.data[position]? := by
  rw [← Array.getElem?_toList, toList_ingest_block, ← Array.getElem?_toList]
  rcases hposition with hbefore | hafter
  · rw [List.append_assoc, List.getElem?_append_left (by rwa [length_take_fill]),
      List.getElem?_take_of_lt hbefore]
  · have hfront : (w.data.toList.take w.fill ++ chunk.take w.remaining).length =
        w.fill + (chunk.take w.remaining).length := by
      rw [List.length_append, length_take_fill]
    rw [List.getElem?_append_right (hfront ▸ hafter), List.getElem?_drop, hfront,
      Nat.add_sub_of_le hafter]

end Window

/-! ### Intakes -/

namespace Channel

variable {c : Channel} {chunk : List UInt8}

/-- How many bytes of the window the next intake keeps for the next frame. -/
def held (c : Channel) : ℕ :=
  match c.clock with
  | .block => c.window.fill
  | .slide => 0

theorem held_of_block (h : c.clock = .block) : c.held = c.window.fill := by
  rw [held, h]

theorem held_of_slide (h : c.clock = .slide) : c.held = 0 := by
  rw [held, h]

theorem room_eq (c : Channel) : c.room = c.window.size - c.held := by
  rw [room, held]
  cases c.clock <;> rfl

theorem held_of_fill (h : c.window.fill = 0) : c.held = 0 := by
  rw [held]
  cases c.clock
  · exact h
  · rfl

theorem WellFormed.held_lt (h : c.WellFormed) : c.held < c.window.size := by
  rw [held]
  cases c.clock
  · exact h.fill_lt
  · exact h.size_pos

theorem WellFormed.room_pos (h : c.WellFormed) : 0 < c.room := by
  have hlt := h.held_lt
  rw [room_eq]
  omega

/-- Under the block clock a frame is due if the chunk fills the window. -/
theorem completed_absorb_of_block (h : c.clock = .block) (chunk : List UInt8) :
    (c.absorb chunk).2.completed = decide (c.room ≤ chunk.length) := by
  have hfill : c.window.fill ≤ c.window.size := c.window.fill_le
  have hroom : c.room = c.window.remaining := by rw [room, h]; rfl
  rw [absorb, h]
  dsimp only
  rw [Window.completed_ingest_block, List.length_take, hroom, Window.remaining, decide_eq_decide]
  omega

theorem completed_absorb_of_room_le (hroom : c.room ≤ chunk.length) :
    (c.absorb chunk).2.completed = true := by
  cases hclock : c.clock with
  | block => rw [completed_absorb_of_block hclock, decide_eq_true hroom]
  | slide => rw [(absorb_of_slide hclock chunk).1]

end Channel

namespace Session

variable {σ : Type} [FrameSink σ]

/-- An intake whose frame is accepted. -/
theorem ingest_of_due {s : Session σ} {chunk : List UInt8}
    (hdue : (s.channel.absorb chunk).2.completed = true)
    (haccept : ((s.channel.absorb chunk).1.compose.1.send s.sink).1 = .ok ()) :
    s.ingest chunk = (.ok (s.channel.absorb chunk).2,
      ⟨((s.channel.absorb chunk).1.compose.2.settle true).conclude (.ingest chunk) true,
        ((s.channel.absorb chunk).1.compose.1.send s.sink).2⟩) := by
  refine Prod.ext ?_ ?_
  · rw [fst_ingest_of_due hdue, haccept]
    rfl
  · rw [ingest_eq, if_pos hdue, present, step_eq, haccept]
    rfl

/-- The session has a well-formed channel with this clock and a window of this width, and a
receiver that accepts everything. -/
structure Steady (width : ℕ) (clock : Clock) (s : Session σ) : Prop where
  wellFormed : s.channel.WellFormed
  accepting : Accepting s.sink
  size_eq : s.channel.window.size = width
  clock_eq : s.channel.clock = clock

variable {width : ℕ} {clock : Clock} {s next last : Session σ} {chunk : List UInt8}

/-- What an intake does to a session whose receiver accepts everything. -/
theorem Steady.ingest (h : Steady width clock s) (chunk : List UInt8) :
    (s.ingest chunk).1 = .ok (s.channel.absorb chunk).2 ∧
      Steady width clock (s.ingest chunk).2 ∧
      (s.ingest chunk).2.channel.window = (s.channel.absorb chunk).1.window ∧
      (s.ingest chunk).2.channel.frames =
        s.channel.frames + if (s.channel.absorb chunk).2.completed then 1 else 0 := by
  have hsize : (s.channel.absorb chunk).1.window.size = width :=
    (Window.size_ingest ..).trans h.size_eq
  have hclock : (s.channel.absorb chunk).1.clock = clock := h.clock_eq
  have hwell := h.wellFormed.absorb chunk
  cases hdue : (s.channel.absorb chunk).2.completed with
  | false =>
    rw [ingest_of_open hdue]
    exact ⟨rfl, ⟨hwell, h.accepting, hsize, hclock⟩, rfl, rfl⟩
  | true =>
    obtain ⟨hkeep, hwindow⟩ :=
      Channel.window_conclude (s.channel.absorb chunk).1 (.ingest chunk) true
    obtain ⟨hframes, -⟩ :=
      Channel.counters_conclude (s.channel.absorb chunk).1 (.ingest chunk) true
    rw [ingest_of_due hdue (h.accepting [] _)]
    exact ⟨rfl, ⟨(hwell.compose.settle true).conclude (.ingest chunk) true, h.accepting.send _,
      (congrArg Window.size hwindow).trans hsize, hkeep.trans hclock⟩, hwindow, hframes⟩

/-! ### Feeding -/

/-- One intake of a chunk that is fed. -/
structure Call (σ : Type) where
  /-- The session before it. -/
  session : Session σ
  /-- The bytes that are offered to it. -/
  offered : List UInt8
  /-- What it takes of them. -/
  intake : Intake

/-- What is left of a chunk is offered again until nothing is left. An intake that takes nothing
does not end this: the same bytes would be offered forever. -/
inductive Feeding : Session σ → List UInt8 → List (Call σ) → Session σ → Prop
  | done (s : Session σ) : Feeding s [] [] s
  | call {s next last : Session σ} {chunk : List UInt8} {intake : Intake} {calls : List (Call σ)}
      (hchunk : chunk ≠ []) (hok : s.ingest chunk = (.ok intake, next))
      (hrest : Feeding next (chunk.drop intake.taken.length) calls last) :
      Feeding s chunk (⟨s, chunk, intake⟩ :: calls) last

variable {calls : List (Call σ)} {intake : Intake}

/-- An intake takes something of what is offered, and leaves the rest. -/
theorem Steady.taken_eq (h : Steady width clock s) (hok : s.ingest chunk = (.ok intake, next)) :
    intake = (s.channel.absorb chunk).2 ∧ intake.taken = chunk.take s.channel.room ∧
      intake.taken ++ chunk.drop intake.taken.length = chunk ∧ Steady width clock next := by
  obtain ⟨hintake, hnext, -⟩ := h.ingest chunk
  rw [hok] at hintake hnext
  obtain rfl := Except.ok.inj hintake
  have htaken := s.channel.taken_absorb chunk
  refine ⟨rfl, htaken, ?_, hnext⟩
  rw [htaken]
  exact List.prefix_iff_eq_append.mp (List.take_prefix ..)

theorem Steady.taken_ne_nil (h : Steady width clock s) (hchunk : chunk ≠ []) :
    chunk.take s.channel.room ≠ [] := by
  rw [Ne, List.take_eq_nil_iff, not_or]
  exact ⟨h.wellFormed.room_pos.ne', hchunk⟩

/-- Feeding comes to an end: every intake takes something. -/
theorem Steady.exists_feeding (h : Steady width clock s) (chunk : List UInt8) :
    ∃ calls last, Feeding s chunk calls last := by
  induction hlength : chunk.length using Nat.strong_induction_on generalizing chunk s with
  | _ length ih =>
    by_cases hchunk : chunk = []
    · exact ⟨[], s, hchunk ▸ .done s⟩
    · obtain ⟨hintake, hnext, -⟩ := h.ingest chunk
      have hshorter : (chunk.drop (s.channel.absorb chunk).2.taken.length).length < length := by
        rw [List.length_drop, ← hlength, s.channel.taken_absorb]
        exact length_sub_lt hchunk (h.taken_ne_nil hchunk)
      obtain ⟨calls, last, hrest⟩ := ih _ hshorter hnext _ rfl
      exact ⟨_, last, .call hchunk (Prod.ext hintake rfl) hrest⟩

namespace Feeding

theorem calls_eq_nil (h : Feeding s chunk calls last) (hnone : chunk = []) : calls = [] := by
  cases h with
  | done => rfl
  | call hchunk => exact absurd hnone hchunk

/-- What the intakes are, one by one. -/
theorem call_eq (h : Feeding s chunk calls last) (hs : Steady width clock s) :
    ∀ call ∈ calls, Steady width clock call.session ∧ call.offered ≠ [] ∧
      call.intake = (call.session.channel.absorb call.offered).2 := by
  induction h with
  | done s => exact fun _ hmem => absurd hmem List.not_mem_nil
  | call hchunk hok hrest ih =>
    obtain ⟨hintake, -, -, hnext⟩ := hs.taken_eq hok
    exact List.forall_mem_cons.2 ⟨⟨hs, hchunk, hintake⟩, ih hnext⟩

/-- This is what `Session.feed` does. -/
theorem feed_eq (h : Feeding s chunk calls last) (hs : Steady width clock s) :
    s.feed chunk = (calls.map fun call => .ok call.intake, last) := by
  induction h with
  | done s => exact feed_nil s
  | call hchunk hok hrest ih =>
    obtain ⟨-, htaken, -, hnext⟩ := hs.taken_eq hok
    rw [feed, feedUntil_of_more hchunk hok rfl (htaken ▸ hs.taken_ne_nil hchunk)]
    change (_ :: (Session.feed _ _).1, (Session.feed _ _).2) = _
    rw [ih hnext]
    rfl

/-- All bytes are taken, in order. -/
theorem flatMap_taken (h : Feeding s chunk calls last) (hs : Steady width clock s) :
    calls.flatMap (·.intake.taken) = chunk := by
  induction h with
  | done s => rfl
  | call hchunk hok hrest ih =>
    obtain ⟨-, -, hsplit, hnext⟩ := hs.taken_eq hok
    rw [List.flatMap_cons, ih hnext, hsplit]

theorem frames_eq (h : Feeding s chunk calls last) (hs : Steady width clock s) :
    last.channel.frames = s.channel.frames + calls.countP (·.intake.completed) := by
  induction h with
  | done s => rfl
  | call hchunk hok hrest ih =>
    obtain ⟨hintake, -, -, hnext⟩ := hs.taken_eq hok
    obtain ⟨-, -, -, hframes⟩ := hs.ingest _
    rw [hok, ← hintake] at hframes
    rw [ih hnext, hframes, List.countP_cons, Nat.add_assoc, Nat.add_comm (ite _ _ _)]

/-- An intake that does not use a chunk up fills the window: the next one starts a window. -/
theorem held_of_room_le (hs : Steady width clock s) (hok : s.ingest chunk = (.ok intake, next))
    (hroom : s.channel.room ≤ chunk.length) : next.channel.held = 0 := by
  obtain ⟨-, -, hwindow, -⟩ := hs.ingest chunk
  rw [hok] at hwindow
  exact Channel.held_of_fill ((congrArg Window.fill hwindow).trans
    (Channel.fill_absorb (Channel.completed_absorb_of_room_le hroom)))

/-- Feeding a chunk takes one intake for each window that it reaches into. -/
theorem length_eq (h : Feeding s chunk calls last) (hs : Steady width clock s)
    (hchunk : chunk ≠ []) : calls.length = (s.channel.held + chunk.length) ⌈/⌉ width := by
  induction h with
  | done s => exact absurd rfl hchunk
  | @call s next last chunk intake calls _ hok hrest ih =>
    obtain ⟨-, htaken, -, hnext⟩ := hs.taken_eq hok
    have hheld := hs.wellFormed.held_lt
    have hroom := s.channel.room_eq
    have hlength : intake.taken.length = min s.channel.room chunk.length := by
      rw [htaken, List.length_take]
    have hpos := List.length_pos_iff.2 hchunk
    rw [hs.size_eq] at hheld hroom
    rw [List.length_cons, Nat.ceilDiv_eq_add_pred_div]
    rcases Nat.lt_or_ge s.channel.room chunk.length with hmore | hlast
    · have hleft : chunk.drop intake.taken.length ≠ [] := by
        rw [Ne, List.drop_eq_nil_iff]
        omega
      have hwhole : s.channel.held + chunk.length + width - 1 =
          chunk.length - s.channel.room + width - 1 + width := by omega
      rw [ih hnext hleft, held_of_room_le hs hok hmore.le, List.length_drop, hlength,
        Nat.min_eq_left hmore.le, Nat.zero_add, Nat.ceilDiv_eq_add_pred_div, hwhole,
        Nat.add_div_right _ (by omega)]
    · have hnone : chunk.drop intake.taken.length = [] := by
        rw [List.drop_eq_nil_iff]
        omega
      have hone : (s.channel.held + chunk.length + width - 1) / width = 1 :=
        Nat.div_eq_of_lt_le (by omega) (by omega)
      rw [hrest.calls_eq_nil hnone, hone]
      rfl

/-- Under the block clock a frame is made of each window that is filled. -/
theorem countP_of_block (h : Feeding s chunk calls last) (hs : Steady width .block s) :
    calls.countP (·.intake.completed) = (s.channel.held + chunk.length) / width := by
  induction h with
  | done s =>
    have hheld := hs.wellFormed.held_lt
    rw [hs.size_eq] at hheld
    exact (Nat.div_eq_of_lt hheld).symm
  | @call s next last chunk intake calls _ hok hrest ih =>
    obtain ⟨hintake, htaken, -, hnext⟩ := hs.taken_eq hok
    have hcompleted := Channel.completed_absorb_of_block hs.clock_eq chunk
    have hheld := hs.wellFormed.held_lt
    have hroom := s.channel.room_eq
    have hlength : intake.taken.length = min s.channel.room chunk.length := by
      rw [htaken, List.length_take]
    rw [hs.size_eq] at hheld hroom
    rw [← hintake] at hcompleted
    rw [List.countP_cons]
    dsimp only
    rw [hcompleted]
    rcases Nat.lt_or_ge chunk.length s.channel.room with hfew | hfull
    · have hnone : chunk.drop intake.taken.length = [] := by
        rw [List.drop_eq_nil_iff]
        omega
      rw [hrest.calls_eq_nil hnone, if_neg (by simpa using hfew), Nat.div_eq_of_lt (by omega)]
      rfl
    · have hwhole : s.channel.held + chunk.length = chunk.length - s.channel.room + width := by
        omega
      rw [ih hnext, held_of_room_le hs hok hfull, List.length_drop, hlength,
        Nat.min_eq_left hfull, Nat.zero_add, hwhole, Nat.add_div_right _ (by omega),
        if_pos (decide_eq_true hfull)]

/-- Under the slide clock every intake makes a frame. -/
theorem countP_of_slide (h : Feeding s chunk calls last) (hs : Steady width .slide s) :
    calls.countP (·.intake.completed) = calls.length := by
  rw [List.countP_eq_length]
  intro call hcall
  obtain ⟨hsession, -, hintake⟩ := h.call_eq hs call hcall
  rw [hintake, (Channel.absorb_of_slide hsession.clock_eq call.offered).1]

end Feeding

/-! ### Channels that can be reached -/

variable {sink : σ} {config : ChannelConfig}

/-- **Feeding ends and loses nothing.** Let a channel that can be reached have a receiver that
accepts every frame, and let a chunk that has bytes be fed to it, what an intake leaves being
offered again. This comes to an end, as in `Session.feed`. The bytes taken make up the chunk, and
each frame that is due is made. Under the block clock there are as many intakes as windows that the
chunk reaches into, after the bytes that are in the window already, and as many frames as it fills;
under the slide clock it is cut into pieces as long as the window, each of which makes a frame.
Each intake takes at least one byte and no more than it is offered, and finds room for one byte at
least and for a window at most. Under the block clock a frame is due if there is no more room than
bytes offered, and an intake writes over nothing but the bytes that it has room for. -/
theorem feeding_of_run (h : start sink config = .ok s) (operations : List Operation)
    (haccept : Accepting (s.run operations).sink) (chunk : List UInt8) (hchunk : chunk ≠ []) :
    let t := s.run operations
    let width := t.channel.window.size
    let fill := t.channel.window.fill
    fill < width ∧ (∃ calls last, Feeding t chunk calls last) ∧
    ∀ calls last, Feeding t chunk calls last →
      let frames := calls.countP (·.intake.completed)
      t.feed chunk = (calls.map fun call => .ok call.intake, last) ∧
      calls.flatMap (·.intake.taken) = chunk ∧
      last.channel.frames = t.channel.frames + frames ∧
      (t.channel.clock = .block → calls.length = (fill + chunk.length) ⌈/⌉ width ∧
        frames = (fill + chunk.length) / width) ∧
      (t.channel.clock = .slide → calls.length = chunk.length ⌈/⌉ width ∧
        frames = calls.length) ∧
      ∀ call ∈ calls,
        let room := call.session.channel.remaining
        let taken := call.intake.taken
        let before := call.session.channel.window
        let after := (call.session.ingest call.offered).2.channel.window
        1 ≤ taken.length ∧ taken <+: call.offered ∧ 1 ≤ room ∧ room ≤ width ∧
        (t.channel.clock = .block →
          (call.intake.completed = true ↔ room ≤ call.offered.length) ∧
          (∀ offset < taken.length, after.data[before.fill + offset]? = taken[offset]?) ∧
          ∀ position, position < before.fill ∨ before.fill + taken.length ≤ position →
            after.data[position]? = before.data[position]?) := by
  intro t width fill
  have hsteady : Steady width t.channel.clock t := ⟨wellFormed_run h operations, haccept, rfl, rfl⟩
  refine ⟨hsteady.wellFormed.fill_lt, hsteady.exists_feeding chunk, fun calls last hfeed => ?_⟩
  intro frames
  refine ⟨hfeed.feed_eq hsteady, hfeed.flatMap_taken hsteady, hfeed.frames_eq hsteady,
    fun hblock => ?_, fun hslide => ?_, fun call hcall => ?_⟩
  · rw [hblock] at hsteady
    have hheld : t.channel.held = fill := Channel.held_of_block hblock
    rw [← hheld]
    exact ⟨hfeed.length_eq hsteady hchunk, hfeed.countP_of_block hsteady⟩
  · rw [hslide] at hsteady
    refine ⟨?_, hfeed.countP_of_slide hsteady⟩
    rw [hfeed.length_eq hsteady hchunk, Channel.held_of_slide hslide, Nat.zero_add]
  · obtain ⟨hcall, hoffered, hintake⟩ := hfeed.call_eq hsteady call hcall
    obtain ⟨-, -, hwindow, -⟩ := hcall.ingest call.offered
    intro room taken before after
    have htaken : taken = call.offered.take call.session.channel.room :=
      (congrArg Intake.taken hintake).trans (Channel.taken_absorb ..)
    have hfill : before.fill < width := hcall.size_eq ▸ hcall.wellFormed.fill_lt
    have hroom : room = width - before.fill := congrArg (· - before.fill) hcall.size_eq
    refine ⟨List.length_pos_iff.2 (htaken ▸ hcall.taken_ne_nil hoffered),
      htaken ▸ List.take_prefix .., ?_, ?_, fun hblock => ?_⟩
    · omega
    · omega
    · have hclock := hcall.clock_eq.trans hblock
      have hwritten : taken = call.offered.take before.remaining := by
        rw [htaken, Channel.room, hclock]
        rfl
      have hafter : after = (before.ingest .block call.offered).1 := by
        rw [← hclock]
        exact hwindow
      rw [hafter, hwritten]
      refine ⟨?_, fun offset => before.getElem?_written call.offered,
        fun position => before.getElem?_unwritten call.offered⟩
      rw [hintake, Channel.completed_absorb_of_block hclock, decide_eq_true_iff, Channel.room,
        hclock]

/-- Eight bytes after one that is in a window of four already: three intakes and two frames under
the block clock, and two of each once the clock is the slide clock. -/
theorem feeding_of_run_after_one : ∃ s, start (Recorder.fresh true) { side := 2 } = .ok s ∧
    let filling := s.run [.ingest [9]]
    let sliding := s.run [.ingest [9], .apply (.clock .slide)]
    (Accepting filling.sink ∧ filling.channel.window.fill = 1 ∧
      ∃ calls last, Feeding filling [1, 2, 3, 4, 5, 6, 7, 8] calls last ∧ calls.length = 3 ∧
        calls.countP (·.intake.completed) = 2) ∧
    Accepting sliding.sink ∧ sliding.channel.window.fill = 1 ∧
      ∃ calls last, Feeding sliding [1, 2, 3, 4, 5, 6, 7, 8] calls last ∧ calls.length = 2 ∧
        calls.countP (·.intake.completed) = 2 := by
  have hstart : start (Recorder.fresh true) { side := 2 } = .ok _ := rfl
  refine ⟨_, hstart, ⟨fun _ _ => rfl, rfl, ?_⟩, fun _ _ => rfl, rfl, ?_⟩
  · obtain ⟨-, ⟨calls, last, hfeed⟩, hcalls⟩ := feeding_of_run hstart [.ingest [9]]
      (fun _ _ => rfl) [1, 2, 3, 4, 5, 6, 7, 8] (by decide)
    obtain ⟨-, -, -, hblock, -⟩ := hcalls calls last hfeed
    exact ⟨calls, last, hfeed, hblock rfl⟩
  · obtain ⟨-, ⟨calls, last, hfeed⟩, hcalls⟩ := feeding_of_run hstart
      [.ingest [9], .apply (.clock .slide)] (fun _ _ => rfl) [1, 2, 3, 4, 5, 6, 7, 8] (by decide)
    obtain ⟨-, -, -, -, hslide, -⟩ := hcalls calls last hfeed
    obtain ⟨hlength, hframes⟩ := hslide rfl
    exact ⟨calls, last, hfeed, hlength, hframes.trans hlength⟩

end Session

end Bytescope
