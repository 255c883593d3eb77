import Bytescope.Image.Formats
import Bytescope.Proofs.Channel.WellFormed
import Bytescope.Proofs.Export.Limit

/-!
# The sizes of all requests

The products that lead to a buffer are made by the computations that ask for it. A product that
does not fit into a word ends the program, so where a computation has any other end, all of its
products were exact, and a request that no buffer can hold is an error by then.

A channel looks at its side before it multiplies, and so does a table of the curve, so that no
product of theirs is too large and no request is refused: they fail for their side alone. A raster
only makes sure that its number of cells fits into a word. Where its side takes 32 binary digits,
the bytes of the cells do not, and the program ends.

The buffer for reading a file is asked for without the means to refuse it.

## Main definitions

* `Raster.Accounted`, `CurveTable.Accounted`, `Channel.Accounted`, `Sensor.Accounted`: all ends of
  the computations that ask for buffers.

## Main results

* `Raster.accounted`, `CurveTable.accounted`, `Channel.accounted_build`,
  `Channel.accounted_resize`: how rasters, tables and channels are made.
* `Sensor.ending_eq_aborted_iff`: the runs that end for want of a buffer for reading.
* `sizes_of_requests`: the sizes of all requests.
-/

namespace Bytescope

/-! ### Rasters and tables -/

/-- All that can become of a raster. The program ends where its bytes cannot be counted in a word.
Otherwise the size that is asked for is that of all its pixels, and the raster is refused with this
size exactly where no buffer can hold it. -/
structure Raster.Accounted (side : ℕ) (fill : Pixel) : Prop where
  overflow_iff : build side fill = .error .overflow ↔ 2 ^ 31 ≤ side ∧ side < sideLimit
  allocation_iff : ∀ what bytes, build side fill = .error (.allocation what bytes) ↔
    side < 2 ^ 31 ∧ maxBufferBytes < bytes ∧ what = "raster" ∧ bytes = side * side * 4
  ok_iff : ∀ r, build side fill = .ok r ↔
    side * side * 4 ≤ maxBufferBytes ∧ r.side = side ∧
      r.pixels = Array.replicate (side * side) fill
  refused_iff : ∀ fault, build side fill = .error (.side side fault) ↔
    sideLimit ≤ side ∧ fault = .sideTooLargeForRaster

theorem Raster.accounted (side : ℕ) (fill : Pixel) : Accounted side fill where
  overflow_iff := by
    rw [build_eq]
    split_ifs with hside hlarge hbytes
    · exact iff_of_false (fun h => by cases h) fun h => Nat.not_lt.mpr hside h.2
    · exact iff_of_true rfl ⟨hlarge, Nat.lt_of_not_le hside⟩
    · exact iff_of_false (fun h => by cases h) fun h => hlarge h.1
    · exact iff_of_false (fun h => by cases h) fun h => hlarge h.1
  allocation_iff what bytes := by
    rw [build_eq]
    split_ifs with hside hlarge hbytes
    · have hlarge : 2 ^ 31 ≤ side := Nat.le_trans (by decide) hside
      exact iff_of_false (fun h => by cases h) fun h => Nat.not_lt.mpr hlarge h.1
    · exact iff_of_false (fun h => by cases h) fun h => Nat.not_lt.mpr hlarge h.1
    · rw [Except.error.injEq, Error.allocation.injEq, and_iff_right (Nat.lt_of_not_le hlarge)]
      constructor
      · rintro ⟨rfl, rfl⟩
        exact ⟨hbytes, rfl, rfl⟩
      · rintro ⟨-, rfl, rfl⟩
        exact ⟨rfl, rfl⟩
    · refine iff_of_false (fun h => by cases h) ?_
      rintro ⟨-, hlarge, -, rfl⟩
      exact hbytes hlarge
  ok_iff r := build_eq_ok_iff.trans (and_congr_right fun _ => eq_uniform_iff)
  refused_iff fault := by
    rw [build_eq]
    split_ifs with hside hlarge hbytes
    · simp [Error.side, hside, eq_comm]
    · simp [Error.side, hside]
    · simp [Error.side, hside]
    · simp [hside]

/-- All that can become of a table of the curve: it is refused for its side and for nothing else,
or it holds all cells. -/
structure CurveTable.Accounted (side : ℕ) : Prop where
  refused : ∀ e, build side = .error e → ∃ fault, e = .side side fault
  ok_iff : (∃ table, build side = .ok table) ↔ side ≤ maxWindowSide ∧ ∃ k, side = 2 ^ k
  size_eq : ∀ table, build side = .ok table → table.size = side * side

theorem CurveTable.accounted (side : ℕ) : Accounted side where
  refused _ := build_eq_error
  ok_iff := by
    rw [build_eq, ← isPowerOfTwo_iff]
    split_ifs with hpower hside
    · simp [hpower, hside]
    · simp [hside]
    · simp [hpower]
  size_eq _ := size_of_build

/-! ### Channels -/

namespace Channel

/-- All that can become of a channel that is made for a side: it is refused for the side and for
nothing else, or each of its buffers is as long as it has to be and no longer than a buffer can
be. -/
structure Accounted (side : ℕ) (mapping : Mapping) (packing : Packing)
    (result : Except Error Channel) : Prop where
  refused : ∀ e, result = .error e → ∃ fault, e = .side side fault
  ok_iff : (∃ c, result = .ok c) ↔ mapping.Admits side
  size_window : ∀ c, result = .ok c →
    c.window.size = side * side * packing.footprint mapping ∧ c.window.size ≤ maxBufferBytes
  size_alpha : ∀ c, result = .ok c →
    c.alpha.size = side * side ∧ c.alpha.size ≤ maxBufferBytes
  size_pixels : ∀ c, result = .ok c →
    c.raster.pixels.size = side * side ∧ c.raster.pixels.size * 4 ≤ maxBufferBytes

variable {c d : Channel} {side : ℕ} {mapping : Mapping} {packing : Packing}

theorem WellFormed.cells_le (h : c.WellFormed) :
    c.side * c.side ≤ maxWindowSide * maxWindowSide :=
  Nat.mul_le_mul h.side_le h.side_le

/-- Where only sides are refused, what is made is well-formed, and so its buffers are not too
large. -/
theorem accounted_of_wellFormed {result : Except Error Channel}
    (hrefused : ∀ e, result = .error e → ∃ fault, e = .side side fault)
    (hok : (∃ c, result = .ok c) ↔ mapping.Admits side)
    (hmade : ∀ c, result = .ok c →
      c.WellFormed ∧ c.side = side ∧ c.mapping = mapping ∧ c.packing = packing) :
    Accounted side mapping packing result where
  refused := hrefused
  ok_iff := hok
  size_window c hc := by
    obtain ⟨hwell, rfl, rfl, rfl⟩ := hmade c hc
    exact ⟨hwell.footprint_eq ▸ hwell.size_window, hwell.size_le.trans (by decide)⟩
  size_alpha c hc := by
    obtain ⟨hwell, rfl, rfl, rfl⟩ := hmade c hc
    exact ⟨hwell.size_alpha, hwell.size_alpha ▸ hwell.cells_le.trans (by decide)⟩
  size_pixels c hc := by
    obtain ⟨hwell, rfl, rfl, rfl⟩ := hmade c hc
    have hpixels : c.raster.pixels.size = c.side * c.side := by
      rw [c.raster.size_pixels, hwell.side_raster]
    exact ⟨hpixels, hpixels ▸ (Nat.mul_le_mul_right 4 hwell.cells_le).trans (by decide)⟩

theorem build_eq_error {config : ChannelConfig} {e : Error} (h : build config = .error e) :
    ∃ fault, e = .side config.side fault := by
  rw [build, bind_eq_error_iff] at h
  obtain hbuffers | ⟨buffers, -, hbuilt⟩ := h
  · exact Buffers.allocate_eq_error hbuffers
  · cases hbuilt

/-- A channel that is built. -/
theorem accounted_build (config : ChannelConfig) :
    Accounted config.side config.mapping config.packing (build config) := by
  refine accounted_of_wellFormed (fun _ => build_eq_error) exists_build_iff fun c hc => ?_
  obtain ⟨layout, -, -, hmapping, rfl⟩ := build_eq_ok_iff.mp hc
  exact ⟨wellFormed_build hc, rfl, hmapping, rfl⟩

/-- A channel that is resized. -/
theorem accounted_resize (c : Channel) (side : ℕ) :
    Accounted side c.mapping c.packing (c.resize side) := by
  refine accounted_of_wellFormed (fun _ => rebuild_eq_error) exists_rebuild_iff fun d hd => ?_
  obtain ⟨layout, hvalid, rfl, hmapping, rfl⟩ := rebuild_eq_ok_iff.mp hd
  exact ⟨wellFormed_renew c hvalid c.packing, rfl, hmapping, rfl⟩

end Channel

/-! ### Files -/

namespace Sensor

/-- All that a run over a file asks for. The channel is asked for first, and no product of its sizes
is too large. The buffer for reading, the last thing, is not refused when it cannot be granted: the
run ends without an answer then. -/
structure Accounted (encoder : Encoder) (a : Arguments) (v : Volume) : Prop where
  prepare_ne : prepare encoder a v ≠ .error .overflow
  aborted_iff : ∀ bytes, (run encoder a v).ending = .aborted bytes ↔
    bytes = a.chunk ∧ maxBufferBytes < a.chunk ∧ ∃ start, prepare encoder a v = .ok start

variable {encoder : Encoder} {a : Arguments} {v : Volume} {entry : VolumeEntry} {n : ℕ}

theorem prepare_ne_overflow (encoder : Encoder) (a : Arguments) (v : Volume) :
    prepare encoder a v ≠ .error .overflow := by
  intro h
  rw [prepare] at h
  cases hopen : v.openEntry a.target with
  | error fault =>
    rw [hopen] at h
    cases h
  | ok entry =>
    rw [hopen] at h
    dsimp only [Except.mapError, bind, Except.bind] at h
    split_ifs at h
    · cases h
    · split at h
      next => cases h
      next stem hstem =>
        cases hbuild : Channel.build a.channelConfig with
        | error e =>
          rw [Session.start, hbuild] at h
          obtain ⟨fault, rfl⟩ := Channel.build_eq_error hbuild
          cases h
        | ok c =>
          rw [Session.start, hbuild] at h
          cases h

theorem exportFrom_eq_aborted_iff (hchunk : 0 < a.chunk) {s : Session Exporter} :
    (exportFrom a hchunk entry s).1 = .aborted n ↔ n = a.chunk ∧ maxBufferBytes < a.chunk := by
  rw [exportFrom.eq_def]
  split
  next hlarge =>
    have haborted : Ending.aborted a.chunk = .aborted n ↔ n = a.chunk :=
      ⟨fun h => (Ending.aborted.inj h).symm, fun h => h ▸ rfl⟩
    exact haborted.trans (and_iff_left hlarge).symm
  next hsmall =>
    refine iff_of_false (fun h => ?_) fun h => hsmall h.2
    split at h
    next => cases h
    next =>
      split at h
      next => cases h
      next => split at h <;> cases h

/-- **The buffer for reading** is not refused when it cannot be granted: once everything else is
in place the run ends without an answer. -/
theorem ending_eq_aborted_iff : (run encoder a v).ending = .aborted n ↔
    n = a.chunk ∧ maxBufferBytes < a.chunk ∧ ∃ start, prepare encoder a v = .ok start := by
  by_cases hchunk : 0 < a.chunk
  · cases hprepare : prepare encoder a v with
    | error e =>
      rw [run, dif_pos hchunk, hprepare]
      constructor
      · intro h
        cases h
      · rintro ⟨-, -, start, h⟩
        cases h
    | ok start =>
      obtain ⟨entry, s, log⟩ := start
      rw [(run_of_prepare hchunk hprepare).1, exportFrom_eq_aborted_iff]
      exact and_congr_right fun _ => (and_iff_left ⟨_, rfl⟩).symm
  · rw [run, dif_neg hchunk]
    refine iff_of_false (fun h => ?_) fun h => hchunk (Nat.zero_lt_of_lt h.2.1)
    cases h

theorem accounted (encoder : Encoder) (a : Arguments) (v : Volume) : Accounted encoder a v :=
  ⟨prepare_ne_overflow encoder a v, fun _ => ending_eq_aborted_iff⟩

end Sensor

/-- **The sizes of all requests.** For every side, a table of the curve and a channel, fresh or
resized, are refused for the side alone: no product that leads to their buffers is too large for a
word, and no buffer is too large. The products that lead to a raster alone are exact unless its side
takes 32 binary digits, where the program ends; otherwise a raster is granted exactly where its
pixels fit into a buffer, and then each of its cells shows the fill. A run over a file ends without
an answer exactly where the buffer for reading is too large. -/
theorem sizes_of_requests (side : ℕ) (fill : Pixel) (config : ChannelConfig) (c : Channel)
    (encoder : Encoder) (a : Arguments) (v : Volume) :
    Raster.Accounted side fill ∧ CurveTable.Accounted side ∧
      Channel.Accounted config.side config.mapping config.packing (Channel.build config) ∧
      Channel.Accounted side c.mapping c.packing (c.resize side) ∧
      Sensor.Accounted encoder a v :=
  ⟨Raster.accounted side fill, CurveTable.accounted side, Channel.accounted_build config,
    c.accounted_resize side, Sensor.accounted encoder a v⟩

/-- A side of 32 binary digits, for which the number of cells fits into a word but the number of
bytes does not, and a chunk that ends a run without an answer. -/
theorem raster_size_overflows :
    let side := 4294967295
    let a : Arguments := { target := "a", side := 1, chunk := 9223372036854775808 }
    let v := Volume.empty.insert ["a"] (.file (.bytes #[7]))
    side * side < wordSize ∧ wordSize ≤ side * side * 4 ∧
      Raster.build side Pixel.background = .error .overflow ∧
      (Sensor.run .standard a v).ending = .aborted 9223372036854775808 := by
  intro side a v
  refine ⟨by decide, by decide, (Raster.accounted ..).overflow_iff.mpr (by decide), ?_⟩
  have hadmits : a.channelConfig.mapping.Admits a.channelConfig.side :=
    ⟨by decide, by decide, nofun⟩
  obtain ⟨c, hbuild⟩ := Channel.exists_build_iff.mpr hadmits
  have hopen : v.openEntry "a" = .ok (.file (.bytes #[7])) := Volume.openEntry_name (by decide) _
  have hstem : Path.fileStem? a.target = some "a" := by decide
  exact Sensor.ending_eq_aborted_iff.mpr
    ⟨rfl, by decide, _, Sensor.prepare_eq_ok hopen (by decide) hstem hbuild⟩

end Bytescope
