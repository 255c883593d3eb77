import Bytescope.Proofs.Export.Limit

/-!
# Exports keep out of each other's way

The name of a file that is read is its stem, or its stem and a dot with what follows. What follows
the stem in the name of an exported file begins with a bar, and goes on with the number of a frame
or with the word for all frames. So the names of all these files are different, whatever the stem
looks like, and files of different names never stand at one place, whatever the directories are. In
particular a run leaves the file alone that it reads.

## Main definitions

* `Path.Apart`: two paths that cannot mean the same file.
* `Exporter.Spares`: a file is there, and exporting does not come near it.

## Main results

* `Path.exists_name_of_fileStem?`: what stands before and after the stem of a name.
* `Volume.fileName?_of_filePlace`: a path leads to a place of its name.
* `Sensor.openEntry_of_run`: the file that a run reads is there afterwards.
* `Exporter.exports_apart`: the files of an export and the file that is read.
-/

namespace Bytescope

/-! ### Stems -/

namespace Path

variable {path stem : String} {before after : List Char}

/-- A name that is cut at a dot is put together again. -/
theorem eq_append_of_cutAtDot {name : List Char} (h : cutAtDot name = some (before, after)) :
    name = before ++ '.' :: after := by
  have hsplit := List.takeWhile_append_dropWhile (p := (· ≠ '.')) (l := name.reverse)
  generalize hafter : name.reverse.takeWhile (· ≠ '.') = tail at hsplit
  cases hfront : name.reverse.dropWhile (· ≠ '.') with
  | nil =>
    -- Without a dot, nothing stands before it.
    rw [hfront, List.append_nil] at hsplit
    rw [cutAtDot, hafter, hsplit, List.length_reverse, List.length_reverse, Nat.sub_self,
      Nat.zero_sub, List.take_zero, if_pos rfl] at h
    cases h
  | cons c front =>
    obtain rfl : c = '.' := by
      have hhead := List.head?_dropWhile_not (· ≠ '.') name.reverse
      rw [hfront] at hhead
      simpa using hhead
    have hname : name = front.reverse ++ '.' :: tail.reverse := by
      rw [← List.reverse_inj, ← hsplit, hfront]
      simp
    have hlength : name.length - tail.reverse.length - 1 = front.reverse.length := by
      rw [hname, List.length_append, List.length_cons]
      omega
    rw [cutAtDot, hafter, hlength, hname, List.take_left] at h
    split at h
    next => cases h
    next =>
      obtain ⟨rfl, rfl⟩ := Prod.mk.inj (Option.some.inj h)
      exact hname

/-- What stands after the stem of a name is nothing, or begins with a dot. -/
theorem exists_name_of_fileStem? (h : fileStem? path = some stem) :
    ∃ name, fileName? path = some name ∧
      (name = stem ∨ ∃ extension, name.toList = stem.toList ++ '.' :: extension) := by
  obtain ⟨name, hname, hstem⟩ := Option.map_eq_some_iff.mp h
  refine ⟨name, hname, ?_⟩
  split at hstem
  next before after hcut =>
    refine Or.inr ⟨after, ?_⟩
    rw [← hstem, String.toList_ofList]
    exact eq_append_of_cutAtDot hcut
  next => exact Or.inl hstem

end Path

/-! ### Places of names -/

namespace Volume

variable {v : Volume} {path : String} {place : Location} {content : FileContent}

/-- A path leads to a place of its name. -/
theorem fileName?_of_filePlace (h : v.filePlace path = .ok place) :
    Path.fileName? path = place.getLast? := by
  obtain ⟨front, last, hsplit⟩ := exists_splitOn_eq_concat path
  obtain ⟨-, hidle, hup, -⟩ := (filePlace_eq_ok_iff hsplit).mp h
  rw [getLast?_of_filePlace hsplit h, Path.fileName?, Path.getLast?_split hsplit hidle]
  exact if_neg hup

/-- A file that a path with a name opens stands at the place of the path. -/
theorem shows_of_openEntry (hopen : v.openEntry path = .ok (.file content))
    (hname : (Path.fileName? path).isSome) : v.Shows path content := by
  obtain ⟨front, last, hsplit⟩ := exists_splitOn_eq_concat path
  rw [openEntry] at hopen
  obtain ⟨⟨⟩, hsound, hopen⟩ := bind_eq_ok_iff.mp hopen
  split_ifs at hopen
  · obtain ⟨_, hthrow, -⟩ := bind_eq_ok_iff.mp hopen
    cases hthrow
  · obtain ⟨place, hplace, hentry⟩ := bind_eq_ok_iff.mp hopen
    have hfile : v.lookup place = some (.file content) := by
      split at hentry
      next heq => rw [heq, Except.ok.inj hentry]
      next => cases hentry
    rw [hsplit, locate_concat] at hplace
    obtain ⟨base, hbase, hfollow⟩ := bind_eq_ok_iff.mp hplace
    obtain ⟨hdirectory, hlast⟩ := follow_eq_ok_iff.mp hfollow
    split_ifs at hlast with hidle hup
    · -- A piece that names nothing leads to a directory.
      rw [← Except.ok.inj hlast, hdirectory] at hfile
      cases hfile
    · rw [Path.fileName?, Path.getLast?_split hsplit (Bool.eq_false_iff.mpr hidle)] at hname
      simp [hup] at hname
    · exact ⟨place, (filePlace_eq_ok_iff hsplit).mpr
        ⟨hsound, Bool.eq_false_iff.mpr hidle, hup, base, hbase, hdirectory, hlast⟩, hfile⟩

end Volume

namespace Path

variable {path other : String}

/-- The paths cannot mean the same file: they are different texts, they end with different names,
and in no state of a directory tree do they lead to one place. -/
structure Apart (path other : String) : Prop where
  ne : path ≠ other
  fileName?_ne : fileName? path ≠ fileName? other
  place_ne : ∀ (v w : Volume) place place', v.filePlace path = .ok place →
    w.filePlace other = .ok place' → place ≠ place'

/-- Different names keep paths apart. -/
theorem apart_of_fileName?_ne (h : fileName? path ≠ fileName? other) : Apart path other where
  ne := fun heq => h (congrArg fileName? heq)
  fileName?_ne := h
  place_ne v w place place' hplace hplace' heq :=
    h (by rw [v.fileName?_of_filePlace hplace, w.fileName?_of_filePlace hplace', heq])

end Path

/-! ### Names of exported files -/

namespace Exporter

variable {stem : String}

theorem toList_animationName (stem : String) :
    (animationName stem).toList =
      stem.toList ++ ['_', 'f', 'r', 'a', 'm', 'e', 's', '.', 'g', 'i', 'f'] :=
  String.toList_append

/-- The path of the animation has the animation's name. -/
theorem fileName?_animationPath (e : Exporter) (hstem : '/' ∉ e.stem.toList) :
    Path.fileName? e.animationPath = some (animationName e.stem) := by
  have hslash : '/' ∉ (animationName e.stem).toList := by
    rw [toList_animationName, List.mem_append, not_or]
    exact ⟨hstem, by decide⟩
  have hlast : (animationName e.stem).toList.getLast? = some 'f' := by
    rw [toList_animationName, List.getLast?_append]
    rfl
  exact Path.fileName?_join_of_getLast? e.directory hslash hlast (by decide)

/-- After the stem, the names of the animation and of a frame go on with different letters. -/
theorem animationName_ne_frameName (stem : String) (number : ℕ) :
    animationName stem ≠ frameName stem number := by
  intro h
  rw [← String.toList_inj, toList_animationName, toList_frameName, numberPart, List.append_assoc,
    List.append_cancel_left_eq] at h
  simp at h

/-- A name that goes on with a bar after the stem is not the name that the stem was taken from. -/
theorem ne_of_fileStem? {target name exported : String} {rest : List Char}
    (hstem : Path.fileStem? target = some stem) (hname : Path.fileName? target = some name)
    (hexported : exported.toList = stem.toList ++ '_' :: rest) : exported ≠ name := by
  obtain ⟨_, hname', hcases⟩ := Path.exists_name_of_fileStem? hstem
  obtain rfl := Option.some.inj (hname'.symm.trans hname)
  rintro rfl
  rcases hcases with rfl | ⟨extension, hextension⟩
  · exact absurd (List.self_eq_append_right.mp hexported) (List.cons_ne_nil _ _)
  · rw [hexported, List.append_cancel_left_eq] at hextension
    exact absurd (List.cons.inj hextension).1 (by decide)

variable {e : Exporter} {target : String}

theorem apart_framePath_framePath (hstem : Path.fileStem? target = some e.stem) {number other : ℕ}
    (hne : number ≠ other) : Path.Apart (e.framePath number) (e.framePath other) := by
  have hslash := Path.slash_notMem_of_fileStem? hstem
  refine Path.apart_of_fileName?_ne ?_
  rw [fileName?_framePath e hslash, fileName?_framePath e hslash]
  exact fun heq => hne (frameName_inj.mp (Option.some.inj heq))

theorem apart_animationPath_framePath (hstem : Path.fileStem? target = some e.stem)
    (number : ℕ) : Path.Apart e.animationPath (e.framePath number) := by
  have hslash := Path.slash_notMem_of_fileStem? hstem
  refine Path.apart_of_fileName?_ne ?_
  rw [fileName?_animationPath e hslash, fileName?_framePath e hslash]
  exact fun heq => animationName_ne_frameName _ _ (Option.some.inj heq)

theorem apart_framePath (hstem : Path.fileStem? target = some e.stem) (number : ℕ) :
    Path.Apart (e.framePath number) target := by
  obtain ⟨name, hname, -⟩ := Path.exists_name_of_fileStem? hstem
  have hbar := toList_frameName e.stem number
  rw [numberPart, List.append_assoc] at hbar
  refine Path.apart_of_fileName?_ne ?_
  rw [fileName?_framePath e (Path.slash_notMem_of_fileStem? hstem), hname]
  exact fun heq => ne_of_fileStem? hstem hname hbar (Option.some.inj heq)

theorem apart_animationPath (hstem : Path.fileStem? target = some e.stem) :
    Path.Apart e.animationPath target := by
  obtain ⟨name, hname, -⟩ := Path.exists_name_of_fileStem? hstem
  refine Path.apart_of_fileName?_ne ?_
  rw [fileName?_animationPath e (Path.slash_notMem_of_fileStem? hstem), hname]
  exact fun heq => ne_of_fileStem? hstem hname (toList_animationName _) (Option.some.inj heq)

end Exporter

/-! ### Saving beside a file -/

namespace Volume.Shows

variable {v w : Volume} {path saved : String} {place : Location} {content : FileContent}

/-- What is put at the place of another path leaves the file alone. -/
theorem insert (h : v.Shows path content) (hapart : Path.Apart saved path)
    (hplace : w.filePlace saved = .ok place) (hfile : v.lookup place ≠ some .directory)
    (entry : VolumeEntry) : (v.insert place entry).Shows path content :=
  h.of_keeps (keeps_insert (ne_nil_of_filePlace hplace) hfile entry) fun other hother =>
    (hapart.place_ne w v place other hplace hother).symm

/-- Making the directory of any path leaves the file alone. -/
theorem ensureParent (h : v.Shows path content) (saved : String) :
    (Bytescope.ensureParent v saved).2.Shows path content :=
  h.of_keeps (keeps_ensureParent v [] saved) fun _ hother => ne_nil_of_filePlace hother

/-- Making and writing another file leaves the file alone. -/
theorem createFile (h : v.Shows path content) (hapart : Path.Apart saved path)
    (hcreate : v.createFile saved = .ok (place, w)) :
    w.Shows path content ∧ ∀ written, (w.write place written).Shows path content := by
  obtain ⟨hplace, hfile, rfl⟩ := createFile_eq_ok_iff.mp hcreate
  have hempty := h.insert hapart hplace hfile (.file (.bytes #[]))
  refine ⟨hempty, fun written => hempty.insert hapart hplace ?_ _⟩
  rw [lookup_insert v (ne_nil_of_filePlace hplace), if_pos rfl]
  nofun

/-- A picture is saved without harm to the file, or cannot be saved without harm to it. -/
theorem savePicture (h : v.Shows path content) (hapart : Path.Apart saved path) (encoder : Encoder)
    (image : Image) : (Bytescope.savePicture encoder v image saved).2.Shows path content := by
  have hparent := h.ensureParent saved
  rw [Bytescope.savePicture]
  generalize Bytescope.ensureParent v saved = made at hparent ⊢
  obtain ⟨_ | _, u⟩ := made
  · exact hparent
  · dsimp only at hparent ⊢
    split
    next => exact hparent
    next =>
      split
      next => exact hparent
      next place x hcreate =>
        obtain ⟨hmade, hwritten⟩ := hparent.createFile hapart hcreate
        split
        next => exact hwritten _
        next => exact hmade

theorem saveAnimation (h : v.Shows path content) (hapart : Path.Apart saved path)
    (encoder : Encoder) (frames : List Image) (delay : ℕ) :
    (Bytescope.saveAnimation encoder v frames saved delay).2.Shows path content := by
  have hparent := h.ensureParent saved
  rw [Bytescope.saveAnimation.eq_def]
  split
  next => exact h
  next =>
    generalize Bytescope.ensureParent v saved = made at hparent ⊢
    obtain ⟨_ | _, u⟩ := made
    · exact hparent
    · dsimp only at hparent ⊢
      split
      next => exact hparent
      next place x hcreate =>
        obtain ⟨hmade, hwritten⟩ := hparent.createFile hapart hcreate
        split
        next => exact hwritten _
        next => exact hmade

end Volume.Shows

namespace Exporter

variable {e : Exporter} {target : String} {content : FileContent}

/-- The file at the path is there, and what is exported has a stem that was taken from the path. -/
structure Spares (e : Exporter) (target : String) (content : FileContent) : Prop where
  stem_eq : Path.fileStem? target = some e.stem
  shows : e.volume.Shows target content

/-- A frame is taken without harm to the file. -/
theorem Spares.accept (h : e.Spares target content) (raster : Raster) :
    (e.accept raster).2.Spares target content := by
  cases hanimate : e.animate with
  | true =>
    rw [accept_of_animate hanimate]
    exact ⟨h.stem_eq, h.shows⟩
  | false =>
    rw [accept_of_still hanimate]
    exact ⟨h.stem_eq, h.shows.savePicture (apart_framePath h.stem_eq _) _ _⟩

theorem Spares.send (h : e.Spares target content) (frame : Frame) :
    (frame.send e).2.Spares target content := by
  obtain ⟨log, hsend⟩ := e.exists_send_eq e.log frame
  have hself : e.withLog e.log = e := rfl
  have haccept := h.accept frame.raster
  rw [hself] at hsend
  rw [hsend]
  exact ⟨haccept.stem_eq, haccept.shows⟩

theorem Spares.finish (h : e.Spares target content) : e.finish.2.Spares target content := by
  rw [Exporter.finish]
  split
  next => exact ⟨h.stem_eq, h.shows.saveAnimation (apart_animationPath h.stem_eq) _ _ _⟩
  next => exact h

end Exporter

/-! ### Runs beside a file -/

namespace Session

variable {σ : Type} [FrameSink σ] {P : σ → Prop} {s : Session σ}

/-- What sending a frame keeps is kept by an intake. -/
theorem sink_ingest_of_send (hsend : ∀ (frame : Frame) sink, P sink → P (frame.send sink).2)
    (h : P s.sink) (chunk : List UInt8) : P (s.ingest chunk).2.sink := by
  cases hdue : (s.channel.absorb chunk).2.completed with
  | true =>
    rw [sink_ingest_of_due hdue]
    exact hsend _ _ h
  | false =>
    rw [ingest_of_open hdue]
    exact h

/-- What sending a frame keeps is kept while a chunk is fed. -/
theorem sink_feedUntil_of_send (hsend : ∀ (frame : Frame) sink, P sink → P (frame.send sink).2)
    (h : P s.sink) (enough : σ → Bool) (chunk : List UInt8) :
    P (s.feedUntil enough chunk).2.sink := by
  induction hlength : chunk.length using Nat.strong_induction_on generalizing chunk s with
  | _ length ih =>
    by_cases hchunk : chunk = []
    · rw [hchunk, feedUntil_nil]
      exact h
    · have hone := sink_ingest_of_send hsend h chunk
      rw [feedUntil, dif_neg hchunk]
      generalize s.ingest chunk = outcome at hone ⊢
      obtain ⟨_ | intake, next⟩ := outcome
      · exact hone
      · dsimp only at hone ⊢
        split
        next => exact hone
        next hmore =>
          rw [not_or] at hmore
          refine ih _ ?_ hone _ rfl
          rw [← hlength, List.length_drop]
          exact length_sub_lt hchunk hmore.2

end Session

namespace Sensor

variable {encoder : Encoder} {a : Arguments} {v : Volume} {entry : VolumeEntry}
  {s : Session Exporter} {target : String} {content : FileContent} {limit chunk : ℕ}

/-- Reading a stream leaves the file alone. -/
theorem spares_readFrom (hchunk : 0 < chunk) (h : s.sink.Spares target content)
    (stream : List UInt8) :
    (readFrom limit chunk hchunk s stream).2.sink.Spares target content := by
  induction hlength : stream.length using Nat.strong_induction_on generalizing stream s with
  | _ length ih =>
    have hfeed := Session.sink_feedUntil_of_send (P := (Exporter.Spares · target content))
      (fun frame _ hsink => hsink.send frame) h (limit ≤ ·.exported) (stream.take chunk)
    rw [readFrom]
    split
    next => exact h
    next hstream =>
      dsimp only
      split
      next => exact hfeed
      next =>
        split
        next => exact hfeed
        next => exact ih _ (hlength ▸ length_drop_lt hstream hchunk) hfeed _ rfl

theorem spares_exportFrom (hchunk : 0 < a.chunk) (h : s.sink.Spares target content) :
    (exportFrom a hchunk entry s).2.Spares target content := by
  rw [exportFrom.eq_def]
  split_ifs
  · exact h
  · split
    next => exact h
    next file =>
      have hread : (readFrom a.frames a.chunk hchunk s (streamOf file a.skip)).2.sink.Spares
          target content := spares_readFrom hchunk h _
      generalize readFrom a.frames a.chunk hchunk s (streamOf file a.skip) = outcome at hread ⊢
      obtain ⟨_ | _, next⟩ := outcome
      · exact hread
      · have hfinish := hread.finish
        dsimp only at hfinish ⊢
        generalize next.sink.finish = last at hfinish ⊢
        obtain ⟨_ | _, sink⟩ := last
        · exact hfinish
        · exact hfinish

/-- A run starts with the stem of the file that it reads. -/
theorem spares_of_prepare {log : List LogLine} (h : prepare encoder a v = .ok (entry, s, log))
    (hopen : v.openEntry a.target = .ok (.file content)) : s.sink.Spares a.target content := by
  rw [prepare] at h
  obtain ⟨found, -, h⟩ := bind_eq_ok_iff.mp h
  dsimp only at h
  split_ifs at h
  · obtain ⟨_, hthrow, _⟩ := bind_eq_ok_iff.mp h
    cases hthrow
  · split at h
    next => cases h
    next stem hstem =>
      obtain ⟨started, -, h⟩ := bind_eq_ok_iff.mp h
      obtain ⟨-, h⟩ := Prod.mk.inj (Except.ok.inj h)
      obtain ⟨rfl, -⟩ := Prod.mk.inj h
      obtain ⟨name, hname, -⟩ := Path.exists_name_of_fileStem? hstem
      exact ⟨hstem, Volume.shows_of_openEntry hopen (hname ▸ rfl)⟩

/-- **A run leaves the file alone that it reads.** However the run ends, the file is there with what
it held. -/
theorem openEntry_of_run (hopen : v.openEntry a.target = .ok (.file content)) :
    (run encoder a v).volume.openEntry a.target = .ok (.file content) := by
  rw [run]
  split
  next hchunk =>
    split
    next => exact hopen
    next hprepare =>
      exact (spares_exportFrom hchunk (spares_of_prepare hprepare hopen)).shows.openEntry
  next => exact hopen

end Sensor

/-- **Exports keep apart.** A path with a name has a stem. Whatever the directory into which frames
are exported under that stem, the paths of frames with different numbers are apart, the path of the
animation is apart from all of them, and all of these are apart from the path that the stem was
taken from. So no run changes the file that it reads. -/
theorem Exporter.exports_apart {target : String} (h : (Path.fileName? target).isSome) :
    ∃ stem, Path.fileStem? target = some stem ∧
      (∀ e : Exporter, e.stem = stem →
        (∀ number other, number ≠ other →
          Path.Apart (e.framePath number) (e.framePath other)) ∧
        (∀ number, Path.Apart e.animationPath (e.framePath number)) ∧
        (∀ number, Path.Apart (e.framePath number) target) ∧ Path.Apart e.animationPath target) ∧
      ∀ (encoder : Encoder) (a : Arguments) (v : Volume) (content : FileContent),
        a.target = target → v.openEntry target = .ok (.file content) →
          (Sensor.run encoder a v).volume.openEntry target = .ok (.file content) := by
  obtain ⟨name, hname⟩ := Option.isSome_iff_exists.mp h
  obtain ⟨stem, hstem⟩ : ∃ stem, Path.fileStem? target = some stem := by
    rw [Path.fileStem?, hname]
    exact ⟨_, rfl⟩
  refine ⟨stem, hstem, ?_, ?_⟩
  · rintro e rfl
    exact ⟨fun _ _ => apart_framePath_framePath hstem, apart_animationPath_framePath hstem,
      apart_framePath hstem, apart_animationPath hstem⟩
  · rintro encoder a v content rfl hopen
    exact Sensor.openEntry_of_run hopen

/-- A hidden file that looks like an export itself, read and exported in one directory. -/
theorem Exporter.exports_apart_of_export :
    let target := ".x_frame_0001.png"
    let e := Exporter.fresh .standard "" ".x_frame_0001" false Volume.empty
    let a : Arguments := { target := target, side := 1 }
    let v := Volume.empty.insert [target] (.file (.bytes #[7]))
    (Path.fileName? target).isSome ∧ Path.fileStem? target = some e.stem ∧
      e.framePath 10000 = ".x_frame_0001_frame_10000.png" ∧
      Path.Apart (e.framePath 10000) (e.framePath 1000) ∧
      Path.Apart e.animationPath (e.framePath 1) ∧ Path.Apart (e.framePath 1) target ∧
      v.openEntry target = .ok (.file (.bytes #[7])) ∧
      (Sensor.run .standard a v).volume.openEntry target = .ok (.file (.bytes #[7])) := by
  intro target e a v
  have hname : (Path.fileName? target).isSome := by decide
  obtain ⟨stem, hstem, hpaths, hrun⟩ := exports_apart hname
  have hself : Path.fileStem? target = some ".x_frame_0001" := by decide
  obtain rfl : ".x_frame_0001" = stem := Option.some.inj (hself.symm.trans hstem)
  obtain ⟨hframes, hanimation, hframe, -⟩ := hpaths e rfl
  have hopen : v.openEntry target = .ok (.file (.bytes #[7])) :=
    Volume.openEntry_name (by decide) _
  exact ⟨hname, hself, by decide, hframes 10000 1000 (by decide), hanimation 1, hframe 1, hopen,
    hrun .standard a v _ rfl hopen⟩

end Bytescope
