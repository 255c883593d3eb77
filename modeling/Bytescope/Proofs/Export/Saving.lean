import Bytescope.Proofs.Export.Names
import Bytescope.Proofs.Export.Places
import Bytescope.Proofs.Session.Events

/-!
# Saving frames one after the other

An exporter saves each frame under a number of its own, or collects the frames and saves them at
the end. If nothing goes wrong, all of them are found in the end where they were saved, since a
later frame is never saved at the place of an earlier one.

Nothing is asked of the encoder: whatever it makes of a picture is what is found.

## Main definitions

* `Volume.Shows`: a path shows a file.
* `Encoder.Animates`: an encoder that makes an animation of all frames that one can hold.
* `Exporter.acceptAll`, `Exporter.saveAll`: saves pictures until one cannot be saved.
* `Exporter.Saved`: what there is to be found in the end.

## Main results

* `savePicture_eq_ok`, `saveAnimation_eq_ok`: what saving leaves.
* `Exporter.acceptAll_append_eq`: pictures after other pictures.
* `Exporter.saved_of_saveAll`: all pictures are found in the end.
-/

namespace Bytescope

/-! ### Single files -/

/-- The path leads to a file with this content. -/
def Volume.Shows (v : Volume) (path : String) (content : FileContent) : Prop :=
  ∃ place, v.filePlace path = .ok place ∧ v.lookup place = some (.file content)

section Files

variable {encoder : Encoder} {v w : Volume} {path : String} {place : Location}
  {content : FileContent}

theorem Volume.Shows.openEntry (h : v.Shows path content) :
    v.openEntry path = .ok (.file content) := by
  obtain ⟨place, hplace, hfile⟩ := h
  exact openEntry_of_filePlace hplace hfile

/-- What stands at another place is still shown. -/
theorem Volume.Shows.of_keeps (h : v.Shows path content) (hkeeps : Keeps place v w)
    (hne : ∀ other, v.filePlace path = .ok other → other ≠ place) : w.Shows path content := by
  obtain ⟨other, hother, hfile⟩ := h
  exact ⟨other, hkeeps.filePlace hother, hkeeps other _ hfile (Or.inl (hne other hother))⟩

theorem keeps_ensureParent (v : Volume) (place : Location) (path : String) :
    Volume.Keeps place v (ensureParent v path).2 := by
  rw [ensureParent]
  split
  next => exact .refl place v
  next =>
    split
    next => exact .refl place v
    next => exact Volume.keeps_createDirectories place _

/-- A file that is written where its path leads is shown there. -/
theorem shows_write {u : Volume} (hparent : (ensureParent v path).2 = u)
    (hcreate : u.createFile path = .ok (place, w)) (content : FileContent) :
    Volume.Keeps place v (w.write place content) ∧
      (w.write place content).filePlace path = .ok place ∧
      (w.write place content).Shows path content := by
  obtain ⟨hkeeps, hplace, hfile⟩ := Volume.write_of_createFile hcreate content
  exact ⟨(hparent ▸ keeps_ensureParent v place path).trans hkeeps, hplace, place, hplace, hfile⟩

/-- **A picture that is saved** is shown by its path as it was encoded, and nothing is lost but what
was there. -/
theorem savePicture_eq_ok {image : Image} (h : savePicture encoder v image path = (.ok (), w)) :
    ∃ place content, Volume.Keeps place v w ∧ w.filePlace path = .ok place ∧
      encoder.picture (Path.fileExtension? path) image = .ok content ∧ w.Shows path content := by
  rw [savePicture] at h
  rcases hparent : ensureParent v path with ⟨_ | _, u⟩
  · rw [hparent] at h
    cases h
  · rw [hparent] at h
    cases hformat : encoder.format (Path.fileExtension? path) with
    | error reason =>
      simp only [hformat] at h
      cases h
    | ok encode =>
      cases hcreate : u.createFile path with
      | error fault =>
        simp only [hformat, hcreate] at h
        cases h
      | ok created =>
        obtain ⟨place, x⟩ := created
        cases hencode : encode image with
        | error reason =>
          simp only [hformat, hcreate, hencode] at h
          cases h
        | ok content =>
          simp only [hformat, hcreate, hencode] at h
          obtain rfl : x.write place content = w := congrArg Prod.snd h
          obtain ⟨hkeeps, hplace, hshows⟩ := shows_write (congrArg Prod.snd hparent) hcreate content
          refine ⟨place, content, hkeeps, hplace, ?_, hshows⟩
          rw [Encoder.picture, hformat]
          exact hencode

/-- **An animation that is saved** is shown by its path as it was encoded. -/
theorem saveAnimation_eq_ok {frames : List Image} {delay : ℕ}
    (h : saveAnimation encoder v frames path delay = (.ok (), w)) :
    ∃ first rest content, frames = first :: rest ∧
      encoder.animation first rest delay = .ok content ∧ w.Shows path content := by
  cases frames with
  | nil => cases h
  | cons first rest =>
    rw [saveAnimation] at h
    rcases hparent : ensureParent v path with ⟨_ | _, u⟩
    · rw [hparent] at h
      cases h
    · rw [hparent] at h
      cases hcreate : u.createFile path with
      | error fault =>
        simp only [hcreate] at h
        cases h
      | ok created =>
        obtain ⟨place, x⟩ := created
        cases hencode : encoder.animation first rest delay with
        | error reason =>
          simp only [hcreate, hencode] at h
          cases h
        | ok content =>
          simp only [hcreate, hencode] at h
          obtain rfl : x.write place content = w := congrArg Prod.snd h
          exact ⟨first, rest, content, rfl, hencode,
            (shows_write (congrArg Prod.snd hparent) hcreate _).2.2⟩

/-- The encoder makes an animation of all frames whose sides can be counted in sixteen bits. -/
def Encoder.Animates (encoder : Encoder) : Prop :=
  ∀ (first : Image) (rest : List Image) (delay : ℕ),
    (∀ image ∈ first :: rest, image.width < 65536 ∧ image.height < 65536) →
      ∃ content, encoder.animation first rest delay = .ok content

/-- An animation of frames that are not too large is saved if a file can be made at its path. -/
theorem saveAnimation_of_createFile {frames : List Image} {u : Volume}
    (hencoder : encoder.Animates) (hparent : ensureParent v path = (.ok (), u))
    (hcreate : u.createFile path = .ok (place, w))
    (hfits : ∀ image ∈ frames, image.width < 65536 ∧ image.height < 65536) (hframes : frames ≠ [])
    (delay : ℕ) : (saveAnimation encoder v frames path delay).1 = .ok () := by
  obtain ⟨first, rest, rfl⟩ := List.exists_cons_of_ne_nil hframes
  obtain ⟨content, hcontent⟩ := hencoder first rest delay hfits
  rw [saveAnimation, hparent]
  simp only [hcreate, hcontent]

theorem ensureParent_name {name : String} (h : Path.IsName name) (v : Volume) :
    ensureParent v name = (.ok (), v) := by
  rw [ensureParent, h.parent?_eq]
  exact if_pos rfl

end Files

namespace Exporter

/-! ### Many frames -/

/-- Saves or collects pictures until one cannot be saved. -/
def acceptAll (e : Exporter) : List Raster → Except Error Unit × Exporter
  | [] => (.ok (), e)
  | raster :: rest =>
    match e.accept raster with
    | (.error refusal, e) => (.error refusal, e)
    | (.ok (), e) => e.acceptAll rest

/-- Saves pictures until one cannot be saved, and then those that were collected. -/
def saveAll (e : Exporter) (rasters : List Raster) : Except Error Unit × Exporter :=
  match e.acceptAll rasters with
  | (.error refusal, e) => (.error refusal, e)
  | (.ok (), e) => e.finish

/-- The images are found in the tree as they were encoded: as numbered pictures, or as the frames of
the animation. If there are none, the tree is as it was. -/
structure Saved (e : Exporter) (images : List Image) (v : Volume) : Prop where
  pictures : e.animate = false → ∀ index image, images[index]? = some image →
    ∃ content, e.encoder.picture (some "png") image = .ok content ∧
      v.openEntry (e.framePath (index + 1)) = .ok (.file content)
  animation : e.animate = true → ∀ first rest, images = first :: rest →
    ∃ content, e.encoder.animation first rest gifFrameDelayMs = .ok content ∧
      v.openEntry e.animationPath = .ok (.file content)
  untouched : images = [] → v = e.volume

variable {e e' : Exporter} {raster : Raster} {rasters front back : List Raster}

theorem acceptAll_of_accept (h : e.accept raster = (.ok (), e')) :
    e.acceptAll (raster :: rasters) = e'.acceptAll rasters := by
  rw [acceptAll, h]

theorem acceptAll_of_refused {refusal : Error} (h : e.accept raster = (.error refusal, e')) :
    e.acceptAll (raster :: rasters) = (.error refusal, e') := by
  rw [acceptAll, h]

/-- Pictures are saved after others unless one of those cannot be. -/
theorem acceptAll_append_eq (e : Exporter) (front back : List Raster) :
    e.acceptAll (front ++ back) = match e.acceptAll front with
      | (.error refusal, e') => (.error refusal, e')
      | (.ok (), e') => e'.acceptAll back := by
  induction front generalizing e with
  | nil => rfl
  | cons raster rest ih =>
    rw [List.cons_append]
    rcases haccept : e.accept raster with ⟨_ | _, next⟩
    · rw [acceptAll_of_refused haccept, acceptAll_of_refused haccept]
    · rw [acceptAll_of_accept haccept, acceptAll_of_accept haccept, ih]

theorem acceptAll_append (h : e.acceptAll front = (.ok (), e')) :
    e.acceptAll (front ++ back) = e'.acceptAll back := by
  rw [acceptAll_append_eq, h]

/-- Nothing is saved after a picture that cannot be. -/
theorem acceptAll_append_of_refused {refusal : Error}
    (h : e.acceptAll front = (.error refusal, e')) :
    e.acceptAll (front ++ back) = (.error refusal, e') := by
  rw [acceptAll_append_eq, h]

theorem acceptAll_singleton : e.acceptAll [raster] = e.accept raster := by
  rcases haccept : e.accept raster with ⟨_ | _, next⟩
  · exact acceptAll_of_refused haccept
  · exact acceptAll_of_accept haccept

/-- Every picture is counted, whether it can be saved or not. -/
theorem exported_accept (e : Exporter) (raster : Raster) :
    (e.accept raster).2.exported = e.exported + 1 := by
  rw [accept]
  split <;> rfl

theorem exported_acceptAll (h : e.acceptAll rasters = (.ok (), e')) :
    e'.exported = e.exported + rasters.length := by
  induction rasters generalizing e with
  | nil =>
    obtain rfl : e = e' := congrArg Prod.snd h
    rfl
  | cons raster rest ih =>
    have hcount := e.exported_accept raster
    rcases haccept : e.accept raster with ⟨_ | _, next⟩
    · rw [acceptAll_of_refused haccept] at h
      cases h
    · rw [acceptAll_of_accept haccept] at h
      rw [haccept] at hcount
      rw [ih h, hcount, List.length_cons, Nat.add_right_comm, Nat.add_assoc]

/-! ### What is found in the end -/

theorem accept_of_animate (h : e.animate = true) (raster : Raster) :
    e.accept raster = (.ok (), { e with
      exported := e.exported + 1
      collected := e.collected.push (Image.ofRaster raster) }) := by
  rw [accept]
  exact if_pos h

theorem accept_of_still (h : e.animate = false) (raster : Raster) :
    let saved :=
      savePicture e.encoder e.volume (Image.ofRaster raster) (e.framePath (e.exported + 1))
    e.accept raster = (saved.1, { e with exported := e.exported + 1, volume := saved.2 }) := by
  have hpath : ({ e with exported := e.exported + 1 } : Exporter).framePath (e.exported + 1) =
      e.framePath (e.exported + 1) := rfl
  intro saved
  rw [accept]
  dsimp only
  rw [if_neg (ne_true_of_eq_false h), hpath]

/-- Frames with other numbers are saved at other places. -/
theorem place_ne_of_number_ne {v w : Volume} {number other : ℕ} {place place' : Location}
    (hstem : '/' ∉ e.stem.toList) (hplace : v.filePlace (e.framePath number) = .ok place)
    (hplace' : w.filePlace (e.framePath other) = .ok place') (hne : number ≠ other) :
    place ≠ place' := by
  obtain ⟨front, hsplit⟩ := Path.splitOn_join e.directory (slash_notMem_frameName hstem number)
  obtain ⟨front', hsplit'⟩ := Path.splitOn_join e.directory (slash_notMem_frameName hstem other)
  have hlast := Volume.getLast?_of_filePlace hsplit hplace
  have hlast' := Volume.getLast?_of_filePlace hsplit' hplace'
  rintro rfl
  rw [hlast, Option.some.injEq, String.ofList_toList, String.ofList_toList] at hlast'
  exact hne (frameName_inj.mp hlast')

/-- What an exporter is after pictures that it could save or collect. -/
structure Accepted (e : Exporter) (rasters : List Raster) (e' : Exporter) : Prop where
  encoder_eq : e'.encoder = e.encoder
  directory_eq : e'.directory = e.directory
  stem_eq : e'.stem = e.stem
  animate_eq : e'.animate = e.animate
  exported_eq : e'.exported = e.exported + rasters.length
  collected_eq : e.animate = true →
    e'.collected.toList = e.collected.toList ++ rasters.map Image.ofRaster
  volume_eq : e.animate = true ∨ rasters = [] → e'.volume = e.volume
  shows : e.animate = false → ∀ index image, (rasters.map Image.ofRaster)[index]? = some image →
    ∃ content, e.encoder.picture (some "png") image = .ok content ∧
      e'.volume.Shows (e.framePath (e.exported + (index + 1))) content

theorem Accepted.framePath_eq (h : Accepted e rasters e') (number : ℕ) :
    e'.framePath number = e.framePath number := by
  rw [framePath, h.directory_eq, h.stem_eq, framePath]

/-- One more picture is saved, and the earlier ones are still there. -/
theorem Accepted.concat {next : Exporter} (h : Accepted e rasters e')
    (hstem : '/' ∉ e.stem.toList) (haccept : e'.accept raster = (.ok (), next)) :
    Accepted e (rasters ++ [raster]) next := by
  have hlength : e.exported + (rasters ++ [raster]).length = e'.exported + 1 := by
    rw [h.exported_eq, List.length_append, List.length_singleton, Nat.add_assoc]
  cases hanimate : e.animate with
  | true =>
    rw [accept_of_animate (h.animate_eq.trans hanimate)] at haccept
    obtain rfl := congrArg Prod.snd haccept
    exact
      { encoder_eq := h.encoder_eq
        directory_eq := h.directory_eq
        stem_eq := h.stem_eq
        animate_eq := h.animate_eq
        exported_eq := hlength.symm
        collected_eq := fun _ => by
          rw [Array.toList_push, h.collected_eq hanimate, List.map_append, List.append_assoc]
          rfl
        volume_eq := fun _ => h.volume_eq (Or.inl hanimate)
        shows := fun hstill => by rw [hanimate] at hstill; cases hstill }
  | false =>
    rw [accept_of_still (h.animate_eq.trans hanimate), h.framePath_eq, h.encoder_eq] at haccept
    rcases hsave : savePicture e.encoder e'.volume (Image.ofRaster raster)
      (e.framePath (e'.exported + 1)) with ⟨result, w⟩
    rw [hsave] at haccept
    obtain ⟨rfl, rfl⟩ := Prod.mk.inj haccept
    obtain ⟨place, content, hkeeps, hplace, hcontent, hshows⟩ := savePicture_eq_ok hsave
    rw [fileExtension?_framePath e hstem] at hcontent
    exact
      { encoder_eq := rfl
        directory_eq := h.directory_eq
        stem_eq := h.stem_eq
        animate_eq := h.animate_eq
        exported_eq := hlength.symm
        collected_eq := fun hmoving => by rw [hanimate] at hmoving; cases hmoving
        volume_eq := fun hnone => by simp [hanimate] at hnone
        shows := fun _ index image himage => by
          rw [List.map_append, List.getElem?_append] at himage
          split at himage
          next hearlier =>
            rw [List.length_map] at hearlier
            obtain ⟨earlier, hencode, hshown⟩ := h.shows hanimate index image himage
            refine ⟨earlier, hencode, hshown.of_keeps hkeeps fun other hother => ?_⟩
            refine place_ne_of_number_ne hstem hother hplace ?_
            rw [h.exported_eq]
            omega
          next hlast =>
            rw [List.length_map] at hlast himage
            obtain ⟨rfl, rfl⟩ : index = rasters.length ∧ Image.ofRaster raster = image := by
              rw [List.map_singleton, List.getElem?_singleton] at himage
              split at himage
              next hindex => exact ⟨by omega, Option.some.inj himage⟩
              next => cases himage
            rw [h.exported_eq, Nat.add_assoc] at hshows
            exact ⟨content, hcontent, hshows⟩ }

theorem Accepted.nil (e : Exporter) : Accepted e [] e where
  encoder_eq := rfl
  directory_eq := rfl
  stem_eq := rfl
  animate_eq := rfl
  exported_eq := rfl
  collected_eq := fun _ => (List.append_nil _).symm
  volume_eq := fun _ => rfl
  shows := nofun

/-- Pictures that could be saved are all there. -/
theorem accepted_of_acceptAll (hstem : '/' ∉ e.stem.toList)
    (h : e.acceptAll rasters = (.ok (), e')) : Accepted e rasters e' := by
  induction rasters using List.reverseRecOn generalizing e' with
  | nil =>
    obtain rfl : e = e' := congrArg Prod.snd h
    exact .nil e
  | append_singleton rasters raster ih =>
    rcases hearlier : e.acceptAll rasters with ⟨_ | _, middle⟩
    · rw [acceptAll_append_of_refused hearlier] at h
      cases h
    · rw [acceptAll_append hearlier, acceptAll_singleton] at h
      exact (ih hearlier).concat hstem h

theorem exported_finish (e : Exporter) : e.finish.2.exported = e.exported := by
  rw [finish]
  split <;> rfl

theorem finish_of_still (h : e.animate = false) : e.finish = (.ok (), e) := by
  rw [finish, if_neg (by simp [h])]

theorem finish_of_animate (h : e.animate = true) (hfinish : e.finish = (.ok (), e')) :
    e'.exported = e.exported ∧ (e.collected = #[] → e'.volume = e.volume) ∧
      ∀ first rest, e.collected.toList = first :: rest →
        ∃ content, e.encoder.animation first rest gifFrameDelayMs = .ok content ∧
          e'.volume.Shows e.animationPath content := by
  rw [finish] at hfinish
  split at hfinish
  next hsome =>
    rcases hsave : saveAnimation e.encoder e.volume e.collected.toList e.animationPath
      gifFrameDelayMs with ⟨result, w⟩
    rw [hsave] at hfinish
    obtain ⟨rfl, rfl⟩ := Prod.mk.inj hfinish
    refine ⟨rfl, fun hnone => absurd hnone hsome.2, fun first rest hcollected => ?_⟩
    obtain ⟨first', rest', content, hframes, hcontent, hshows⟩ := saveAnimation_eq_ok hsave
    rw [hcollected] at hframes
    obtain ⟨rfl, rfl⟩ := List.cons.inj hframes
    exact ⟨content, hcontent, hshows⟩
  next hnone =>
    obtain rfl : e = e' := congrArg Prod.snd hfinish
    refine ⟨rfl, fun _ => rfl, fun first rest hcollected => ?_⟩
    refine absurd ⟨h, fun hempty => ?_⟩ hnone
    rw [hempty] at hcollected
    cases hcollected

/-- **All pictures are found in the end**, if nothing went wrong. -/
theorem saved_of_saveAll {encoder : Encoder} {directory stem : String} {animate : Bool}
    {v : Volume} (hstem : '/' ∉ stem.toList)
    (h : (fresh encoder directory stem animate v).saveAll rasters = (.ok (), e')) :
    e'.exported = rasters.length ∧
      Saved (fresh encoder directory stem animate v) (rasters.map Image.ofRaster) e'.volume := by
  rw [saveAll] at h
  rcases haccept : (fresh encoder directory stem animate v).acceptAll rasters with ⟨_ | ⟨⟩, middle⟩
  · rw [haccept] at h
    cases h
  · rw [haccept] at h
    dsimp only at h
    have haccepted := accepted_of_acceptAll hstem haccept
    have hexported : middle.exported = rasters.length :=
      haccepted.exported_eq.trans (Nat.zero_add _)
    cases animate with
    | true =>
      obtain ⟨hcount, hnone, hshows⟩ := finish_of_animate haccepted.animate_eq h
      have hcollected := haccepted.collected_eq rfl
      have hpath : middle.animationPath = (fresh encoder directory stem true v).animationPath := by
        rw [animationPath, haccepted.directory_eq, haccepted.stem_eq, animationPath]
      refine ⟨hcount.trans hexported, ⟨nofun, fun _ first rest himages => ?_, fun hempty => ?_⟩⟩
      · rw [himages] at hcollected
        rw [← hpath]
        obtain ⟨content, hcontent, hshown⟩ := hshows first rest hcollected
        exact ⟨content, haccepted.encoder_eq ▸ hcontent, hshown.openEntry⟩
      · rw [hempty] at hcollected
        rw [hnone (Array.toList_eq_nil_iff.mp hcollected)]
        exact haccepted.volume_eq (Or.inl rfl)
    | false =>
      rw [finish_of_still haccepted.animate_eq] at h
      obtain rfl : middle = e' := congrArg Prod.snd h
      refine ⟨hexported, ⟨fun _ index image himage => ?_, nofun, fun hempty => ?_⟩⟩
      · obtain ⟨content, hcontent, hshows⟩ := haccepted.shows rfl index image himage
        have hzero : (fresh encoder directory stem false v).exported = 0 := rfl
        rw [hzero, Nat.zero_add] at hshows
        exact ⟨content, hcontent, hshows.openEntry⟩
      · exact haccepted.volume_eq (Or.inr (List.map_eq_nil_iff.mp hempty))

/-- Collecting pictures cannot fail. -/
theorem exists_acceptAll_of_animate (h : e.animate = true) (rasters : List Raster) :
    ∃ e', e.acceptAll rasters = (.ok (), e') := by
  induction rasters generalizing e with
  | nil => exact ⟨e, rfl⟩
  | cons raster rest ih =>
    rw [acceptAll_of_accept (accept_of_animate h raster)]
    exact ih h

/-- **When an animation can be saved** at the top of a tree: no directory has its name, and no
picture is too large. -/
theorem saveAll_at_top {encoder : Encoder} (hencoder : encoder.Animates) {stem : String}
    {v : Volume} (hstem : '/' ∉ stem.toList) (hname : Path.IsName (animationName stem))
    (hfree : v.lookup [animationName stem] ≠ some .directory)
    (hfits : ∀ raster ∈ rasters, raster.side < 65536) :
    ((fresh encoder "" stem true v).saveAll rasters).1 = .ok () := by
  obtain ⟨e, haccept⟩ := @exists_acceptAll_of_animate (fresh encoder "" stem true v) rfl rasters
  have haccepted := accepted_of_acceptAll hstem haccept
  have hpath : e.animationPath = animationName stem := by
    rw [animationPath, haccepted.directory_eq, haccepted.stem_eq]
    exact Path.join_empty _
  have hvolume : e.volume = v := haccepted.volume_eq (Or.inl rfl)
  have hcollected : e.collected.toList = rasters.map Image.ofRaster := haccepted.collected_eq rfl
  have hfitsAll : ∀ image ∈ e.collected.toList, image.width < 65536 ∧ image.height < 65536 := by
    rw [hcollected, List.forall_mem_map]
    exact fun raster hraster => ⟨hfits raster hraster, hfits raster hraster⟩
  have hcreate := Volume.createFile_eq_ok_iff.mpr ⟨Volume.filePlace_name hname v, hfree, rfl⟩
  rw [saveAll, haccept]
  dsimp only
  rw [finish]
  split
  next hsome =>
    rw [hpath, hvolume]
    refine saveAnimation_of_createFile (haccepted.encoder_eq ▸ hencoder) (ensureParent_name hname v)
      hcreate hfitsAll ?_ _
    exact fun hnone => hsome.2 (Array.toList_eq_nil_iff.mp hnone)
  next => rfl

/-! ### What is reported -/

/-- The exporter with another log. -/
def withLog (e : Exporter) (log : Array LogLine) : Exporter := { e with log := log }

/-- Saving does not depend on what was reported. -/
theorem accept_withLog (e : Exporter) (log : Array LogLine) (raster : Raster) :
    (e.withLog log).accept raster =
      ((e.accept raster).1, (e.accept raster).2.withLog log) := by
  cases hanimate : e.animate with
  | true =>
    have hlog : (e.withLog log).animate = true := hanimate
    rw [accept_of_animate hanimate, accept_of_animate hlog]
    rfl
  | false =>
    have hlog : (e.withLog log).animate = false := hanimate
    have hpath : (e.withLog log).framePath = e.framePath := rfl
    rw [accept_of_still hanimate, accept_of_still hlog, hpath]
    rfl

theorem finish_withLog (e : Exporter) (log : Array LogLine) :
    (e.withLog log).finish = (e.finish.1, e.finish.2.withLog log) := by
  rw [finish, finish]
  by_cases h : e.animate = true ∧ e.collected ≠ #[]
  · have hlog : (e.withLog log).animate = true ∧ (e.withLog log).collected ≠ #[] := h
    rw [if_pos h, if_pos hlog]
    rfl
  · have hlog : ¬ ((e.withLog log).animate = true ∧ (e.withLog log).collected ≠ #[]) := h
    rw [if_neg h, if_neg hlog]

/-- Notices are reported and nothing else. -/
theorem exists_notifyAll_eq (e : Exporter) (notices : List Notice) :
    ∃ log, notifyAll e notices = e.withLog log := by
  induction notices generalizing e with
  | nil => exact ⟨e.log, rfl⟩
  | cons notice rest ih =>
    obtain ⟨log, hlog⟩ := ih (FrameSink.notify e notice)
    exact ⟨log, hlog⟩

/-- A frame that is sent is saved or collected. -/
theorem exists_send_eq (e : Exporter) (log : Array LogLine) (frame : Frame) :
    ∃ log', frame.send (e.withLog log) =
      ((e.accept frame.raster).1, (e.accept frame.raster).2.withLog log') := by
  obtain ⟨log', hlog'⟩ := exists_notifyAll_eq (e.withLog log) frame.notices
  refine ⟨log', ?_⟩
  rw [Frame.send, hlog']
  exact accept_withLog e log' frame.raster

end Exporter

end Bytescope
