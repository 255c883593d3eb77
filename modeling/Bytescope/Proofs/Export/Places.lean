import Bytescope.Proofs.Export.Names
import Mathlib.Data.List.Basic

/-!
# Places in a directory tree

A path leads to its place through directories only. Saving a file makes directories and replaces at
most the file at one place, so every path leads to the same place afterwards, and what was there is
still there.

## Main definitions

* `Volume.Keeps`: nothing is lost of a tree but a file at one place.

## Main results

* `Volume.keeps_createDirectories`, `Volume.keeps_insert`: what accesses keep.
* `Volume.filePlace_eq_ok_iff`: the place of a path.
* `Volume.Keeps.filePlace`: a path leads to the same place afterwards.
* `Volume.openEntry_of_filePlace`: what is at the place of a path is what the path opens.
-/

namespace Bytescope

namespace Volume

variable {v w x : Volume} {path : String} {place base next : Location} {piece last : List Char}
  {front pieces : List (List Char)}

/-- Nothing is lost but a file at the place. -/
def Keeps (place : Location) (v w : Volume) : Prop :=
  ∀ other entry, v.lookup other = some entry → other ≠ place ∨ entry = .directory →
    w.lookup other = some entry

theorem Keeps.refl (place : Location) (v : Volume) : Keeps place v v := fun _ _ h _ => h

theorem Keeps.trans (h : Keeps place v w) (h' : Keeps place w x) : Keeps place v x :=
  fun other entry hentry hkept => h' other entry (h other entry hentry hkept) hkept

/-- Directories stay. -/
theorem Keeps.directory (h : Keeps place v w) (hbase : v.lookup base = some .directory) :
    w.lookup base = some .directory :=
  h base _ hbase (Or.inr rfl)

/-- What takes the place of a file, or of nothing, takes nothing else away. -/
theorem keeps_insert (hplace : place ≠ []) (hfile : v.lookup place ≠ some .directory)
    (entry : VolumeEntry) : Keeps place v (v.insert place entry) := by
  intro other found hfound hkept
  rw [lookup_insert v hplace]
  by_cases heq : place = other
  · subst heq
    rcases hkept with hne | rfl
    · exact absurd rfl hne
    · exact absurd hfound hfile
  · rwa [if_neg heq]

/-- What takes the place of nothing takes nothing away. -/
theorem keeps_insert_new (hplace : next ≠ []) (hnone : v.lookup next = none)
    (entry : VolumeEntry) : Keeps place v (v.insert next entry) := by
  intro other found hfound _
  have hne : next ≠ other := fun heq => by rw [← heq, hnone] at hfound; cases hfound
  rwa [lookup_insert v hplace, if_neg hne]

/-- Beside a single entry there is nothing. -/
theorem lookup_alone {other : Location} (hplace : place ≠ []) (hother : other ≠ [])
    (hne : place ≠ other) (entry : VolumeEntry) :
    (empty.insert place entry).lookup other = none := by
  rw [lookup_insert _ hplace, if_neg hne, lookup, if_neg hother]
  exact Std.HashMap.getElem?_empty

theorem child_eq_ok_iff : child base piece = .ok next ↔
    Path.fits piece = true ∧ next = base ++ [String.ofList piece] := by
  rw [child]
  split
  next hfits => simp [hfits, eq_comm]
  next hfits => simp [hfits]

theorem ne_nil_of_child (h : child base piece = .ok next) : next ≠ [] := by
  rw [(child_eq_ok_iff.mp h).2]
  exact List.append_ne_nil_of_right_ne_nil _ (List.cons_ne_nil _ _)

/-- Making directories takes nothing away. -/
theorem keeps_createFrom (place : Location) (made : Bool) :
    Keeps place v (v.createFrom base made pieces).2 := by
  induction pieces generalizing v base made with
  | nil => exact .refl place v
  | cons piece rest ih =>
    rw [createFrom]
    split
    next => exact ih made
    next =>
      split
      next => exact .refl place v
      next next hchild =>
        split
        next => exact ih made
        next => exact .refl place v
        next hnone => exact (keeps_insert_new (ne_nil_of_child hchild) hnone _).trans (ih true)

theorem keeps_createDirectories (place : Location) (path : String) :
    Keeps place v (v.createDirectories path).2 := by
  rw [createDirectories]
  split
  next => exact .refl place v
  next => exact keeps_createFrom place false

/-! ### Following a path -/

theorem requireDirectory_eq_ok_iff :
    v.requireDirectory base = .ok () ↔ v.lookup base = some .directory := by
  rw [requireDirectory]
  split
  next h => simp [h]
  next h => simp [h]
  next h => simp [h]

theorem follow_eq_ok_iff : v.follow base piece = .ok next ↔ v.lookup base = some .directory ∧
    (if Path.isIdle piece then .ok base
      else if piece = ['.', '.'] then .ok base.dropLast
      else child base piece : Except SystemFault Location) = .ok next := by
  rw [← requireDirectory_eq_ok_iff, follow]
  cases v.requireDirectory base with
  | error fault => simp [bind, Except.bind]
  | ok => simp [bind, Except.bind, pure, Except.pure]

/-- Every piece leads to the same place afterwards. -/
theorem Keeps.foldlM_follow (h : Keeps place v w)
    (hplace : pieces.foldlM v.follow base = .ok next) : pieces.foldlM w.follow base = .ok next := by
  induction pieces generalizing base with
  | nil => exact hplace
  | cons piece rest ih =>
    rw [List.foldlM_cons] at hplace ⊢
    cases hfollow : v.follow base piece with
    | error fault =>
      rw [hfollow] at hplace
      cases hplace
    | ok middle =>
      rw [hfollow] at hplace
      obtain ⟨hdirectory, hnext⟩ := follow_eq_ok_iff.mp hfollow
      rw [follow_eq_ok_iff.mpr ⟨h.directory hdirectory, hnext⟩]
      exact ih hplace

theorem Keeps.locate (h : Keeps place v w) (hplace : v.locate pieces = .ok next) :
    w.locate pieces = .ok next :=
  h.foldlM_follow hplace

theorem locate_concat : v.locate (front ++ [last]) = (v.locate front).bind fun base =>
    v.follow base last := by
  rw [locate, List.foldlM_append, locate]
  cases front.foldlM v.follow [] with
  | error fault => rfl
  | ok base =>
    change [last].foldlM v.follow base = v.follow base last
    rw [List.foldlM_cons]
    exact bind_pure _

/-- The empty pieces at the end of a path are left out before its place is looked for. -/
theorem dropEmpty_concat (h : last ≠ []) :
    ((front ++ [last]).reverse.dropWhile (· = [])).reverse = front ++ [last] := by
  rw [List.reverse_append, List.reverse_singleton, List.singleton_append,
    List.dropWhile_cons_of_neg (by simp [h]), List.reverse_cons, List.reverse_reverse]

theorem length_dropEmpty_concat_nil (front : List (List Char)) :
    ((front ++ [[]]).reverse.dropWhile (· = [])).reverse.length < (front ++ [[]]).length := by
  rw [List.length_reverse, List.reverse_append, List.reverse_singleton, List.singleton_append,
    List.dropWhile_cons_of_pos rfl, List.length_append, List.length_singleton, Nat.lt_succ_iff]
  exact Nat.le_trans (List.dropWhile_sublist _).length_le (Nat.le_of_eq List.length_reverse)

/-- **The place of a path.** The path ends with a name that can be looked up, in the directory that
the pieces before it lead to. -/
theorem filePlace_eq_ok_iff (hsplit : path.toList.splitOn '/' = front ++ [last]) :
    v.filePlace path = .ok place ↔ requireSound path = .ok () ∧ Path.isIdle last = false ∧
      last ≠ ['.', '.'] ∧ ∃ base, v.locate front = .ok base ∧
        v.lookup base = some .directory ∧ child base last = .ok place := by
  have hidle : Path.isIdle last = false ↔ last ≠ [] ∧ last ≠ ['.'] := by
    rw [Path.isIdle, Bool.or_eq_false_iff, decide_eq_false_iff_not, decide_eq_false_iff_not]
  rw [filePlace, hsplit]
  simp only [bind_eq_ok_iff, hidle]
  by_cases hempty : last = []
  · subst hempty
    have hlength := length_dropEmpty_concat_nil front
    simp only [hlength, true_or, if_true]
    constructor
    · rintro ⟨-, -, -, -, -, -, hthrow⟩
      split at hthrow <;> cases hthrow
    · rintro ⟨-, ⟨hne, -⟩, -⟩
      exact absurd rfl hne
  · rw [dropEmpty_concat hempty, List.dropLast_concat, List.getLast?_concat]
    simp only [Nat.lt_irrefl, false_or]
    constructor
    · rintro ⟨⟨⟩, hsound, base, hbase, ⟨⟩, hdirectory, hlast⟩
      split at hlast
      next => cases hlast
      next hdots =>
        rw [not_or] at hdots
        exact ⟨hsound, ⟨hempty, hdots.1⟩, hdots.2, base, hbase,
          requireDirectory_eq_ok_iff.mp hdirectory, hlast⟩
    · rintro ⟨hsound, ⟨-, hdot⟩, hdots, base, hbase, hdirectory, hlast⟩
      refine ⟨(), hsound, base, hbase, (), requireDirectory_eq_ok_iff.mpr hdirectory, ?_⟩
      rw [if_neg (not_or.mpr ⟨hdot, hdots⟩)]
      exact hlast

theorem exists_splitOn_eq_concat (path : String) :
    ∃ front last, path.toList.splitOn '/' = front ++ [last] :=
  (List.eq_nil_or_concat' _).resolve_left (List.splitOn_ne_nil '/' path.toList)

/-- A name by itself leads to a place at the top. -/
theorem filePlace_name {name : String} (h : Path.IsName name) (v : Volume) :
    v.filePlace name = .ok [name] := by
  have hsplit : name.toList.splitOn '/' = [] ++ [name.toList] :=
    List.splitOn_eq_singleton h.noSlash
  have hsound : requireSound name = .ok () := by
    rw [requireSound, if_neg (ne_true_of_eq_false h.noNul),
      if_neg (ne_true_of_eq_false h.not_tooLong)]
  refine (filePlace_eq_ok_iff hsplit).mpr
    ⟨hsound, h.notIdle, h.notUp, [], rfl, if_pos rfl, ?_⟩
  exact child_eq_ok_iff.mpr ⟨h.fits, by rw [List.nil_append, String.ofList_toList]⟩

/-- A path leads to the same place afterwards. -/
theorem Keeps.filePlace {other : Location} (h : Keeps other v w)
    (hplace : v.filePlace path = .ok place) : w.filePlace path = .ok place := by
  obtain ⟨front, last, hsplit⟩ := exists_splitOn_eq_concat path
  obtain ⟨hsound, hidle, hup, base, hbase, hdirectory, hlast⟩ :=
    (filePlace_eq_ok_iff hsplit).mp hplace
  exact (filePlace_eq_ok_iff hsplit).mpr
    ⟨hsound, hidle, hup, base, h.locate hbase, h.directory hdirectory, hlast⟩

/-- The place of a path has the name that the path ends with. -/
theorem getLast?_of_filePlace (hsplit : path.toList.splitOn '/' = front ++ [last])
    (hplace : v.filePlace path = .ok place) : place.getLast? = some (String.ofList last) := by
  obtain ⟨-, -, -, base, -, -, hlast⟩ := (filePlace_eq_ok_iff hsplit).mp hplace
  rw [(child_eq_ok_iff.mp hlast).2, List.getLast?_concat]

/-- What is at the place of a path is what the path opens. -/
theorem openEntry_of_filePlace {entry : VolumeEntry} (hplace : v.filePlace path = .ok place)
    (hentry : v.lookup place = some entry) : v.openEntry path = .ok entry := by
  obtain ⟨front, last, hsplit⟩ := exists_splitOn_eq_concat path
  obtain ⟨hsound, hidle, hup, base, hbase, hdirectory, hlast⟩ :=
    (filePlace_eq_ok_iff hsplit).mp hplace
  have hne : path ≠ "" := by
    rintro rfl
    have hnone : front ++ [last] = [] ++ [[]] := hsplit.symm
    rw [(List.append_inj' hnone rfl).2 |> List.singleton_inj.mp] at hidle
    cases hidle
  have hfollow : v.follow base last = .ok place := by
    refine follow_eq_ok_iff.mpr ⟨hdirectory, ?_⟩
    rw [if_neg (ne_true_of_eq_false hidle), if_neg hup]
    exact hlast
  have hlocate : v.locate (path.toList.splitOn '/') = .ok place := by
    rw [hsplit, locate_concat, hbase]
    exact hfollow
  rw [openEntry, hsound]
  simp only [bind, Except.bind, if_neg hne, hlocate, hentry]
  rfl

/-- A file at the top is opened by its name. -/
theorem openEntry_name {name : String} (h : Path.IsName name) (entry : VolumeEntry) :
    (v.insert [name] entry).openEntry name = .ok entry := by
  refine openEntry_of_filePlace (filePlace_name h _) ?_
  rw [lookup_insert v (List.cons_ne_nil _ _), if_pos rfl]

/-! ### Making and writing files -/

theorem createFile_eq_ok_iff : v.createFile path = .ok (place, w) ↔
    v.filePlace path = .ok place ∧ v.lookup place ≠ some .directory ∧
      w = v.insert place (.file (.bytes #[])) := by
  rw [createFile, bind_eq_ok_iff]
  constructor
  · rintro ⟨found, hplace, hfound⟩
    split at hfound
    next => cases hfound
    next hfile =>
      obtain ⟨rfl, rfl⟩ := Prod.mk.inj (Except.ok.inj hfound)
      exact ⟨hplace, hfile, rfl⟩
  · rintro ⟨hplace, hfile, rfl⟩
    refine ⟨place, hplace, ?_⟩
    split
    next hdirectory => exact absurd hdirectory hfile
    next => rfl

theorem ne_nil_of_filePlace (hplace : v.filePlace path = .ok place) : place ≠ [] := by
  obtain ⟨front, last, hsplit⟩ := exists_splitOn_eq_concat path
  obtain ⟨-, -, -, base, -, -, hlast⟩ := (filePlace_eq_ok_iff hsplit).mp hplace
  exact ne_nil_of_child hlast

/-- **A file that is made and written.** It stands at the place of its path, and nothing else is
lost. -/
theorem write_of_createFile (h : v.createFile path = .ok (place, w)) (content : FileContent) :
    Keeps place v (w.write place content) ∧
      (w.write place content).filePlace path = .ok place ∧
      (w.write place content).lookup place = some (.file content) := by
  obtain ⟨hplace, hfile, rfl⟩ := createFile_eq_ok_iff.mp h
  have hne := ne_nil_of_filePlace hplace
  have hempty : (v.insert place (.file (.bytes #[]))).lookup place ≠ some .directory := by
    rw [lookup_insert v hne, if_pos rfl]
    nofun
  have hkeeps := (keeps_insert hne hfile (.file (.bytes #[]))).trans
    (keeps_insert hne hempty (.file content))
  refine ⟨hkeeps, hkeeps.filePlace hplace, ?_⟩
  rw [write, lookup_insert _ hne, if_pos rfl]

end Volume

end Bytescope
