import Bytescope.Export
import Bytescope.Proofs.Text.Blank

/-!
# Names of exported files

The files of an export stand in one directory, and each has a name of its own: the numbers of
frames can be read off the names. The name decides in which format a frame is saved.

## Main definitions

* `Path.IsName`: a path that is a name by itself.

## Main results

* `Path.splitOn_join`, `Path.fileName?_join`: the name is the last piece of a path.
* `Exporter.frameName_inj`: frames with other numbers have other names.
* `Exporter.fileExtension?_framePath`: every frame is saved in one format.
-/

namespace Bytescope

namespace Path

variable {directory name : String} {path last before after : List Char}
  {front pieces : List (List Char)}

/-- Below a directory, a name is the last piece of the path. -/
theorem splitOn_join (directory : String) (hname : '/' ∉ name.toList) :
    ∃ front, (join directory name).toList.splitOn '/' = front ++ [name.toList] := by
  have hhead : name.toList.head? ≠ some '/' := fun h => hname (List.mem_of_mem_head? h)
  rw [join, if_neg hhead]
  split
  next hplain =>
    rcases hplain with rfl | hslash
    · refine ⟨[], ?_⟩
      rw [String.empty_append, List.splitOn_eq_singleton hname, List.nil_append]
    · obtain ⟨base, hbase⟩ := List.getLast?_eq_some_iff.mp hslash
      refine ⟨base.splitOn '/', ?_⟩
      rw [String.toList_append, hbase, List.append_assoc, List.singleton_append,
        List.splitOn_append_cons_self, List.splitOn_eq_singleton hname]
  next =>
    refine ⟨directory.toList.splitOn '/', ?_⟩
    have hslash : "/".toList = ['/'] := rfl
    rw [String.toList_append, String.toList_append, hslash, List.append_assoc,
      List.singleton_append, List.splitOn_append_cons_self, List.splitOn_eq_singleton hname]

theorem dropIdle_concat (h : isIdle last = false) :
    dropIdle (pieces ++ [last]) = pieces ++ [last] := by
  rw [dropIdle, List.reverse_append, List.reverse_singleton, List.singleton_append,
    List.dropWhile_cons_of_neg (by simp [h]), List.reverse_cons, List.reverse_reverse]

/-- A last piece that names something is the last name of the path. -/
theorem getLast?_split (hsplit : path.splitOn '/' = front ++ [last]) (h : isIdle last = false) :
    (split path).2.getLast? = some last := by
  have hdrop {pieces rest : List (List Char)} (hpieces : rest = pieces ++ [last]) :
      (dropIdle rest).getLast? = some last := by
    rw [hpieces, dropIdle_concat h, List.getLast?_concat]
  rw [split, hsplit]
  match front with
  | [] =>
    simp only [List.nil_append]
    split
    next heq => cases heq
    next heq =>
      obtain ⟨rfl, -⟩ := List.cons.inj heq
      cases h
    next => exact hdrop (List.nil_append _).symm
  | first :: middle =>
    rw [List.cons_append]
    split
    next piece rest heq =>
      obtain ⟨-, hrest⟩ := List.cons.inj heq
      exact hdrop hrest.symm
    next rest heq =>
      obtain ⟨-, hrest⟩ := List.cons.inj heq
      exact hdrop hrest.symm
    next => exact hdrop (List.cons_append ..).symm

/-- Below a directory, a path has the name that it ends with. -/
theorem fileName?_join (directory : String) (hname : '/' ∉ name.toList)
    (hidle : isIdle name.toList = false) (hup : name.toList ≠ ['.', '.']) :
    fileName? (join directory name) = some name := by
  obtain ⟨front, hsplit⟩ := splitOn_join directory hname
  rw [fileName?, getLast?_split hsplit hidle]
  dsimp only
  rw [if_neg hup, String.ofList_toList]

/-- A path that does not end with a dot has the name that it ends with. -/
theorem fileName?_join_of_getLast? {c : Char} (directory : String) (hname : '/' ∉ name.toList)
    (hlast : name.toList.getLast? = some c) (hdot : c ≠ '.') :
    fileName? (join directory name) = some name := by
  have hno (h : name.toList.getLast? = none ∨ name.toList.getLast? = some '.') : False := by
    rcases h with h | h
    · cases hlast.symm.trans h
    · exact hdot (Option.some.inj (hlast.symm.trans h))
  have hidle : isIdle name.toList = false := by
    rw [isIdle, Bool.or_eq_false_iff, decide_eq_false_iff_not, decide_eq_false_iff_not]
    exact ⟨fun h => hno (Or.inl (h ▸ rfl)), fun h => hno (Or.inr (h ▸ rfl))⟩
  exact fileName?_join directory hname hidle fun h => hno (Or.inr (h ▸ rfl))

/-- A name is cut at its last dot. -/
theorem cutAtDot_append (hbefore : before ≠ []) (hafter : '.' ∉ after) :
    cutAtDot (before ++ '.' :: after) = some (before, after) := by
  have htake : ((before ++ '.' :: after).reverse.takeWhile (· ≠ '.')).reverse = after := by
    have hno : ∀ c ∈ after.reverse, decide (c ≠ '.') = true := fun c hc =>
      decide_eq_true fun heq => hafter (heq ▸ List.mem_reverse.mp hc)
    rw [List.reverse_append, List.reverse_cons, List.append_assoc,
      List.takeWhile_append_of_pos hno, List.singleton_append,
      List.takeWhile_cons_of_neg (by decide), List.append_nil, List.reverse_reverse]
  have hlength : (before ++ '.' :: after).length - after.length - 1 = before.length := by
    rw [List.length_append, List.length_cons]
    omega
  rw [cutAtDot]
  simp only [htake, hlength, List.take_left, if_neg hbefore]

theorem slash_notMem_of_fileName? {path : String} (h : fileName? path = some name) :
    '/' ∉ name.toList := by
  rw [fileName?] at h
  cases hlast : (split path.toList).2.getLast? with
  | none =>
    rw [hlast] at h
    cases h
  | some piece =>
    rw [hlast] at h
    dsimp only at h
    split at h
    next => cases h
    next =>
      rw [← Option.some.inj h, String.toList_ofList]
      have hmem := List.mem_of_getLast? hlast
      have hdrop {pieces : List (List Char)} (hpiece : piece ∈ dropIdle pieces) : piece ∈ pieces :=
        List.mem_reverse.mp ((List.dropWhile_sublist _).subset (List.mem_reverse.mp hpiece))
      have hpiece : piece ∈ path.toList.splitOn '/' := by
        rw [split] at hmem
        split at hmem
        next heq => exact heq ▸ List.mem_cons_of_mem _ (hdrop hmem)
        next heq => exact heq ▸ List.mem_cons_of_mem _ (hdrop hmem)
        next => exact hdrop hmem
      exact Text.not_mem_of_mem_splitOn hpiece

/-- A stem is part of a name. -/
theorem slash_notMem_of_fileStem? {path stem : String} (h : fileStem? path = some stem) :
    '/' ∉ stem.toList := by
  obtain ⟨name, hname, hstem⟩ := Option.map_eq_some_iff.mp h
  have hslash := slash_notMem_of_fileName? hname
  rw [cutAtDot] at hstem
  by_cases hbefore : name.toList.take (name.toList.length -
      (name.toList.reverse.takeWhile (· ≠ '.')).reverse.length - 1) = []
  · rw [if_pos hbefore] at hstem
    rwa [← hstem]
  · rw [if_neg hbefore] at hstem
    rw [← hstem, String.toList_ofList]
    exact fun hmem => hslash (List.mem_of_mem_take hmem)

/-! ### Names by themselves -/

/-- The path is a name by itself, which an entry can have. -/
structure IsName (name : String) : Prop where
  noNul : name.toList.contains '\x00' = false
  noSlash : '/' ∉ name.toList
  notIdle : isIdle name.toList = false
  notUp : name.toList ≠ ['.', '.']
  fits : fits name.toList = true

instance (name : String) : Decidable (IsName name) :=
  decidable_of_iff (name.toList.contains '\x00' = false ∧ '/' ∉ name.toList ∧
      isIdle name.toList = false ∧ name.toList ≠ ['.', '.'] ∧ Path.fits name.toList = true)
    ⟨fun h => ⟨h.1, h.2.1, h.2.2.1, h.2.2.2.1, h.2.2.2.2⟩,
      fun h => ⟨h.noNul, h.noSlash, h.notIdle, h.notUp, h.fits⟩⟩

/-- A name is short enough for a path. -/
theorem IsName.not_tooLong (h : IsName name) : tooLong name = false := by
  have hfits := h.fits
  rw [Path.fits, String.ofList_toList, decide_eq_true_iff, maxNameBytes] at hfits
  rw [tooLong, decide_eq_false_iff_not, maxPathBytes]
  omega

theorem IsName.split_eq (h : IsName name) : split name.toList = (.bare, [name.toList]) := by
  have hdrop : dropIdle [name.toList] = [name.toList] :=
    @dropIdle_concat name.toList [] h.notIdle
  rw [split, List.splitOn_eq_singleton h.noSlash]
  split
  next heq => simp at heq
  next heq =>
    have hidle := h.notIdle
    rw [(List.cons.inj heq).1] at hidle
    cases hidle
  next => rw [hdrop]

/-- A name stands in the current directory. -/
theorem IsName.parent?_eq (h : IsName name) : parent? name = some "" := by
  rw [parent?, h.split_eq]
  rfl

theorem join_empty (path : String) : join "" path = path := by
  rw [join]
  split
  next => rfl
  next => rw [if_pos (Or.inl rfl), String.empty_append]

end Path

namespace Exporter

variable {stem : String}

/-! ### Names of frames -/

/-- What stands between the stem and the dot of a frame's name. -/
def numberPart (number : ℕ) : List Char :=
  ['_', 'f', 'r', 'a', 'm', 'e', '_'] ++ (padded 4 number).toList

theorem toList_frameName (stem : String) (number : ℕ) :
    (frameName stem number).toList =
      (stem.toList ++ numberPart number) ++ '.' :: ['p', 'n', 'g'] := by
  have hsuffix : frameSuffix.toList = ['_', 'f', 'r', 'a', 'm', 'e'] := rfl
  have hbar : "_".toList = ['_'] := rfl
  have hextension : ".png".toList = ['.', 'p', 'n', 'g'] := rfl
  rw [frameName, String.toList_append, String.toList_append, String.toList_append,
    String.toList_append, hsuffix, hbar, hextension, numberPart]
  simp

/-- The number can be read off its digits, whatever zeros stand in front of them. -/
theorem ofDigitChars_padded (width number : ℕ) :
    Nat.ofDigitChars 10 (padded width number).toList 0 = number := by
  rw [padded, String.toList_ofList, Nat.ofDigitChars_append, Nat.ofDigitChars_replicate_zero,
    Nat.mul_zero, Nat.ofDigitChars_ten_toDigits]

/-- **Frames with other numbers have other names.** -/
theorem frameName_inj {number other : ℕ} :
    frameName stem number = frameName stem other ↔ number = other := by
  refine ⟨fun h => ?_, fun h => h ▸ rfl⟩
  rw [← String.toList_inj, toList_frameName, toList_frameName, List.append_cancel_right_eq,
    List.append_cancel_left_eq, numberPart, numberPart, List.append_cancel_left_eq] at h
  rw [← ofDigitChars_padded 4 number, h, ofDigitChars_padded]

theorem slash_notMem_padded (width number : ℕ) : '/' ∉ (padded width number).toList := by
  rw [padded, String.toList_ofList, List.mem_append, not_or]
  refine ⟨fun hzero => absurd (List.eq_of_mem_replicate hzero) (by decide), fun hdigit => ?_⟩
  exact absurd (Nat.isDigit_of_mem_toDigits (by decide) (by decide) hdigit) (by decide)

theorem slash_notMem_frameName (hstem : '/' ∉ stem.toList) (number : ℕ) :
    '/' ∉ (frameName stem number).toList := by
  rw [toList_frameName, numberPart]
  simp [hstem, slash_notMem_padded]

/-- The path of a frame has the frame's name. -/
theorem fileName?_framePath (e : Exporter) (hstem : '/' ∉ e.stem.toList) (number : ℕ) :
    Path.fileName? (e.framePath number) = some (frameName e.stem number) := by
  have hlast : (frameName e.stem number).toList.getLast? = some 'g' := by
    rw [toList_frameName, List.getLast?_append]
    rfl
  exact Path.fileName?_join_of_getLast? e.directory (slash_notMem_frameName hstem number) hlast
    (by decide)

/-- Every frame is saved in one format. -/
theorem fileExtension?_framePath (e : Exporter) (hstem : '/' ∉ e.stem.toList) (number : ℕ) :
    Path.fileExtension? (e.framePath number) = some "png" := by
  have hcut : Path.cutAtDot (frameName e.stem number).toList =
      some (e.stem.toList ++ numberPart number, ['p', 'n', 'g']) := by
    rw [toList_frameName]
    exact Path.cutAtDot_append (by simp [numberPart]) (by decide)
  rw [Path.fileExtension?, fileName?_framePath e hstem, Option.bind_some, hcut]
  rfl

end Exporter

end Bytescope
