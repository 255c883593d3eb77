import Bytescope.Text.Blank
import Mathlib.Data.List.Basic
import Mathlib.Data.List.DropRight

/-!
# Texts between blanks and separators

Trimming takes away exactly the blank characters around a text, and the pieces of a text are free
of the separator.

## Main definitions

* `Text.Blank`: a text of blank characters.
* `Text.Around`: a text between blank ones.

## Main results

* `Text.around_trim`, `Text.Around.trim_eq`: what trimming leaves, and that it does not depend on
  the blanks around it.
* `Text.not_mem_of_mem_splitOn`: pieces have no separator in them.
-/

namespace Bytescope.Text

/-- A text of blank characters. -/
def Blank (cs : List Char) : Prop := ∀ c ∈ cs, isBlank c = true

/-- The text `cs` consists of `core` and blank characters before and after it. -/
def Around (core cs : List Char) : Prop :=
  ∃ left right, Blank left ∧ Blank right ∧ cs = left ++ core ++ right

variable {core cs : List Char}

theorem blank_takeWhile (cs : List Char) : Blank (cs.takeWhile isBlank) :=
  fun _ hc => List.mem_takeWhile_imp hc

theorem Blank.reverse (h : Blank cs) : Blank cs.reverse := fun c hc => h c (List.mem_reverse.mp hc)

/-- Nothing is left of a blank text, and of no other. -/
theorem trim_eq_nil_iff : trim cs = [] ↔ Blank cs := by
  rw [trim, trimRight, List.reverse_eq_nil_iff, List.dropWhile_eq_nil_iff]
  constructor
  · intro h c hc
    rw [← List.takeWhile_append_dropWhile (p := isBlank) (l := cs), List.mem_append] at hc
    rcases hc with hc | hc
    · exact blank_takeWhile cs c hc
    · exact h c (List.mem_reverse.mpr hc)
  · intro h c hc
    rw [List.dropWhile_eq_nil_iff.mpr h] at hc
    cases hc

theorem trimRight_append {right : List Char} (h : Blank right) (cs : List Char) :
    trimRight (cs ++ right) = trimRight cs := by
  rw [trimRight, List.reverse_append, List.dropWhile_append_of_pos h.reverse, trimRight]

theorem around_self (core : List Char) : Around core core := ⟨[], [], nofun, nofun, by simp⟩

/-- What trimming leaves stood between blanks. -/
theorem around_trim (cs : List Char) : Around (trim cs) cs := by
  refine ⟨cs.takeWhile isBlank, ((cs.dropWhile isBlank).reverse.takeWhile isBlank).reverse,
    blank_takeWhile cs, (blank_takeWhile _).reverse, ?_⟩
  rw [trim, trimRight, List.append_assoc, ← List.reverse_append, List.takeWhile_append_dropWhile,
    List.reverse_reverse, List.takeWhile_append_dropWhile]

/-- Trimming does not see the blanks around a text. -/
theorem Around.trim_eq (h : Around core cs) : trim cs = trim core := by
  obtain ⟨left, right, hleft, hright, rfl⟩ := h
  rw [trim, List.append_assoc, List.dropWhile_append_of_pos hleft, List.dropWhile_append, trim]
  split
  next hnone =>
    rw [List.dropWhile_eq_nil_iff.mpr hright, List.isEmpty_iff.mp hnone]
  next => exact trimRight_append hright _

/-- A text without blank characters is left as it is. -/
theorem trim_eq_self (h : ∀ c ∈ core, isBlank c = false) : trim core = core := by
  obtain ⟨left, right, hleft, hright, hcore⟩ := around_trim core
  have hnone {side : List Char} (hside : Blank side) (hsub : ∀ c ∈ side, c ∈ core) :
      side = [] :=
    List.eq_nil_iff_forall_not_mem.mpr fun c hc => by
      have hblank := hside c hc
      rw [h c (hsub c hc)] at hblank
      cases hblank
  have hl : left = [] := hnone hleft fun c hc => by
    rw [hcore]
    simp [hc]
  have hr : right = [] := hnone hright fun c hc => by
    rw [hcore]
    simp [hc]
  rw [hl, hr, List.nil_append, List.append_nil] at hcore
  exact hcore.symm

theorem forall_isBlank_eq_false (h : cs.any isBlank = false) : ∀ c ∈ cs, isBlank c = false :=
  fun c hc => Bool.eq_false_iff.mpr (List.any_eq_false.mp h c hc)

/-- For a text without blank characters it is the same whether it stands between blanks or is what
trimming leaves. -/
theorem around_iff_of_not_blank (h : ∀ c ∈ core, isBlank c = false) :
    Around core cs ↔ trim cs = core := by
  constructor
  · intro haround
    rw [haround.trim_eq, trim_eq_self h]
  · rintro rfl
    exact around_trim cs

/-! ### Pieces -/

/-- The pieces of a text have no separator in them. -/
theorem not_mem_of_mem_splitOn {separator : Char} {text piece : List Char}
    (h : piece ∈ text.splitOn separator) : separator ∉ piece := by
  induction text generalizing piece with
  | nil =>
    rw [List.mem_singleton.mp h]
    exact List.not_mem_nil
  | cons c rest ih =>
    rw [List.splitOn_cons_eq_if_modifyHead] at h
    split at h
    next =>
      rcases List.mem_cons.mp h with rfl | hrest
      · exact List.not_mem_nil
      · exact ih hrest
    next hc =>
      obtain ⟨first, others, hsplit⟩ :=
        List.exists_cons_of_ne_nil (List.splitOn_ne_nil separator rest)
      rw [hsplit] at h ih
      rw [List.modifyHead_cons, List.mem_cons] at h
      rcases h with rfl | hothers
      · rw [List.mem_cons, not_or]
        exact ⟨fun heq => hc (beq_iff_eq.mpr heq.symm), ih List.mem_cons_self⟩
      · exact ih (List.mem_cons_of_mem _ hothers)

end Bytescope.Text
