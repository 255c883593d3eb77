import Bytescope.Pattern.Specification
import Bytescope.Proofs.Text.Blank
import Mathlib.Data.List.Basic

/-!
# Arguments of a specification

A specification is put together from pieces with colons between them. Blank pieces give no
argument, and what the other pieces give does not depend on the pieces around them.

## Main definitions

* `Specification.argumentsOf`: the arguments that pieces give.
* `Specification.Idle`: an argument that begins no entry and gives none its options.

## Main results

* `Specification.arguments_join`: the arguments of a text are those of the pieces that it was put
  together from.
* `Specification.readFrom_value`, `Specification.readFrom_options`,
  `Specification.readFrom_idle`: what one argument does.
-/

namespace Bytescope.Specification

/-- Pieces with colons between them. -/
def join (pieces : List (List Char)) : List Char := [':'].intercalate pieces

/-- The arguments that pieces give. -/
def argumentsOf (pieces : List (List Char)) : List Argument :=
  (pieces.filter fun piece => !(Text.trim piece).isEmpty).map Argument.ofText

theorem arguments_eq (text : List Char) : arguments text = argumentsOf (text.splitOn ':') := rfl

theorem argumentsOf_append (front back : List (List Char)) :
    argumentsOf (front ++ back) = argumentsOf front ++ argumentsOf back := by
  rw [argumentsOf, List.filter_append, List.map_append]
  rfl

/-- A blank piece gives no argument, any other gives one. -/
theorem argumentsOf_cons (piece : List Char) (rest : List (List Char)) :
    (Text.Blank piece ∧ argumentsOf (piece :: rest) = argumentsOf rest) ∨
      (¬ Text.Blank piece ∧
        argumentsOf (piece :: rest) = Argument.ofText piece :: argumentsOf rest) := by
  rw [← Text.trim_eq_nil_iff, argumentsOf, argumentsOf]
  by_cases h : Text.trim piece = []
  · exact Or.inl ⟨h, by simp [h]⟩
  · exact Or.inr ⟨h, by simp [h]⟩

/-! ### Pieces of a text -/

/-- The arguments of a text are those of the pieces that it was put together from. -/
theorem arguments_join {pieces : List (List Char)} (h : ∀ piece ∈ pieces, ':' ∉ piece) :
    arguments (join pieces) = argumentsOf pieces := by
  rw [arguments_eq, join]
  by_cases hnone : pieces = []
  · subst hnone
    rfl
  · rw [List.splitOn_intercalate ':' h hnone]

/-- Two texts with a colon between them have the arguments of both. -/
theorem arguments_append (front back : List Char) :
    arguments (front ++ ':' :: back) = arguments front ++ arguments back := by
  rw [arguments_eq, List.splitOn_append_cons_self, argumentsOf_append]
  rfl

/-! ### One argument -/

variable {index : ℕ} {pending : Option (Except Error PatternEntry)} {argument : Argument}
  {rest : List Argument}

/-- The argument begins no entry, and it gives none its options. -/
def Idle (pending : Bool) (argument : Argument) : Prop :=
  argument.key ≠ valueKey ∧ (argument.key = optionKey → pending = false)

theorem readFrom_value (h : argument.key = valueKey) :
    readFrom index pending (argument :: rest) =
      pending.toList ++
        readFrom (index + 1) (some (PatternEntry.read index argument.value)) rest := by
  rw [readFrom.eq_def]
  exact if_pos h

theorem optionKey_ne_valueKey : optionKey ≠ valueKey := by decide

theorem readFrom_options {entry : Except Error PatternEntry} (h : argument.key = optionKey) :
    readFrom index (some entry) (argument :: rest) =
      entry.bind (·.withOptions argument.value) :: readFrom index none rest := by
  rw [readFrom, if_neg (h ▸ optionKey_ne_valueKey), if_pos h]
  rfl

theorem readFrom_idle (h : Idle pending.isSome argument) :
    readFrom index pending (argument :: rest) = readFrom index pending rest := by
  cases pending with
  | none => rw [readFrom, if_neg h.1]
  | some entry => rw [readFrom, if_neg h.1, if_neg fun hkey => nomatch h.2 hkey]

end Bytescope.Specification
