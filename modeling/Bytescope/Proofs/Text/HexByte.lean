import Bytescope.Proofs.Text.Blank
import Bytescope.Text.HexByte

/-!
# Bytes in writing

A written byte is one or two hexadecimal digits, in either case, after at most one radix mark and
between blanks. The reader accepts these and gives their value. It also accepts a plus sign in
front of a single digit, and nothing else.

## Main definitions

* `Text.IsDigit`, `Text.Spells`: digits and bytes, by their values.
* `Text.SpellsSigned`: bytes that may have a plus sign.
* `Text.Writes`: the tokens of such bytes.
* `Text.tokenFault`: what is wrong with any other token.

## Main results

* `Text.readHexByte_eq_ok_iff`, `Text.readHexByte_eq_error_iff`: the tokens that are read, with
  their values, and those that are not.
-/

namespace Bytescope.Text

/-- The character is a hexadecimal digit of this value, in either case. -/
def IsDigit (c : Char) (value : ℕ) : Prop :=
  value < 16 ∧ (c = value.digitChar ∨ c = value.digitChar.toUpper)
  deriving Decidable

/-- One or two hexadecimal digits, with the byte that they are. -/
inductive Spells : List Char → UInt8 → Prop
  | one {c : Char} {value : ℕ} (hc : IsDigit c value) : Spells [c] (UInt8.ofNat value)
  | two {c d : Char} {high low : ℕ} (hc : IsDigit c high) (hd : IsDigit d low) :
      Spells [c, d] (UInt8.ofNat (16 * high + low))

/-- Digits of a byte, or a plus sign in front of one digit. -/
inductive SpellsSigned : List Char → UInt8 → Prop
  | plain {word : List Char} {byte : UInt8} (h : Spells word byte) : SpellsSigned word byte
  | plus {c : Char} {byte : UInt8} (h : Spells [c] byte) : SpellsSigned ['+', c] byte

/-- What may stand in front of the digits. -/
def radixMarks : List (List Char) := [[], ['0', 'x'], ['0', 'X']]

/-- The token writes a byte: after at most one mark and between blanks stands a word that spells
it. -/
def Writes (spells : List Char → UInt8 → Prop) (token : List Char) (byte : UInt8) : Prop :=
  ∃ mark ∈ radixMarks, ∃ word, spells word byte ∧ Around (mark ++ word) token

/-- What is wrong with a token that writes no byte. Without blanks and mark it has one or two bytes
that are no digits, or another number of bytes. -/
def tokenFault (token : List Char) : TokenFault :=
  if utf8Length (dropRadixMark (trim token)) ∈ [1, 2] then .notHexadecimal else .digitCount

variable {c : Char} {value : ℕ} {mark word token : List Char} {byte : UInt8}

/-! ### Digits -/

/-- What holds of the sixteen digits in either case holds of every digit. -/
theorem IsDigit.elim {P : Char → ℕ → Prop} (h : IsDigit c value)
    (hlower : ∀ n < 16, P n.digitChar n) (hupper : ∀ n < 16, P n.digitChar.toUpper n) :
    P c value := by
  obtain ⟨hvalue, rfl | rfl⟩ := h
  · exact hlower value hvalue
  · exact hupper value hvalue

/-- Only characters of the first half of the byte range are read as digits. -/
theorem toNat_lt_of_hexDigit? (h : hexDigit? c = some value) : c.toNat < 128 := by
  have hle {d : Char} (hd : d.toNat < 128) (hcd : c ≤ d) : c.toNat < 128 :=
    Nat.lt_of_le_of_lt (UInt32.le_iff_toNat_le.mp hcd) hd
  rw [hexDigit?] at h
  split at h
  next hc => exact hle (by decide) hc.2
  next =>
    split at h
    next hc => exact hle (by decide) hc.2
    next =>
      split at h
      next hc => exact hle (by decide) hc.2
      next => cases h

theorem hexDigit?_eq_some_iff : hexDigit? c = some value ↔ IsDigit c value := by
  constructor
  · intro h
    have hall : ∀ n < 128, ∀ v ∈ hexDigit? (Char.ofNat n), IsDigit (Char.ofNat n) v := by decide
    have hc := hall c.toNat (toNat_lt_of_hexDigit? h)
    rw [c.ofNat_toNat] at hc
    exact hc value h
  · intro h
    exact h.elim (P := fun c n => hexDigit? c = some n) (by decide) (by decide)

theorem IsDigit.isBlank_eq_false (h : IsDigit c value) : isBlank c = false :=
  h.elim (P := fun c _ => isBlank c = false) (by decide) (by decide)

theorem IsDigit.utf8Size_eq (h : IsDigit c value) : c.utf8Size = 1 :=
  h.elim (P := fun c _ => c.utf8Size = 1) (by decide) (by decide)

/-- Neither a plus sign nor the letter of a radix mark is a digit. -/
theorem IsDigit.ne (h : IsDigit c value) : c ≠ '+' ∧ c ≠ 'x' ∧ c ≠ 'X' :=
  h.elim (P := fun c _ => c ≠ '+' ∧ c ≠ 'x' ∧ c ≠ 'X') (by decide) (by decide)

/-! ### Words -/

theorem spells_singleton_iff :
    Spells [c] byte ↔ ∃ value, IsDigit c value ∧ UInt8.ofNat value = byte := by
  constructor
  · rintro ⟨hc⟩
    exact ⟨_, hc, rfl⟩
  · rintro ⟨value, hc, rfl⟩
    exact .one hc

theorem map_hexDigit?_eq_some_iff :
    (hexDigit? c).map UInt8.ofNat = some byte ↔ Spells [c] byte := by
  rw [spells_singleton_iff, Option.map_eq_some_iff]
  simp only [hexDigit?_eq_some_iff]

/-- **The words that are read.** They are the digits of a byte, or a plus sign with one digit. -/
theorem hexValue?_eq_some_iff : hexValue? word = some byte ↔ SpellsSigned word byte := by
  constructor
  · intro h
    match word with
    | [] => cases h
    | [c] => exact .plain (map_hexDigit?_eq_some_iff.mp h)
    | [high, low] =>
      by_cases hplus : high = '+'
      · rw [hexValue?, if_pos hplus] at h
        rw [hplus]
        exact .plus (map_hexDigit?_eq_some_iff.mp h)
      · rw [hexValue?, if_neg hplus] at h
        simp only [bind, Option.bind_eq_some_iff, pure, Option.some.injEq] at h
        obtain ⟨m, hm, n, hn, rfl⟩ := h
        exact .plain (.two (hexDigit?_eq_some_iff.mp hm) (hexDigit?_eq_some_iff.mp hn))
    | _ :: _ :: _ :: _ => cases h
  · intro h
    cases h with
    | plus h =>
      rw [hexValue?, if_pos rfl]
      exact map_hexDigit?_eq_some_iff.mpr h
    | plain h =>
      cases h with
      | one hc => exact map_hexDigit?_eq_some_iff.mpr (.one hc)
      | two hc hd =>
        rw [hexValue?, if_neg hc.ne.1, hexDigit?_eq_some_iff.mpr hc, hexDigit?_eq_some_iff.mpr hd]
        rfl

/-- What holds of digits and of the plus sign holds of every character of a word. -/
theorem SpellsSigned.forall_mem {P : Char → Prop} (h : SpellsSigned word byte)
    (hdigit : ∀ c value, IsDigit c value → P c) (hplus : P '+') : ∀ c ∈ word, P c := by
  cases h with
  | plain h =>
    cases h with
    | one hc => exact List.forall_mem_singleton.mpr (hdigit _ _ hc)
    | two hc hd =>
      rw [List.forall_mem_cons, List.forall_mem_singleton]
      exact ⟨hdigit _ _ hc, hdigit _ _ hd⟩
  | plus h =>
    obtain ⟨hc⟩ := h
    rw [List.forall_mem_cons, List.forall_mem_singleton]
    exact ⟨hplus, hdigit _ _ hc⟩

theorem utf8Length_eq_length (h : ∀ c ∈ word, c.utf8Size = 1) :
    utf8Length word = word.length := by
  induction word with
  | nil => rfl
  | cons c rest ih =>
    rw [List.forall_mem_cons] at h
    rw [utf8Length, h.1, ih h.2, List.length_cons, Nat.add_comm]

/-- A word that is read has one or two bytes. -/
theorem SpellsSigned.utf8Length (h : SpellsSigned word byte) :
    utf8Length word = 1 ∨ utf8Length word = 2 := by
  rw [utf8Length_eq_length (h.forall_mem (fun c _ hc => hc.utf8Size_eq) (by decide))]
  cases h with
  | plain h =>
    cases h with
    | one => exact Or.inl rfl
    | two => exact Or.inr rfl
  | plus => exact Or.inr rfl

/-! ### Tokens -/

theorem exists_mark_append (cs : List Char) :
    ∃ mark ∈ radixMarks, cs = mark ++ dropRadixMark cs := by
  rw [dropRadixMark.eq_def]
  split
  next rest => exact ⟨['0', 'x'], by simp [radixMarks], rfl⟩
  next rest => exact ⟨['0', 'X'], by simp [radixMarks], rfl⟩
  next => exact ⟨[], by simp [radixMarks], rfl⟩

/-- A word does not begin with a radix mark, so only the mark is left out. -/
theorem SpellsSigned.dropRadixMark_append (h : SpellsSigned word byte) (hmark : mark ∈ radixMarks) :
    dropRadixMark (mark ++ word) = word := by
  simp only [radixMarks, List.mem_cons, List.not_mem_nil, or_false] at hmark
  rcases hmark with rfl | rfl | rfl
  · cases h with
    | plain h =>
      cases h with
      | one hc => rw [List.nil_append, dropRadixMark] <;> simp
      | two hc hd =>
        obtain ⟨-, hx, hX⟩ := hd.ne
        rw [List.nil_append, dropRadixMark]
        · simp [hx]
        · simp [hX]
    | plus h => rw [List.nil_append, dropRadixMark] <;> simp
  · rfl
  · rfl

theorem isBlank_eq_false_of_mem_mark (h : mark ∈ radixMarks) : ∀ c ∈ mark, isBlank c = false :=
  forall_isBlank_eq_false ((by decide : ∀ mark ∈ radixMarks, mark.any isBlank = false) mark h)

/-- The word of a token is what is left of it without blanks and without a mark. -/
theorem writes_iff {spells : List Char → UInt8 → Prop}
    (hspells : ∀ word byte, spells word byte → SpellsSigned word byte) :
    Writes spells token byte ↔ spells (dropRadixMark (trim token)) byte := by
  constructor
  · rintro ⟨mark, hmark, word, hword, haround⟩
    have hsigned := hspells word byte hword
    have hplain : ∀ c ∈ mark ++ word, isBlank c = false :=
      List.forall_mem_append.mpr ⟨isBlank_eq_false_of_mem_mark hmark,
        hsigned.forall_mem (fun c _ hc => hc.isBlank_eq_false) (by decide)⟩
    rw [(around_iff_of_not_blank hplain).mp haround, hsigned.dropRadixMark_append hmark]
    exact hword
  · intro h
    obtain ⟨mark, hmark, hsplit⟩ := exists_mark_append (trim token)
    exact ⟨mark, hmark, _, h, hsplit ▸ around_trim token⟩

/-- **The tokens that are read.** Between blanks and after at most one mark there is a word that
spells the byte, possibly with a plus sign. -/
theorem readHexByte_eq_ok_iff :
    readHexByte token = .ok byte ↔ Writes SpellsSigned token byte := by
  rw [writes_iff fun _ _ => id, ← hexValue?_eq_some_iff, readHexByte]
  constructor
  · intro h
    split at h
    next => cases h
    next =>
      split at h
      next found hfound => rw [hfound, Except.ok.inj h]
      next => cases h
  · intro h
    have hlength := (hexValue?_eq_some_iff.mp h).utf8Length
    rw [if_neg (by omega), h]

theorem readHexByte_eq_error_iff {fault : TokenFault} : readHexByte token = .error fault ↔
    (∀ byte, ¬ Writes SpellsSigned token byte) ∧ fault = tokenFault token := by
  simp only [← readHexByte_eq_ok_iff]
  rw [readHexByte, tokenFault]
  by_cases hlength : utf8Length (dropRadixMark (trim token)) ∈ [1, 2]
  · have hlength' : ¬ (utf8Length (dropRadixMark (trim token)) = 0 ∨
        2 < utf8Length (dropRadixMark (trim token))) := by
      simp only [List.mem_cons, List.not_mem_nil, or_false] at hlength
      omega
    rw [if_pos hlength, if_neg hlength']
    cases hexValue? (dropRadixMark (trim token)) <;> simp [eq_comm]
  · have hlength' : utf8Length (dropRadixMark (trim token)) = 0 ∨
        2 < utf8Length (dropRadixMark (trim token)) := by
      simp only [List.mem_cons, List.not_mem_nil, or_false] at hlength
      omega
    rw [if_neg hlength, if_pos hlength']
    simp [eq_comm]

/-- A byte with digits only is also one that may have a plus sign. -/
theorem Writes.signed (h : Writes Spells token byte) : Writes SpellsSigned token byte := by
  obtain ⟨mark, hmark, word, hword, haround⟩ := h
  exact ⟨mark, hmark, word, .plain hword, haround⟩

end Bytescope.Text
