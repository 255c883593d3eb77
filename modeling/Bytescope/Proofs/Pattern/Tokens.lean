import Bytescope.Pattern.Specification
import Bytescope.Proofs.Text.HexByte
import Mathlib.Data.List.Forall2

/-!
# Tokens of a pattern text

The values of `val` and `opt` are tokens with commas between them. Which of them are read, and
which one a refusal names, depends on each token by itself: the first one that cannot be read is
named, as it was written.

## Main definitions

* `stateWord`, `eventWord`, `SetsFlags`: flag words and what they set.

## Main results

* `mapM_eq_ok_iff`, `mapM_eq_error_iff`: reading one thing after the other.
* `readOptions_eq_ok_iff`: the options that are read.
* `byteTokens_read_iff`: the byte tokens that are read, and the refusal of all others.
-/

namespace Bytescope

/-! ### One thing after the other -/

section Sequence

variable {ε α β : Type} {f : α → Except ε β} {l : List α}

theorem mapM_eq_ok_iff {r : List β} :
    l.mapM f = .ok r ↔ List.Forall₂ (fun a b => f a = .ok b) l r := by
  induction l generalizing r with
  | nil => cases r <;> simp [pure, Except.pure]
  | cons a rest ih =>
    rw [List.mapM_cons]
    cases hfirst : f a with
    | error e => cases r <;> simp [bind, Except.bind, hfirst]
    | ok b =>
      cases hrest : rest.mapM f with
      | error e => cases r <;> simp [bind, Except.bind, ← ih, hrest]
      | ok bs => cases r <;> simp [bind, Except.bind, pure, Except.pure, ← ih, hrest, hfirst]

/-- It is refused if one thing is, with the error of the first of these. -/
theorem mapM_eq_error_iff {e : ε} :
    l.mapM f = .error e ↔ ∃ before a after, l = before ++ a :: after ∧
      (∀ x ∈ before, ∃ b, f x = .ok b) ∧ f a = .error e := by
  induction l with
  | nil => simp [pure, Except.pure]
  | cons a rest ih =>
    rw [List.mapM_cons]
    constructor
    · intro h
      cases hfirst : f a with
      | error e' =>
        rw [hfirst] at h
        obtain rfl : e' = e := Except.error.inj h
        exact ⟨[], a, rest, rfl, nofun, hfirst⟩
      | ok b =>
        rw [hfirst] at h
        cases hrest : rest.mapM f with
        | ok bs =>
          rw [hrest] at h
          cases h
        | error e' =>
          rw [hrest] at h
          obtain rfl : e' = e := Except.error.inj h
          obtain ⟨before, x, after, hsplit, hbefore, hx⟩ := ih.mp hrest
          exact ⟨a :: before, x, after, by rw [hsplit]; rfl,
            List.forall_mem_cons.mpr ⟨⟨b, hfirst⟩, hbefore⟩, hx⟩
    · rintro ⟨before, x, after, hsplit, hbefore, hx⟩
      cases before with
      | nil =>
        obtain ⟨rfl, rfl⟩ := List.cons.inj hsplit
        rw [hx]
        rfl
      | cons y before =>
        obtain ⟨rfl, rfl⟩ := List.cons.inj hsplit
        obtain ⟨⟨b, hb⟩, hbefore⟩ := List.forall_mem_cons.mp hbefore
        rw [hb, ih.mpr ⟨before, x, after, rfl, hbefore, hx⟩]
        rfl

end Sequence

open Text (Around Writes Spells SpellsSigned trim)

variable {entry : ℕ} {token : List Char}

/-! ### Byte tokens -/

theorem readByteToken_eq_ok_iff {byte : UInt8} :
    readByteToken entry token = .ok byte ↔ Writes SpellsSigned token byte := by
  rw [← Text.readHexByte_eq_ok_iff, readByteToken]
  cases Text.readHexByte token <;> simp [Except.mapError]

/-- A token that cannot be read is named in full. -/
theorem readByteToken_eq_error_iff {e : Error} : readByteToken entry token = .error e ↔
    (∀ byte, ¬ Writes SpellsSigned token byte) ∧
      e = .malformedPattern entry (String.ofList token) (Text.tokenFault token) := by
  rw [readByteToken]
  cases hread : Text.readHexByte token with
  | ok byte =>
    refine ⟨nofun, fun h => absurd (Text.readHexByte_eq_ok_iff.mp hread) (h.1 byte)⟩
  | error fault =>
    obtain ⟨hnone, rfl⟩ := Text.readHexByte_eq_error_iff.mp hread
    simp [Except.mapError, hnone, eq_comm]

/-! ### Flag words -/

/-- The word for occurrences whose opacity stays. -/
def stateWord : List Char := ['s', 't', 'a', 't', 'e']

/-- The word for occurrences that are counted. -/
def eventWord : List Char := ['e', 'v', 'e', 'n', 't']

/-- The words are flag words, and these are the flags that they stand for. -/
structure SetsFlags (words : List (List Char)) (flags : PatternFlags) : Prop where
  known : ∀ word ∈ words, Around stateWord word ∨ Around eventWord word
  persist_iff : flags.persist = true ↔ ∃ word ∈ words, Around stateWord word
  event_iff : flags.event = true ↔ ∃ word ∈ words, Around eventWord word

theorem around_stateWord_iff {word : List Char} :
    Around stateWord word ↔ String.ofList (trim word) = "state" := by
  rw [Text.around_iff_of_not_blank (Text.forall_isBlank_eq_false (by decide)),
    ← String.toList_inj, String.toList_ofList]
  rfl

theorem around_eventWord_iff {word : List Char} :
    Around eventWord word ↔ String.ofList (trim word) = "event" := by
  rw [Text.around_iff_of_not_blank (Text.forall_isBlank_eq_false (by decide)),
    ← String.toList_inj, String.toList_ofList]
  rfl

variable {word : List Char} {words : List (List Char)} {flags out : PatternFlags}

/-- No word is both flag words. -/
theorem not_around_eventWord (h : Around stateWord word) : ¬ Around eventWord word := by
  rw [around_eventWord_iff, around_stateWord_iff.mp h]
  decide

theorem readFlag_of_state (h : Around stateWord word) :
    readFlag entry flags word = .ok { flags with persist := true } := by
  rw [readFlag, if_pos (around_stateWord_iff.mp h)]

theorem readFlag_of_event (h : Around eventWord word) :
    readFlag entry flags word = .ok { flags with event := true } := by
  have hword := around_eventWord_iff.mp h
  rw [readFlag, if_neg (by rw [hword]; decide), if_pos hword]

theorem readFlag_of_unknown (hstate : ¬ Around stateWord word) (hevent : ¬ Around eventWord word) :
    readFlag entry flags word =
      .error (.malformedPattern entry (String.ofList (trim word)) .unknownFlag) := by
  rw [readFlag, if_neg (around_stateWord_iff.not.mp hstate),
    if_neg (around_eventWord_iff.not.mp hevent)]

theorem foldlM_readFlag_eq_ok_iff : words.foldlM (readFlag entry) flags = .ok out ↔
    (∀ word ∈ words, Around stateWord word ∨ Around eventWord word) ∧
      (out.persist = true ↔ flags.persist = true ∨ ∃ word ∈ words, Around stateWord word) ∧
      (out.event = true ↔ flags.event = true ∨ ∃ word ∈ words, Around eventWord word) := by
  induction words generalizing flags with
  | nil =>
    obtain ⟨persist, event⟩ := flags
    obtain ⟨persist', event'⟩ := out
    simp [pure, Except.pure, eq_comm]
  | cons word rest ih =>
    rw [List.foldlM_cons]
    by_cases hstate : Around stateWord word
    · rw [readFlag_of_state hstate]
      refine ih.trans ?_
      simp [hstate, not_around_eventWord hstate]
    · by_cases hevent : Around eventWord word
      · rw [readFlag_of_event hevent]
        refine ih.trans ?_
        simp [hstate, hevent]
      · rw [readFlag_of_unknown hstate hevent]
        simp [hstate, hevent, bind, Except.bind]

/-- The words that set flags are read, and no others are. -/
theorem setsFlags_iff (entry : ℕ) :
    SetsFlags words flags ↔ words.foldlM (readFlag entry) ⟨false, false⟩ = .ok flags := by
  rw [foldlM_readFlag_eq_ok_iff]
  simp only [Bool.false_eq_true, false_or]
  exact ⟨fun ⟨hknown, hpersist, hevent⟩ => ⟨hknown, hpersist, hevent⟩,
    fun ⟨hknown, hpersist, hevent⟩ => ⟨hknown, hpersist, hevent⟩⟩

/-! ### Options -/

variable {text : List Char}

theorem exists_splitOn_eq_cons (separator : Char) (text : List Char) :
    ∃ token words, text.splitOn separator = token :: words :=
  List.exists_cons_of_ne_nil (List.splitOn_ne_nil separator text)

/-- Options are an opacity and then flags. -/
theorem readOptions_eq (h : text.splitOn ',' = token :: words) :
    readOptions entry text = (readByteToken entry token).bind fun alpha =>
      (words.foldlM (readFlag entry) ⟨false, false⟩).map fun flags => (alpha, flags) := by
  rw [readOptions, h]
  change (readByteToken entry token).bind _ = _
  congr

/-- **The options that are read** are an opacity, which is a byte token, and flag words. -/
theorem readOptions_eq_ok_iff {alpha : UInt8} (h : text.splitOn ',' = token :: words) :
    readOptions entry text = .ok (alpha, flags) ↔
      Writes SpellsSigned token alpha ∧ SetsFlags words flags := by
  rw [readOptions_eq h, ← @readByteToken_eq_ok_iff entry, setsFlags_iff entry]
  cases readByteToken entry token with
  | error e => simp [Except.bind]
  | ok byte =>
    cases words.foldlM (readFlag entry) ⟨false, false⟩ <;> simp [Except.bind, Except.map]

/-- An opacity that is no byte token is named. -/
theorem readOptions_eq_error (h : text.splitOn ',' = token :: words)
    (hnone : ∀ byte, ¬ Writes SpellsSigned token byte) : readOptions entry text =
      .error (.malformedPattern entry (String.ofList token) (Text.tokenFault token)) := by
  rw [readOptions_eq h, readByteToken_eq_error_iff.mpr ⟨hnone, rfl⟩]
  rfl

/-! ### Entries -/

theorem PatternEntry.read_eq {index : ℕ} (h : index ≤ bucketLimit) (value : List Char) :
    PatternEntry.read index value = (readByteTokens index value).map fun bytes =>
      ⟨index, bytes, defaultPatternAlpha, ⟨false, true⟩⟩ := by
  rw [PatternEntry.read]
  cases readByteTokens index value with
  | error e => rfl
  | ok bytes => exact if_neg (Nat.not_lt.mpr h)

theorem PatternEntry.withOptions_eq (entry : PatternEntry) (value : List Char) :
    entry.withOptions value = (readOptions entry.id value).map fun options =>
      { entry with alpha := options.1, flags := options.2 } := by
  rw [withOptions]
  cases readOptions entry.id value <;> rfl

/-! ### Byte tokens of a text -/

/-- **The byte tokens that are read.** Bytes are read from a text exactly if each of its tokens,
between commas, writes one of them: between blanks, and after at most one radix mark, stand one or
two hexadecimal digits, or a plus sign and one digit. Otherwise the entry is refused, and with it
is named the first token that is none of these, as it was written. The opacity of options is such
a token, and is named in the same way. -/
theorem byteTokens_read_iff (entry : ℕ) (text : List Char) :
    (∀ bytes, readByteTokens entry text = .ok bytes ↔
      List.Forall₂ (Writes SpellsSigned) (text.splitOn ',') bytes) ∧
    (∀ e, readByteTokens entry text = .error e ↔
      ∃ before token after, text.splitOn ',' = before ++ token :: after ∧
        (∀ earlier ∈ before, ∃ byte, Writes SpellsSigned earlier byte) ∧
        (∀ byte, ¬ Writes SpellsSigned token byte) ∧
        e = .malformedPattern entry (String.ofList token) (Text.tokenFault token)) ∧
    ∃ token words, text.splitOn ',' = token :: words ∧
      (∀ alpha flags, readOptions entry text = .ok (alpha, flags) ↔
        Writes SpellsSigned token alpha ∧ SetsFlags words flags) ∧
      ((∀ byte, ¬ Writes SpellsSigned token byte) → readOptions entry text =
        .error (.malformedPattern entry (String.ofList token) (Text.tokenFault token))) := by
  refine ⟨fun bytes => ?_, fun e => ?_, ?_⟩
  · rw [readByteTokens, mapM_eq_ok_iff]
    simp only [readByteToken_eq_ok_iff]
  · rw [readByteTokens, mapM_eq_error_iff]
    simp only [readByteToken_eq_ok_iff, readByteToken_eq_error_iff]
  · obtain ⟨token, words, hsplit⟩ := exists_splitOn_eq_cons ',' text
    exact ⟨token, words, hsplit, fun _ _ => readOptions_eq_ok_iff hsplit,
      readOptions_eq_error hsplit⟩

/-- A plus sign with a digit is read, although it is not one or two hexadecimal digits. -/
theorem signed_token_is_read : readByteTokens 0 ['+', 'a'] = .ok [10] ∧
    ¬ ∃ bytes, List.Forall₂ (Writes Spells) (['+', 'a'].splitOn ',') bytes := by
  refine ⟨by decide, ?_⟩
  rintro ⟨bytes, h⟩
  have hsplit : ['+', 'a'].splitOn ',' = [['+', 'a']] := by decide
  rw [hsplit, List.forall₂_cons_left_iff] at h
  obtain ⟨byte, -, hwrites, -, -⟩ := h
  have hplus : Spells ['+', 'a'] byte := (Text.writes_iff fun _ _ => .plain).mp hwrites
  cases hplus with
  | two hc hd => exact hc.ne.1 rfl

end Bytescope
