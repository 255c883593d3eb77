import Bytescope.Proofs.Pattern.Isolation

/-!
# Specifications in writing

There are many ways to write an entry: bytes may have a radix mark and be of either case, blanks may
stand around every token and every key, flags may come in any order, and options may be left out if
they are the usual ones. Entries are put together with colons, with blank arguments between them.
Whichever way is chosen, reading gives the entries back.

## Main definitions

* `Bare`: a text without separators.
* `WritesBytes`, `WritesOptions`, `Specification.WritesPieces`, `Specification.Writes`: all the ways
  to write a value, options and entries.
* `PatternEntry.write`, `Specification.write`: one way that is always there.

## Main results

* `readByteTokens_of_writes`, `readOptions_of_writes`: reading what was written.
* `Specification.readFrom_of_writes`: the same for entries, from any position on.
* `Specification.read_written`: the same for texts.
-/

namespace Bytescope

open Text (Around Blank Writes Spells)

variable {cs token value : List Char}

/-! ### Separators -/

/-- The text has none of the characters in it that separate arguments, keys and tokens. -/
def Bare (cs : List Char) : Prop := ∀ c ∈ cs, c ∉ [':', '=', ',']

instance (cs : List Char) : Decidable (Bare cs) := List.decidableBAll _ cs

theorem Bare.append {front back : List Char} (hfront : Bare front) (hback : Bare back) :
    Bare (front ++ back) :=
  List.forall_mem_append.mpr ⟨hfront, hback⟩

theorem bare_of_blank (h : Blank cs) : Bare cs := fun c hc hmem =>
  have hnone : ∀ separator ∈ [':', '=', ','], Text.isBlank separator = false :=
    Text.forall_isBlank_eq_false (by decide)
  Bool.false_ne_true ((hnone c hmem).symm.trans (h c hc))

theorem Bare.around {core : List Char} (h : Bare core) (haround : Around core cs) : Bare cs := by
  obtain ⟨left, right, hleft, hright, rfl⟩ := haround
  exact ((bare_of_blank hleft).append h).append (bare_of_blank hright)

theorem bare_of_spells {byte : UInt8} (h : Spells cs byte) : Bare cs :=
  (Text.SpellsSigned.plain h).forall_mem
    (fun _ _ hc => hc.elim (P := fun c _ => c ∉ [':', '=', ',']) (by decide) (by decide))
    (by decide)

theorem bare_of_writes {byte : UInt8} (h : Writes Spells token byte) : Bare token := by
  obtain ⟨mark, hmark, word, hword, haround⟩ := h
  have hmarks : ∀ mark ∈ Text.radixMarks, Bare mark := by decide
  exact ((hmarks mark hmark).append (bare_of_spells hword)).around haround

theorem bare_of_setsFlags {words : List (List Char)} {flags : PatternFlags}
    (h : SetsFlags words flags) : ∀ word ∈ words, Bare word := by
  intro word hword
  rcases h.known word hword with hstate | hevent
  · exact Bare.around (by decide) hstate
  · exact Bare.around (by decide) hevent

/-! ### Values -/

/-- Tokens with commas between them. -/
def listTokens (tokens : List (List Char)) : List Char := [','].intercalate tokens

theorem splitOn_listTokens {tokens : List (List Char)} (hbare : ∀ token ∈ tokens, Bare token)
    (hne : tokens ≠ []) : (listTokens tokens).splitOn ',' = tokens := by
  have hcomma : ∀ token ∈ tokens, ',' ∉ token := fun token htoken hmem =>
    hbare token htoken ',' hmem (by decide)
  exact List.splitOn_intercalate ',' hcomma hne

/-- Nothing but the tokens and commas is in a list of tokens. -/
theorem colon_notMem_listTokens {tokens : List (List Char)} (hbare : ∀ token ∈ tokens, Bare token) :
    ':' ∉ listTokens tokens := by
  induction tokens with
  | nil => exact List.not_mem_nil
  | cons first rest ih =>
    obtain ⟨hfirst, hrest⟩ := List.forall_mem_cons.mp hbare
    have hcolon : ':' ∉ first := fun hmem => hfirst ':' hmem (by decide)
    cases rest with
    | nil => simpa [listTokens] using hcolon
    | cons second rest =>
      have hlist : listTokens (first :: second :: rest) =
          first ++ ',' :: listTokens (second :: rest) := by
        rw [listTokens, List.intercalate_cons_cons, List.append_assoc]
        rfl
      rw [hlist]
      simp [hcolon, ih hrest]

/-- The value lists tokens that write these bytes. -/
def WritesBytes (value : List Char) (bytes : List UInt8) : Prop :=
  ∃ tokens, tokens ≠ [] ∧ value = listTokens tokens ∧ List.Forall₂ (Writes Spells) tokens bytes

/-- The value lists a token that writes the opacity, and the words of the flags. -/
def WritesOptions (value : List Char) (alpha : UInt8) (flags : PatternFlags) : Prop :=
  ∃ token words, value = listTokens (token :: words) ∧ Writes Spells token alpha ∧
    SetsFlags words flags

variable {bytes : List UInt8} {alpha : UInt8} {flags : PatternFlags}

theorem bare_of_forall₂ {tokens : List (List Char)}
    (h : List.Forall₂ (Writes Spells) tokens bytes) : ∀ token ∈ tokens, Bare token := by
  induction h with
  | nil => exact nofun
  | cons hfirst _ ih => exact List.forall_mem_cons.mpr ⟨bare_of_writes hfirst, ih⟩

theorem WritesBytes.colon_notMem (h : WritesBytes value bytes) : ':' ∉ value := by
  obtain ⟨tokens, -, rfl, htokens⟩ := h
  exact colon_notMem_listTokens (bare_of_forall₂ htokens)

theorem WritesOptions.forall_bare {words : List (List Char)} (htoken : Writes Spells token alpha)
    (hwords : SetsFlags words flags) : ∀ word ∈ token :: words, Bare word :=
  List.forall_mem_cons.mpr ⟨bare_of_writes htoken, bare_of_setsFlags hwords⟩

theorem WritesOptions.colon_notMem (h : WritesOptions value alpha flags) : ':' ∉ value := by
  obtain ⟨token, words, rfl, htoken, hwords⟩ := h
  exact colon_notMem_listTokens (forall_bare htoken hwords)

/-- Bytes are read as they were written. -/
theorem readByteTokens_of_writes (h : WritesBytes value bytes) (entry : ℕ) :
    readByteTokens entry value = .ok bytes := by
  obtain ⟨tokens, hne, rfl, htokens⟩ := h
  rw [readByteTokens, splitOn_listTokens (bare_of_forall₂ htokens) hne, mapM_eq_ok_iff]
  exact htokens.imp fun _ _ hwrites => readByteToken_eq_ok_iff.mpr hwrites.signed

/-- Options are read as they were written. -/
theorem readOptions_of_writes (h : WritesOptions value alpha flags) (entry : ℕ) :
    readOptions entry value = .ok (alpha, flags) := by
  obtain ⟨token, words, rfl, htoken, hwords⟩ := h
  have hsplit := splitOn_listTokens (WritesOptions.forall_bare htoken hwords) (List.cons_ne_nil _ _)
  exact (readOptions_eq_ok_iff hsplit).mpr ⟨htoken.signed, hwords⟩

namespace Specification

/-! ### Arguments -/

/-- The argument is this key, with blanks around it, and this value. -/
def WritesArgument (piece key value : List Char) : Prop :=
  ∃ padded, Around key padded ∧ piece = padded ++ '=' :: value

variable {piece key : List Char} {pieces : List (List Char)}

theorem bare_valueKey : Bare valueKey := by decide

theorem bare_optionKey : Bare optionKey := by decide

/-- An argument is not blank, because of its equals sign. -/
theorem WritesArgument.not_blank (h : WritesArgument piece key value) : ¬ Blank piece := by
  obtain ⟨padded, -, rfl⟩ := h
  exact fun hblank => bare_of_blank hblank '=' (by simp) (by decide)

theorem WritesArgument.colon_notMem (h : WritesArgument piece key value) (hkey : Bare key)
    (hvalue : ':' ∉ value) : ':' ∉ piece := by
  obtain ⟨padded, hpadded, rfl⟩ := h
  have hcolon : ':' ∉ padded := fun hmem => hkey.around hpadded ':' hmem (by decide)
  simp [hcolon, hvalue]

theorem WritesArgument.ofText_eq (h : WritesArgument piece key value) (hkey : Bare key)
    (hplain : ∀ c ∈ key, Text.isBlank c = false) : Argument.ofText piece = ⟨key, value⟩ := by
  obtain ⟨padded, hpadded, rfl⟩ := h
  have hno : ∀ c ∈ padded, decide (c ≠ '=') = true := fun c hc =>
    decide_eq_true fun heq => hkey.around hpadded c hc (by simp [heq])
  rw [Argument.ofText, List.takeWhile_append_of_pos hno, List.dropWhile_append_of_pos hno,
    List.takeWhile_cons_of_neg (by decide), List.dropWhile_cons_of_neg (by decide),
    List.append_nil, (Text.around_iff_of_not_blank hplain).mp hpadded]
  rfl

/-- An argument that was written is read back. -/
theorem WritesArgument.argumentsOf_cons (h : WritesArgument piece key value) (hkey : Bare key)
    (hplain : ∀ c ∈ key, Text.isBlank c = false) :
    argumentsOf (piece :: pieces) = ⟨key, value⟩ :: argumentsOf pieces := by
  rcases Specification.argumentsOf_cons piece pieces with ⟨hblank, -⟩ | ⟨-, hone⟩
  · exact absurd hblank h.not_blank
  · rw [hone, h.ofText_eq hkey hplain]

theorem argumentsOf_of_blank {blanks : List (List Char)} (h : ∀ piece ∈ blanks, Blank piece) :
    argumentsOf blanks = [] := by
  induction blanks with
  | nil => rfl
  | cons piece rest ih =>
    obtain ⟨hpiece, hrest⟩ := List.forall_mem_cons.mp h
    rcases argumentsOf_cons piece rest with ⟨-, hnone⟩ | ⟨hnot, -⟩
    · rw [hnone, ih hrest]
    · exact absurd hpiece hnot

/-! ### Entries -/

/-- The pieces are blank, or are the arguments of these entries. The options of an entry that has
the usual ones may be left out. Identifiers are not written. -/
inductive WritesPieces : List (List Char) → List PatternEntry → Prop
  | nil : WritesPieces [] []
  | blank {piece : List Char} {pieces : List (List Char)} {entries : List PatternEntry}
      (hblank : Blank piece) (hrest : WritesPieces pieces entries) :
      WritesPieces (piece :: pieces) entries
  | plain {piece value : List Char} {pieces : List (List Char)} {bytes : List UInt8}
      {entries : List PatternEntry} (id : ℕ) (hpiece : WritesArgument piece valueKey value)
      (hbytes : WritesBytes value bytes) (hrest : WritesPieces pieces entries) :
      WritesPieces (piece :: pieces) (⟨id, bytes, 0x40, ⟨false, true⟩⟩ :: entries)
  | options {piece value piece' value' : List Char} {blanks pieces : List (List Char)}
      {bytes : List UInt8} {alpha : UInt8} {flags : PatternFlags} {entries : List PatternEntry}
      (id : ℕ) (hpiece : WritesArgument piece valueKey value) (hbytes : WritesBytes value bytes)
      (hblanks : ∀ piece ∈ blanks, Blank piece) (hpiece' : WritesArgument piece' optionKey value')
      (hoptions : WritesOptions value' alpha flags) (hrest : WritesPieces pieces entries) :
      WritesPieces (piece :: (blanks ++ piece' :: pieces)) (⟨id, bytes, alpha, flags⟩ :: entries)

/-- The text is put together from pieces that write the entries. -/
def Writes (text : String) (entries : List PatternEntry) : Prop :=
  ∃ pieces, text.toList = join pieces ∧ WritesPieces pieces entries

variable {entries : List PatternEntry}

theorem colon_notMem_of_blank (h : Blank piece) : ':' ∉ piece := fun hmem =>
  bare_of_blank h ':' hmem (by decide)

theorem WritesPieces.colon_notMem (h : WritesPieces pieces entries) :
    ∀ piece ∈ pieces, ':' ∉ piece := by
  induction h with
  | nil => exact nofun
  | blank hblank _ ih => exact List.forall_mem_cons.mpr ⟨colon_notMem_of_blank hblank, ih⟩
  | plain id hpiece hbytes _ ih =>
    exact List.forall_mem_cons.mpr
      ⟨hpiece.colon_notMem bare_valueKey hbytes.colon_notMem, ih⟩
  | options id hpiece hbytes hblanks hpiece' hoptions _ ih =>
    rw [List.forall_mem_cons, List.forall_mem_append, List.forall_mem_cons]
    exact ⟨hpiece.colon_notMem bare_valueKey hbytes.colon_notMem,
      fun piece hmem => colon_notMem_of_blank (hblanks piece hmem),
      hpiece'.colon_notMem bare_optionKey hoptions.colon_notMem, ih⟩

theorem argumentsOf_value_cons (h : WritesArgument piece valueKey value) :
    argumentsOf (piece :: pieces) = ⟨valueKey, value⟩ :: argumentsOf pieces :=
  h.argumentsOf_cons bare_valueKey (Text.forall_isBlank_eq_false (by decide))

theorem argumentsOf_options_cons {blanks : List (List Char)}
    (hblanks : ∀ piece ∈ blanks, Blank piece) (h : WritesArgument piece optionKey value) :
    argumentsOf (blanks ++ piece :: pieces) = ⟨optionKey, value⟩ :: argumentsOf pieces := by
  rw [argumentsOf_append, argumentsOf_of_blank hblanks, List.nil_append,
    h.argumentsOf_cons bare_optionKey (Text.forall_isBlank_eq_false (by decide))]

/-- What was written starts with the value of an entry, so an entry before it gets no options. -/
theorem WritesPieces.startsAnew (h : WritesPieces pieces entries) :
    StartsAnew (argumentsOf pieces) := by
  have hvalue {value : List Char} {rest : List Argument} :
      StartsAnew (⟨valueKey, value⟩ :: rest) := by
    rintro argument ⟨⟩
    rfl
  induction h with
  | nil => exact nofun
  | @blank piece pieces _ hblank _ ih =>
    rcases argumentsOf_cons piece pieces with ⟨-, hnone⟩ | ⟨hnot, -⟩
    · rwa [hnone]
    · exact absurd hblank hnot
  | plain id hpiece =>
    rw [argumentsOf_value_cons hpiece]
    exact hvalue
  | options id hpiece =>
    rw [argumentsOf_value_cons hpiece]
    exact hvalue

/-- **Entries are read as they were written**, with their positions as identifiers. -/
theorem readFrom_of_writes (h : WritesPieces pieces entries) {index : ℕ}
    (hlimit : index + entries.length ≤ bucketLimit + 1) :
    readFrom index none (argumentsOf pieces) =
      entries.mapIdx fun i entry => .ok { entry with id := index + i } := by
  have hnext (i : ℕ) : index + 1 + i = index + (i + 1) := Nat.add_right_comm index 1 i
  induction h generalizing index with
  | nil => rfl
  | @blank piece pieces _ hblank _ ih =>
    rcases argumentsOf_cons piece pieces with ⟨-, hnone⟩ | ⟨hnot, -⟩
    · rw [hnone]
      exact ih hlimit hnext
    · exact absurd hblank hnot
  | @plain piece value pieces bytes entries id hpiece hbytes hrest ih =>
    rw [List.length_cons] at hlimit
    rw [argumentsOf_value_cons hpiece, readFrom_value rfl, PatternEntry.read_eq (by omega),
      readByteTokens_of_writes hbytes, readFrom_of_startsAnew hrest.startsAnew,
      ih (by omega) (fun i => Nat.add_right_comm (index + 1) 1 i), List.mapIdx_cons]
    simp only [hnext]
    rfl
  | @options piece value piece' value' blanks pieces bytes alpha flags entries id hpiece hbytes
      hblanks hpiece' hoptions hrest ih =>
    rw [List.length_cons] at hlimit
    rw [argumentsOf_value_cons hpiece, readFrom_value rfl, PatternEntry.read_eq (by omega),
      readByteTokens_of_writes hbytes, argumentsOf_options_cons hblanks hpiece',
      readFrom_options rfl, ih (by omega) (fun i => Nat.add_right_comm (index + 1) 1 i),
      List.mapIdx_cons]
    simp only [hnext]
    change PatternEntry.withOptions _ value' :: _ = _
    rw [PatternEntry.withOptions_eq, readOptions_of_writes hoptions]
    rfl

end Specification

/-! ### One way to write -/

/-- Two digits. -/
def writeByte (byte : UInt8) : List Char :=
  [(byte.toNat / 16).digitChar, (byte.toNat % 16).digitChar]

theorem writes_writeByte (byte : UInt8) : Writes Spells (writeByte byte) byte := by
  have hdigit {n : ℕ} (h : n < 16) : Text.IsDigit n.digitChar n := ⟨h, Or.inl rfl⟩
  have hspells := Text.Spells.two (hdigit (n := byte.toNat / 16) (by have := byte.toNat_lt; omega))
    (hdigit (Nat.mod_lt byte.toNat (by decide : 0 < 16)))
  rw [Nat.div_add_mod, UInt8.ofNat_toNat] at hspells
  exact ⟨[], by decide, _, hspells, Text.around_self _⟩

/-- The words of the flags that are set. -/
def PatternFlags.write (flags : PatternFlags) : List (List Char) :=
  (if flags.persist then [stateWord] else []) ++ (if flags.event then [eventWord] else [])

theorem setsFlags_write (flags : PatternFlags) : SetsFlags flags.write flags := by
  rw [setsFlags_iff 0]
  obtain ⟨_ | _, _ | _⟩ := flags <;> decide

/-- The arguments of an entry, with its options. -/
def PatternEntry.write (entry : PatternEntry) : List (List Char) :=
  [Specification.valueKey ++ '=' :: listTokens (entry.bytes.map writeByte),
    Specification.optionKey ++ '=' :: listTokens (writeByte entry.alpha :: entry.flags.write)]

namespace Specification

/-- The arguments of entries, with colons between them. -/
def write (entries : List PatternEntry) : String :=
  String.ofList (join (entries.flatMap PatternEntry.write))

theorem writesPieces_write {entries : List PatternEntry} (h : ∀ entry ∈ entries, entry.bytes ≠ []) :
    WritesPieces (entries.flatMap PatternEntry.write) entries := by
  induction entries with
  | nil => exact .nil
  | cons entry rest ih =>
    obtain ⟨hentry, hrest⟩ := List.forall_mem_cons.mp h
    have hbytes : List.Forall₂ (Text.Writes Spells) (entry.bytes.map writeByte) entry.bytes := by
      rw [List.forall₂_map_left_iff, List.forall₂_same]
      exact fun byte _ => writes_writeByte byte
    have hblanks : ∀ piece ∈ ([] : List (List Char)), Blank piece := nofun
    exact .options entry.id ⟨valueKey, Text.around_self _, rfl⟩
      ⟨_, by simpa using hentry, rfl, hbytes⟩ hblanks ⟨optionKey, Text.around_self _, rfl⟩
      ⟨_, _, rfl, writes_writeByte _, setsFlags_write _⟩ (ih hrest)

/-- **Reading undoes writing.** Whichever way entries with bytes to look for are written, they are
read as they were, with their positions as identifiers. And there is a way to write them. -/
theorem read_written {entries : List PatternEntry} (hlimit : entries.length < 2 ^ 32)
    (hbytes : ∀ entry ∈ entries, entry.bytes ≠ []) :
    (∀ text, Writes text entries →
      read text = entries.mapIdx fun i entry => .ok { entry with id := i }) ∧
    Writes (write entries) entries := by
  refine ⟨?_, _, String.toList_ofList, writesPieces_write hbytes⟩
  rintro text ⟨pieces, htext, hpieces⟩
  rw [read, htext, arguments_join hpieces.colon_notMem,
    readFrom_of_writes hpieces (by rw [Nat.zero_add]; exact Nat.le_of_lt hlimit)]
  simp only [Nat.zero_add]

/-- Marks, cases, blanks, a blank argument between an entry and its options, and the order of flags
do not matter. -/
theorem read_written_unevenly :
    read " val = 0X4d , a : :opt\t=07,event, state :val=fF" =
      [.ok ⟨0, [0x4d, 0x0a], 0x07, ⟨true, true⟩⟩, .ok ⟨1, [0xff], 0x40, ⟨false, true⟩⟩] := by
  have hspace : Blank [' '] := List.forall_mem_singleton.mpr (by decide)
  have htab : Blank ['\t'] := List.forall_mem_singleton.mpr (by decide)
  have hlast : WritesPieces [['v', 'a', 'l', '=', 'f', 'F']] [⟨0, [0xff], 0x40, ⟨false, true⟩⟩] :=
    .plain 0 ⟨valueKey, Text.around_self _, rfl⟩
      ⟨[['f', 'F']], by decide, rfl, .cons ⟨[], by decide, ['f', 'F'],
        @Spells.two _ _ 15 15 (by decide) (by decide), Text.around_self _⟩ .nil⟩ .nil
  have hblanks : ∀ piece ∈ [[' ']], Blank piece := List.forall_mem_singleton.mpr hspace
  have hpieces : WritesPieces
      [[' ', 'v', 'a', 'l', ' ', '=', ' ', '0', 'X', '4', 'd', ' ', ',', ' ', 'a', ' '], [' '],
        ['o', 'p', 't', '\t', '=', '0', '7', ',', 'e', 'v', 'e', 'n', 't', ',', ' ', 's', 't', 'a',
          't', 'e', ' '], ['v', 'a', 'l', '=', 'f', 'F']]
      [⟨0, [0x4d, 0x0a], 0x07, ⟨true, true⟩⟩, ⟨0, [0xff], 0x40, ⟨false, true⟩⟩] := by
    refine .options 0 ⟨[' ', 'v', 'a', 'l', ' '], ⟨[' '], [' '], hspace, hspace, rfl⟩, rfl⟩
      ⟨[[' ', '0', 'X', '4', 'd', ' '], [' ', 'a', ' ']], by decide, rfl, ?_⟩ hblanks
      ⟨['o', 'p', 't', '\t'], ⟨[], ['\t'], nofun, htab, rfl⟩, rfl⟩
      ⟨['0', '7'], [['e', 'v', 'e', 'n', 't'], [' ', 's', 't', 'a', 't', 'e', ' ']], rfl, ?_, ?_⟩
      hlast
    · exact .cons ⟨['0', 'X'], by decide, ['4', 'd'],
        @Spells.two _ _ 4 13 (by decide) (by decide), ⟨[' '], [' '], hspace, hspace, rfl⟩⟩
        (.cons ⟨[], by decide, ['a'], @Spells.one _ 10 (by decide),
          ⟨[' '], [' '], hspace, hspace, rfl⟩⟩ .nil)
    · exact ⟨[], by decide, ['0', '7'], @Spells.two _ _ 0 7 (by decide) (by decide),
        Text.around_self _⟩
    · rw [setsFlags_iff 0]
      decide
  have hwritten := @read_written
    [⟨0, [0x4d, 0x0a], 0x07, ⟨true, true⟩⟩, ⟨0, [0xff], 0x40, ⟨false, true⟩⟩] (by decide)
    (by decide)
  exact hwritten.1 _ ⟨_, by decide, hpieces⟩

end Specification

end Bytescope
