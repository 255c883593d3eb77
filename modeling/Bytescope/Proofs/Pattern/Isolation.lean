import Bytescope.Proofs.Frame.Scene
import Bytescope.Proofs.Pattern.Arguments
import Bytescope.Proofs.Pattern.Tokens
import Bytescope.Sink.Recorder

/-!
# Entries by themselves

What an entry of a specification comes to depends on its own arguments only: on the `val` that
begins it, on the `opt` that belongs to it, and on its position. So specifications can be put one
after the other, arguments that belong to no entry can be left out, and the entries that can be
read are registered whatever the other ones are.

## Main definitions

* `PatternEntry.moved`, `Error.moved`: entries and errors at a later position.
* `Specification.StartsAnew`, `Specification.awaits`: whether the first arguments belong to no
  earlier entry, and whether the last entry may still get options.
* `Specification.accepted`, `Specification.refusals`: the entries that could be read, and why the
  other ones could not.

## Main results

* `Specification.readFrom_moved`: the entries at later positions.
* `Specification.readFrom_append`: the entries of two lists of arguments.
* `Specification.readFrom_erase`: leaving out an argument.
* `Session.perform_addPatterns`: what registering a text does.
* `Specification.entries_isolated`: all of this for texts.
-/

namespace Bytescope

/-! ### Later positions -/

/-- The error with a later position, if it is about an entry. -/
def Error.moved (distance : ℕ) : Error → Error
  | .malformedPattern entry token fault => .malformedPattern (entry + distance) token fault
  | e => e

/-- The entry at a later position. -/
def PatternEntry.moved (distance : ℕ) (entry : PatternEntry) : PatternEntry :=
  { entry with id := entry.id + distance }

/-- The entry, or the reason why there is none, at a later position. -/
def PatternEntry.movedResult (distance : ℕ) :
    Except Error PatternEntry → Except Error PatternEntry
  | .ok entry => .ok (entry.moved distance)
  | .error e => .error (e.moved distance)

variable {distance index : ℕ}

theorem readByteToken_moved (token : List Char) :
    readByteToken (index + distance) token =
      (readByteToken index token).mapError (Error.moved distance) := by
  rw [readByteToken, readByteToken]
  cases Text.readHexByte token <;> rfl

theorem mapM_mapError {ε α β : Type} (f : α → Except ε β) (g : ε → ε) (l : List α) :
    l.mapM (fun a => (f a).mapError g) = (l.mapM f).mapError g := by
  induction l with
  | nil => rfl
  | cons a rest ih =>
    rw [List.mapM_cons, List.mapM_cons, ih]
    cases f a with
    | error e => rfl
    | ok b => cases rest.mapM f <;> rfl

theorem readByteTokens_moved (text : List Char) :
    readByteTokens (index + distance) text =
      (readByteTokens index text).mapError (Error.moved distance) := by
  rw [readByteTokens, readByteTokens, ← mapM_mapError]
  exact congrArg (List.mapM · _) (funext readByteToken_moved)

theorem readFlag_moved (flags : PatternFlags) (word : List Char) :
    readFlag (index + distance) flags word =
      (readFlag index flags word).mapError (Error.moved distance) := by
  rw [readFlag, readFlag]
  split
  next => rfl
  next => split <;> rfl

theorem foldlM_readFlag_moved (words : List (List Char)) (flags : PatternFlags) :
    words.foldlM (readFlag (index + distance)) flags =
      (words.foldlM (readFlag index) flags).mapError (Error.moved distance) := by
  induction words generalizing flags with
  | nil => rfl
  | cons word rest ih =>
    rw [List.foldlM_cons, List.foldlM_cons, readFlag_moved]
    cases readFlag index flags word with
    | error e => rfl
    | ok next => exact ih next

theorem readOptions_moved (text : List Char) :
    readOptions (index + distance) text =
      (readOptions index text).mapError (Error.moved distance) := by
  obtain ⟨token, words, hsplit⟩ := exists_splitOn_eq_cons ',' text
  rw [readOptions_eq hsplit, readOptions_eq hsplit, readByteToken_moved, foldlM_readFlag_moved]
  cases readByteToken index token with
  | error e => rfl
  | ok alpha => cases words.foldlM (readFlag index) ⟨false, false⟩ <;> rfl

theorem PatternEntry.read_moved (h : index + distance ≤ bucketLimit) (value : List Char) :
    PatternEntry.read (index + distance) value =
      movedResult distance (PatternEntry.read index value) := by
  rw [read_eq h, read_eq (Nat.le_of_add_right_le h), readByteTokens_moved]
  cases readByteTokens index value <;> rfl

theorem PatternEntry.withOptions_moved (result : Except Error PatternEntry) (value : List Char) :
    (movedResult distance result).bind (·.withOptions value) =
      movedResult distance (result.bind (·.withOptions value)) := by
  cases result with
  | error e => rfl
  | ok entry =>
    change (entry.moved distance).withOptions value = movedResult distance (entry.withOptions value)
    rw [withOptions_eq, withOptions_eq, moved, readOptions_moved]
    cases readOptions entry.id value <;> rfl

namespace Specification

variable {pending : Option (Except Error PatternEntry)} {arguments : List Argument}

/-- Number of entries that arguments begin. -/
def count (arguments : List Argument) : ℕ := arguments.countP (·.key = valueKey)

theorem count_of_value {argument : Argument} (h : argument.key = valueKey) :
    count (argument :: arguments) = count arguments + 1 :=
  List.countP_cons_of_pos (decide_eq_true h)

theorem count_of_ne {argument : Argument} (h : argument.key ≠ valueKey) :
    count (argument :: arguments) = count arguments :=
  List.countP_cons_of_neg (by simpa using h)

/-- An argument begins an entry, gives a pending one its options, or is idle. -/
theorem value_or_options_or_idle (pending : Option (Except Error PatternEntry))
    (argument : Argument) :
    argument.key = valueKey ∨
      (∃ entry, pending = some entry ∧ argument.key = optionKey) ∨
      Idle pending.isSome argument := by
  by_cases hvalue : argument.key = valueKey
  · exact Or.inl hvalue
  · by_cases hidle : argument.key = optionKey → pending.isSome = false
    · exact Or.inr (Or.inr ⟨hvalue, hidle⟩)
    · rw [Classical.not_imp, Bool.not_eq_false, Option.isSome_iff_exists] at hidle
      obtain ⟨hoption, entry, hentry⟩ := hidle
      exact Or.inr (Or.inl ⟨entry, hentry, hoption⟩)

/-- Every argument that begins an entry makes one. -/
theorem length_readFrom :
    (readFrom index pending arguments).length = pending.toList.length + count arguments := by
  induction arguments generalizing index pending with
  | nil => rfl
  | cons argument rest ih =>
    rcases value_or_options_or_idle pending argument with hvalue | ⟨entry, rfl, hoption⟩ | hidle
    · rw [readFrom_value hvalue, List.length_append, ih, count_of_value hvalue,
        Nat.add_comm (count rest)]
      rfl
    · rw [readFrom_options hoption, List.length_cons, ih,
        count_of_ne (hoption ▸ optionKey_ne_valueKey), Option.toList_none, List.length_nil,
        Nat.zero_add, Nat.add_comm]
      rfl
    · rw [readFrom_idle hidle, ih, count_of_ne hidle.1]

/-- **Entries at later positions** are the same up to their positions. -/
theorem readFrom_moved (h : index + distance + count arguments ≤ bucketLimit + 1) :
    readFrom (index + distance) (pending.map (PatternEntry.movedResult distance)) arguments =
      (readFrom index pending arguments).map (PatternEntry.movedResult distance) := by
  induction arguments generalizing index pending with
  | nil => cases pending <;> rfl
  | cons argument rest ih =>
    rcases value_or_options_or_idle pending argument with hvalue | ⟨entry, rfl, hoption⟩ | hidle
    · rw [count_of_value hvalue] at h
      have hnext := @ih (index + 1) (some (PatternEntry.read index argument.value)) (by omega)
      rw [readFrom_value hvalue, readFrom_value hvalue, PatternEntry.read_moved (by omega),
        List.map_append, ← hnext, Nat.add_right_comm]
      cases pending <;> rfl
    · rw [count_of_ne (hoption ▸ optionKey_ne_valueKey)] at h
      rw [readFrom_options hoption, Option.map_some, readFrom_options hoption, List.map_cons,
        PatternEntry.withOptions_moved, ← @ih index none h]
      rfl
    · rw [count_of_ne hidle.1] at h
      rw [readFrom_idle hidle, readFrom_idle (by rwa [Option.isSome_map]), ih h]

/-! ### One list of arguments after another -/

/-- The argument is a `val` or an `opt`. -/
def Argument.Known (argument : Argument) : Prop :=
  argument.key = valueKey ∨ argument.key = optionKey
  deriving Decidable

/-- The first argument that is a `val` or an `opt`, if there is one, is a `val`. -/
def StartsAnew (arguments : List Argument) : Prop :=
  ∀ argument ∈ arguments.find? (·.Known), argument.key = valueKey
  deriving Decidable

theorem StartsAnew.of_cons {argument : Argument} (h : StartsAnew (argument :: arguments))
    (hvalue : argument.key ≠ valueKey) : argument.key ≠ optionKey ∧ StartsAnew arguments := by
  have hoption : argument.key ≠ optionKey := fun hkey =>
    hvalue (h argument (List.find?_cons_of_pos (decide_eq_true (Or.inr hkey))))
  refine ⟨hoption, ?_⟩
  rwa [StartsAnew, List.find?_cons_of_neg (by simp [Argument.Known, hvalue, hoption])] at h

/-- Arguments that start anew do not touch a pending entry. -/
theorem readFrom_of_startsAnew (h : StartsAnew arguments) :
    readFrom index pending arguments = pending.toList ++ readFrom index none arguments := by
  induction arguments with
  | nil => rw [readFrom, readFrom, Option.toList_none, List.append_nil]
  | cons argument rest ih =>
    by_cases hvalue : argument.key = valueKey
    · rw [readFrom_value hvalue, readFrom_value hvalue]
      rfl
    · obtain ⟨hoption, hrest⟩ := h.of_cons hvalue
      rw [readFrom_idle ⟨hvalue, fun hkey => absurd hkey hoption⟩, ih hrest,
        readFrom_idle ⟨hvalue, fun _ => rfl⟩]

/-- **The entries of two lists of arguments**, the second of which starts anew, are those of the
first and then those of the second. -/
theorem readFrom_append {later : List Argument} (h : StartsAnew later) :
    readFrom index pending (arguments ++ later) =
      readFrom index pending arguments ++ readFrom (index + count arguments) none later := by
  induction arguments generalizing index pending with
  | nil => exact readFrom_of_startsAnew h
  | cons argument rest ih =>
    rw [List.cons_append]
    rcases value_or_options_or_idle pending argument with hvalue | ⟨entry, rfl, hoption⟩ | hidle
    · rw [readFrom_value hvalue, readFrom_value hvalue, ih, List.append_assoc,
        count_of_value hvalue, Nat.add_right_comm, Nat.add_assoc]
    · rw [readFrom_options hoption, readFrom_options hoption, ih,
        count_of_ne (hoption ▸ optionKey_ne_valueKey)]
      rfl
    · rw [readFrom_idle hidle, readFrom_idle hidle, ih, count_of_ne hidle.1]

/-! ### Leaving out an argument -/

/-- Whether an entry may still get options after these arguments: the last one that is a `val` or
an `opt` is a `val`, or there is none and an entry was pending before. -/
def awaits (pending : Bool) (arguments : List Argument) : Bool :=
  ((arguments.reverse.find? (·.Known)).map fun last => decide (last.key = valueKey)).getD pending

theorem awaits_cons (pending : Bool) (argument : Argument) :
    awaits pending (argument :: arguments) =
      awaits (if argument.key = valueKey then true
        else if argument.key = optionKey then false else pending) arguments := by
  rw [awaits, awaits, List.reverse_cons, List.find?_append]
  cases arguments.reverse.find? (·.Known) with
  | some last => rfl
  | none =>
    by_cases hvalue : argument.key = valueKey
    · simp [Argument.Known, hvalue]
    · by_cases hoption : argument.key = optionKey
      · simp [Argument.Known, hoption, optionKey_ne_valueKey]
      · simp [Argument.Known, hvalue, hoption]

/-- **Leaving out an argument** that is idle where it stands changes nothing. -/
theorem readFrom_erase {argument : Argument} {later : List Argument}
    (h : Idle (awaits pending.isSome arguments) argument) :
    readFrom index pending (arguments ++ argument :: later) =
      readFrom index pending (arguments ++ later) := by
  induction arguments generalizing index pending with
  | nil => exact readFrom_idle h
  | cons first rest ih =>
    rw [awaits_cons] at h
    rw [List.cons_append, List.cons_append]
    rcases value_or_options_or_idle pending first with hvalue | ⟨entry, rfl, hoption⟩ | hidle
    · rw [if_pos hvalue] at h
      rw [readFrom_value hvalue, readFrom_value hvalue,
        @ih (index + 1) (some (PatternEntry.read index first.value)) h]
    · rw [if_neg (hoption ▸ optionKey_ne_valueKey), if_pos hoption] at h
      rw [readFrom_options hoption, readFrom_options hoption, @ih index none h]
    · rw [if_neg hidle.1] at h
      rw [readFrom_idle hidle, readFrom_idle hidle, ih]
      split at h
      next hoption => rwa [hidle.2 hoption]
      next => exact h

/-! ### Registering entries -/

/-- The entries that could be read. -/
def accepted (results : List (Except Error PatternEntry)) : List PatternEntry :=
  results.filterMap Except.toOption

/-- Why the other ones could not. -/
def refusals (results : List (Except Error PatternEntry)) : List Error :=
  results.filterMap fun
    | .ok _ => none
    | .error e => some e

/-- An entry, if there is one, has bytes to look for. -/
def Sound (result : Except Error PatternEntry) : Prop :=
  ∀ entry, result = .ok entry → entry.bytes ≠ []

/-- A value has at least one token. -/
theorem sound_read (index : ℕ) (value : List Char) : Sound (PatternEntry.read index value) := by
  intro entry h
  rw [PatternEntry.read] at h
  cases hbytes : readByteTokens index value with
  | error e =>
    rw [hbytes] at h
    cases h
  | ok bytes =>
    obtain ⟨token, words, hsplit⟩ := exists_splitOn_eq_cons ',' value
    have hlength := (mapM_eq_ok_iff.mp hbytes).length_eq
    rw [hsplit] at hlength
    have hne : bytes ≠ [] := fun hnone => by simp [hnone] at hlength
    rw [hbytes] at h
    simp only [bind, Except.bind] at h
    split at h
    next => cases h
    next => rwa [← Except.ok.inj h]

/-- Options do not change the bytes. -/
theorem Sound.withOptions {result : Except Error PatternEntry} (h : Sound result)
    (value : List Char) : Sound (result.bind (·.withOptions value)) := by
  intro entry hentry
  cases result with
  | error e => cases hentry
  | ok before =>
    change before.withOptions value = .ok entry at hentry
    rw [PatternEntry.withOptions_eq] at hentry
    cases hoptions : readOptions before.id value with
    | error e =>
      rw [hoptions] at hentry
      cases hentry
    | ok options =>
      rw [hoptions] at hentry
      rw [← Except.ok.inj hentry]
      exact h before rfl

/-- All entries of a list of arguments have bytes to look for. -/
theorem sound_of_mem_readFrom (hpending : ∀ result ∈ pending, Sound result) :
    ∀ result ∈ readFrom index pending arguments, Sound result := by
  induction arguments generalizing index pending with
  | nil => exact fun result hmem => hpending result (Option.mem_toList.mp hmem)
  | cons argument rest ih =>
    rcases value_or_options_or_idle pending argument with hvalue | ⟨entry, rfl, hoption⟩ | hidle
    · rw [readFrom_value hvalue, List.forall_mem_append]
      refine ⟨fun result hmem => hpending result (Option.mem_toList.mp hmem), ih ?_⟩
      rintro result ⟨⟩
      exact sound_read index argument.value
    · rw [readFrom_options hoption, List.forall_mem_cons]
      exact ⟨(hpending entry rfl).withOptions _, ih nofun⟩
    · rw [readFrom_idle hidle]
      exact ih hpending

end Specification

namespace Channel

theorem register_error (r : Registration) (e : Error) :
    register r (.error e) = ⟨r.channel, r.added, r.rejected ++ [e]⟩ := rfl

/-- An entry with bytes to look for is registered. -/
theorem register_ok {entry : PatternEntry} (h : entry.bytes ≠ []) (r : Registration) :
    ∃ p : Pattern, p.entry = entry ∧ register r (.ok entry) =
      ⟨{ r.channel with patterns := r.channel.patterns.register p }, r.added + 1, r.rejected⟩ := by
  have hpos : 0 < entry.bytes.toArray.size := List.length_pos_iff.mpr h
  refine ⟨⟨entry.bytes.toArray, entry.alpha, entry.id, entry.flags, hpos, _, rfl⟩, rfl, ?_⟩
  simp only [register, addPattern, Pattern.build, bind, Except.bind, dif_pos hpos]
  rfl

theorem foldl_register {results : List (Except Error PatternEntry)}
    (h : ∀ result ∈ results, Specification.Sound result) (r : Registration) :
    ∃ patterns : List Pattern, patterns.map Pattern.entry = Specification.accepted results ∧
      results.foldl register r =
        ⟨{ r.channel with
            patterns := ⟨r.channel.patterns.trackers ++ patterns.map Tracker.start⟩ },
          r.added + patterns.length, r.rejected ++ Specification.refusals results⟩ := by
  induction results generalizing r with
  | nil => exact ⟨[], rfl, by simp [Specification.refusals]⟩
  | cons result rest ih =>
    rw [List.forall_mem_cons] at h
    cases result with
    | error e =>
      obtain ⟨patterns, hentries, hfold⟩ := ih h.2 (register r (.error e))
      refine ⟨patterns, hentries, hfold.trans ?_⟩
      simp [register_error, Specification.refusals]
    | ok entry =>
      obtain ⟨p, hp, hregister⟩ := register_ok (h.1 entry rfl) r
      obtain ⟨patterns, hentries, hfold⟩ := ih h.2 (register r (.ok entry))
      refine ⟨p :: patterns, ?_, hfold.trans ?_⟩
      · rw [List.map_cons, hp, hentries]
        rfl
      · rw [hregister]
        simp [PatternSet.register, Specification.refusals, Nat.add_comm 1, Nat.add_assoc]

end Channel

/-- **Registering a text** adds the patterns of the entries that can be read, in order and behind
those that were there, and reports the other entries. -/
theorem Session.perform_addPatterns {σ : Type} [FrameSink σ] (s : Session σ) (text : String) :
    ∃ patterns : List Pattern,
      patterns.map Pattern.entry = Specification.accepted (Specification.read text) ∧
      s.perform (.addPatterns text) =
        (.registered patterns.length,
          (Specification.refusals (Specification.read text)).map LogLine.ofRejectedPattern,
          ⟨{ s.channel with
              patterns := ⟨s.channel.patterns.trackers ++ patterns.map Tracker.start⟩ },
            s.sink⟩) := by
  have hsound : ∀ result ∈ Specification.read text, Specification.Sound result :=
    Specification.sound_of_mem_readFrom nofun
  obtain ⟨patterns, hentries, hfold⟩ := Channel.foldl_register hsound ⟨s.channel, 0, []⟩
  refine ⟨patterns, hentries, ?_⟩
  rw [perform, Channel.addPatterns, hfold, Nat.zero_add, List.nil_append]

namespace Specification

/-! ### Texts -/

/-- A text has as many entries as its arguments begin. -/
theorem length_read (text : String) : (read text).length = count (arguments text.toList) := by
  rw [read, length_readFrom, Option.toList_none, List.length_nil, Nat.zero_add]

/-- Two texts one after the other. -/
theorem read_append {a b : String} (hstart : StartsAnew (arguments b.toList))
    (hlimit : (read a).length + (read b).length < 2 ^ 32) :
    read (a ++ ":" ++ b) = read a ++ (read b).map (PatternEntry.movedResult (read a).length) := by
  have htext : (a ++ ":" ++ b).toList = a.toList ++ ':' :: b.toList := by
    rw [String.toList_append, String.toList_append, List.append_assoc]
    rfl
  have hmoved := @readFrom_moved (read a).length 0 none (arguments b.toList) (by
    rw [length_read b] at hlimit
    rw [Nat.zero_add]
    exact Nat.le_of_lt hlimit)
  rw [read, htext, arguments_append, readFrom_append hstart, ← length_read a,
    ← Option.map_none (f := PatternEntry.movedResult (read a).length), hmoved]
  rfl

/-- A text without a piece that belongs to no entry. -/
theorem read_erase {text : String} {front back : List (List Char)} {piece : List Char}
    (hsplit : text.toList.splitOn ':' = front ++ piece :: back)
    (hidle : Text.Blank piece ∨ ¬ (Argument.ofText piece).Known ∨
      ((Argument.ofText piece).key = optionKey ∧ awaits false (argumentsOf front) = false)) :
    read (String.ofList (join (front ++ back))) = read text := by
  have hpieces : ∀ other ∈ front ++ back, ':' ∉ other := by
    intro other hmem
    have hother : other ∈ text.toList.splitOn ':' := by
      rw [hsplit]
      rw [List.mem_append] at hmem ⊢
      exact hmem.imp_right (List.mem_cons_of_mem piece)
    exact Text.not_mem_of_mem_splitOn hother
  rw [read, read, String.toList_ofList, arguments_join hpieces, arguments_eq, hsplit,
    argumentsOf_append, argumentsOf_append]
  rcases argumentsOf_cons piece back with ⟨-, hnone⟩ | ⟨hpiece, hone⟩
  · rw [hnone]
  · rw [hone]
    refine (readFrom_erase ?_).symm
    rcases hidle with hblank | hunknown | ⟨hoption, hnotawaits⟩
    · exact absurd hblank hpiece
    · exact ⟨fun hvalue => hunknown (Or.inl hvalue),
        fun hoption => absurd (Or.inr hoption) hunknown⟩
    · exact ⟨hoption ▸ optionKey_ne_valueKey, fun _ => hnotawaits⟩

/-- **Entries are isolated.** If the first argument of a text that is a `val` or an `opt` is a
`val`, the text can be put behind another one: its entries, read or refused, come behind the other
ones and are only moved. Blank arguments, arguments with other keys, and options without an entry
that awaits them can be left out. And whatever else a text has in it, the entries that can be read
are registered behind the patterns that were there, which stay as they are. -/
theorem entries_isolated :
    (∀ a b : String, StartsAnew (arguments b.toList) →
      (read a).length + (read b).length < 2 ^ 32 →
      read (a ++ ":" ++ b) =
        read a ++ (read b).map (PatternEntry.movedResult (read a).length)) ∧
    (∀ (text : String) (front back : List (List Char)) (piece : List Char),
      text.toList.splitOn ':' = front ++ piece :: back →
      Text.Blank piece ∨ ¬ (Argument.ofText piece).Known ∨
        ((Argument.ofText piece).key = optionKey ∧ awaits false (argumentsOf front) = false) →
      read (String.ofList (join (front ++ back))) = read text) ∧
    ∀ {σ : Type} [FrameSink σ] (s : Session σ) (text : String),
      ∃ patterns : List Pattern, patterns.map Pattern.entry = accepted (read text) ∧
        s.perform (.addPatterns text) =
          (.registered patterns.length, (refusals (read text)).map LogLine.ofRejectedPattern,
            ⟨{ s.channel with
                patterns := ⟨s.channel.patterns.trackers ++ patterns.map Tracker.start⟩ },
              s.sink⟩) :=
  ⟨fun _ _ => read_append, fun _ _ _ _ => read_erase, fun s => s.perform_addPatterns⟩

/-- Between a refused entry and an entry with refused options, a stray `opt` and an unknown key
change nothing, and the entry that can be read keeps its position. -/
theorem entries_isolated_between_refusals :
    read ("val=de,zz:opt=10" ++ ":" ++ "name=x:val=ca,fe:val=01:opt=xx") =
        [.error (.malformedPattern 0 "zz" .notHexadecimal),
          .ok ⟨1, [0xca, 0xfe], 0x40, ⟨false, true⟩⟩,
          .error (.malformedPattern 2 "xx" .notHexadecimal)] ∧
      read (String.ofList (join ([] ++ [['v', 'a', 'l', '=', '1']]))) = read "opt=10:val=1" ∧
      accepted (read "val=zz:val=ca,fe") = [⟨1, [0xca, 0xfe], 0x40, ⟨false, true⟩⟩] ∧
      ∀ s : Session Recorder, ∃ p : Pattern, p.entry = ⟨1, [0xca, 0xfe], 0x40, ⟨false, true⟩⟩ ∧
        (s.perform (.addPatterns "val=zz:val=ca,fe")).2.2.channel.patterns.trackers =
          s.channel.patterns.trackers ++ [Tracker.start p] := by
  obtain ⟨happend, herase, hregister⟩ := entries_isolated
  have haccepted : accepted (read "val=zz:val=ca,fe") =
      [⟨1, [0xca, 0xfe], 0x40, ⟨false, true⟩⟩] := by decide
  refine ⟨?_, ?_, haccepted, fun s => ?_⟩
  · rw [happend _ _ (by decide) (by decide)]
    decide
  · exact herase "opt=10:val=1" [] [['v', 'a', 'l', '=', '1']] ['o', 'p', 't', '=', '1', '0']
      (by decide) (Or.inr (Or.inr (by decide)))
  · obtain ⟨patterns, hentries, hperform⟩ := hregister s "val=zz:val=ca,fe"
    rw [haccepted, List.map_eq_singleton_iff] at hentries
    obtain ⟨p, rfl, hp⟩ := hentries
    exact ⟨p, hp, by rw [hperform]; rfl⟩

end Specification

end Bytescope
