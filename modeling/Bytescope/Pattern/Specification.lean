import Bytescope.Pattern.Scan
import Bytescope.Text.HexByte

/-!
# Patterns written as text

A specification is a list of arguments `key=value` with `:` between them. Each `val` begins an
entry and gives the bytes of a pattern, separated by commas; the next `opt` gives that entry's
opacity, followed by the flag words `state` and `event`. Blank arguments and other keys are
passed over. An entry that cannot be read does not affect the others.

## Main definitions

* `readByteTokens`, `readOptions`: the values of `val` and `opt`.
* `PatternEntry`: an entry that has been read.
* `Specification.read`, `Specification.ignoredKeys`: the entries of a text, and the keys that
  were passed over.
-/

namespace Bytescope

/-- Reads one byte of an entry. -/
def readByteToken (entry : Nat) (token : List Char) : Except Error UInt8 :=
  (Text.readHexByte token).mapError fun fault =>
    .malformedPattern entry (String.ofList token) fault

/-- Reads bytes separated by commas, up to the first that cannot be read. -/
def readByteTokens (entry : Nat) (text : List Char) : Except Error (List UInt8) :=
  (text.splitOn ',').mapM (readByteToken entry)

/-- Adds the flag that a word stands for. -/
def readFlag (entry : Nat) (flags : PatternFlags) (word : List Char) :
    Except Error PatternFlags :=
  let word := String.ofList (Text.trim word)
  if word = "state" then .ok { flags with persist := true }
  else if word = "event" then .ok { flags with event := true }
  else .error (.malformedPattern entry word .unknownFlag)

/-- Reads an opacity and the flag words after it. -/
def readOptions (entry : Nat) (text : List Char) : Except Error (UInt8 × PatternFlags) := do
  let tokens := text.splitOn ','
  let alpha ← readByteToken entry (tokens.headD [])
  let flags ← tokens.tail.foldlM (readFlag entry) ⟨false, false⟩
  return (alpha, flags)

/-- An entry of a specification. -/
structure PatternEntry where
  /-- Its position among the entries, which serves as the pattern's identifier. -/
  id : Nat
  /-- The bytes to look for. -/
  bytes : List UInt8
  /-- Opacity of its occurrences. -/
  alpha : UInt8
  /-- What else its occurrences do. -/
  flags : PatternFlags
  deriving DecidableEq, Repr

namespace PatternEntry

/-- Reads the value that begins an entry; without options, occurrences are counted. -/
def read (index : Nat) (value : List Char) : Except Error PatternEntry := do
  let bytes ← readByteTokens index value
  if bucketLimit < index then
    throw (.malformedPattern index (String.ofList value) .tooManyEntries)
  return ⟨index, bytes, defaultPatternAlpha, ⟨false, true⟩⟩

/-- Reads the options of an entry. -/
def withOptions (entry : PatternEntry) (value : List Char) : Except Error PatternEntry := do
  let (alpha, flags) ← readOptions entry.id value
  return { entry with alpha, flags }

end PatternEntry

namespace Specification

/-- A key with its value. -/
structure Argument where
  /-- What stands before the first equals sign, or everything if there is none. -/
  key : List Char
  /-- What stands after it. -/
  value : List Char
  deriving DecidableEq, Repr

/-- Splits an argument at its first equals sign. -/
def Argument.ofText (cs : List Char) : Argument :=
  ⟨Text.trim (cs.takeWhile (· ≠ '=')), (cs.dropWhile (· ≠ '=')).drop 1⟩

/-- The arguments of a text, without the blank ones. -/
def arguments (text : List Char) : List Argument :=
  ((text.splitOn ':').filter fun cs => !(Text.trim cs).isEmpty).map Argument.ofText

/-- The key that begins an entry. -/
def valueKey : List Char := ['v', 'a', 'l']

/-- The key that gives an entry its options. -/
def optionKey : List Char := ['o', 'p', 't']

/-- The entries of a list of arguments. The next entry gets the position `index`; `pending` is
the last entry begun, as long as it may still get its options. -/
def readFrom (index : Nat) (pending : Option (Except Error PatternEntry)) :
    List Argument → List (Except Error PatternEntry)
  | [] => pending.toList
  | a :: rest =>
    if a.key = valueKey then
      pending.toList ++ readFrom (index + 1) (some (PatternEntry.read index a.value)) rest
    else
      match pending with
      | some entry =>
        if a.key = optionKey then
          (do (← entry).withOptions a.value) :: readFrom index none rest
        else readFrom index pending rest
      | none => readFrom index none rest

/-- The entries of a text, in order, each read or refused. -/
def read (text : String) : List (Except Error PatternEntry) :=
  readFrom 0 none (arguments text.toList)

/-- The keys of a list of arguments that are passed over; `pending` tells whether an entry may
still get its options. -/
def ignoredFrom (pending : Bool) : List Argument → List String
  | [] => []
  | a :: rest =>
    if a.key = valueKey then ignoredFrom true rest
    else if a.key = optionKey ∧ pending then ignoredFrom false rest
    else String.ofList a.key :: ignoredFrom pending rest

/-- The keys of a text that are passed over, in order. -/
def ignoredKeys (text : String) : List String := ignoredFrom false (arguments text.toList)

end Specification

end Bytescope
