import Bytescope.Channel.Basic
import Bytescope.Path

/-!
# Command-line arguments

The arguments name one file and set options. An option's value is read when the next option,
flag or file name is recognised, or at the end, so that a fault in the words themselves wins
over a fault in a value before them.

## Main definitions

* `UsageError`: why arguments are refused.
* `Arguments`: what they say.
* `Arguments.parse`: reads them.
* `Arguments.outputDirectory`, `Arguments.channelConfig`: what follows from them.
-/

namespace Bytescope

/-- Why arguments are refused. -/
inductive UsageError
  /-- A word that is no option, flag or file name. -/
  | unknownArgument
  /-- A value that is missing, empty, or not one of the words allowed. -/
  | invalidValue
  /-- A value that is not a number in range. -/
  | valueValidation
  /-- An option or flag given twice. -/
  | argumentConflict
  /-- A flag with a value. -/
  | tooManyValues
  /-- No file. -/
  | missingRequiredArgument
  /-- The help was asked for. -/
  | displayHelp
  /-- The version was asked for. -/
  | displayVersion
  deriving DecidableEq, Repr

/-- The name of a usage error. -/
def UsageError.name : UsageError → String
  | .unknownArgument => "UnknownArgument"
  | .invalidValue => "InvalidValue"
  | .valueValidation => "ValueValidation"
  | .argumentConflict => "ArgumentConflict"
  | .tooManyValues => "TooManyValues"
  | .missingRequiredArgument => "MissingRequiredArgument"
  | .displayHelp => "DisplayHelp"
  | .displayVersion => "DisplayVersion"

/-- What takes a value. -/
inductive Slot
  /-- The file to read. -/
  | target
  /-- Side of the window. -/
  | side
  /-- The clock. -/
  | clock
  /-- The mapping. -/
  | mapping
  /-- The packing. -/
  | packing
  /-- The source of opacity. -/
  | alpha
  /-- Bytes read at a time. -/
  | chunk
  /-- Patterns to look for. -/
  | pattern
  /-- Most frames to export. -/
  | frames
  /-- Bytes to pass over. -/
  | skip
  /-- The output directory. -/
  | output
  deriving DecidableEq, Repr

/-- What takes no value. -/
inductive Flag
  | gif
  | quiet
  | help
  | version
  deriving DecidableEq, Repr

/-- What a word after dashes stands for. -/
inductive Switch
  /-- An option, which takes a value. -/
  | option (slot : Slot)
  /-- A flag, which takes none. -/
  | flag (flag : Flag)
  deriving DecidableEq, Repr

/-- The options and flags by their long names. -/
def Switch.longNames : List (String × Switch) :=
  [("side", .option .side), ("clock", .option .clock), ("mapping", .option .mapping),
    ("packing", .option .packing), ("alpha", .option .alpha), ("chunk", .option .chunk),
    ("pattern", .option .pattern), ("frames", .option .frames), ("skip", .option .skip),
    ("output", .option .output), ("gif", .flag .gif), ("quiet", .flag .quiet),
    ("help", .flag .help), ("version", .flag .version)]

/-- The options and flags by their letters. -/
def Switch.letters : List (Char × Switch) :=
  [('s', .option .side), ('c', .option .clock), ('m', .option .mapping),
    ('p', .option .packing), ('a', .option .alpha), ('P', .option .pattern),
    ('f', .option .frames), ('o', .option .output), ('g', .flag .gif), ('q', .flag .quiet),
    ('h', .flag .help), ('V', .flag .version)]

/-- The option or flag with a long name. -/
def Switch.ofLong? (name : String) : Option Switch :=
  (longNames.find? (·.1 = name)).map Prod.snd

/-- The option or flag with a letter. -/
def Switch.ofLetter? (letter : Char) : Option Switch :=
  (letters.find? (·.1 = letter)).map Prod.snd

/-- What the arguments read so far say, by the places of their values. -/
structure Given where
  target : Option String := none
  side : Option Nat := none
  clock : Option Clock := none
  mapping : Option Mapping := none
  packing : Option Packing := none
  alpha : Option Opacity := none
  chunk : Option Nat := none
  pattern : Option String := none
  frames : Option Nat := none
  skip : Option Nat := none
  output : Option String := none
  gif : Bool := false
  quiet : Bool := false
  deriving DecidableEq, Repr

namespace Given

/-- Reads a number of at most 64 bits: decimal digits, possibly after a plus sign. -/
def readNumber (value : String) : Except UsageError Nat :=
  let digits := match value.toList with
    | '+' :: rest => rest
    | cs => cs
  if digits ≠ [] ∧ digits.all Char.isDigit then
    let n := Nat.ofDigitChars 10 digits 0
    if n < wordSize then .ok n else .error .valueValidation
  else .error .valueValidation

/-- Reads one of the words that name the modes of a kind. -/
def readMode {α : Type} (all : List α) (name : α → String) (value : String) :
    Except UsageError α :=
  match all.find? (name · = value) with
  | some mode => .ok mode
  | none => .error .invalidValue

/-- Reads a path, which is not empty. -/
def readPath (value : String) : Except UsageError String :=
  if value = "" then .error .invalidValue else .ok value

/-- Fills something that may be given once. -/
def once {α : Type} (old : Option α) (read : Except UsageError α) :
    Except UsageError (Option α) :=
  if old.isSome then .error .argumentConflict else read.map some

/-- Fills the place of a value. That it is given once is checked before the value is read. -/
def assign (g : Given) (slot : Slot) (value : String) : Except UsageError Given :=
  match slot with
  | .target => (once g.target (readPath value)).map fun x => { g with target := x }
  | .side => (once g.side (readNumber value)).map fun x => { g with side := x }
  | .clock => (once g.clock (readMode Clock.all Clock.name value)).map
      fun x => { g with clock := x }
  | .mapping => (once g.mapping (readMode Mapping.all Mapping.name value)).map
      fun x => { g with mapping := x }
  | .packing => (once g.packing (readMode Packing.all Packing.name value)).map
      fun x => { g with packing := x }
  | .alpha => (once g.alpha (readMode Opacity.all Opacity.name value)).map
      fun x => { g with alpha := x }
  | .chunk => (once g.chunk (readNumber value)).map fun x => { g with chunk := x }
  | .pattern => (once g.pattern (.ok value)).map fun x => { g with pattern := x }
  | .frames => (once g.frames (readNumber value)).map fun x => { g with frames := x }
  | .skip => (once g.skip (readNumber value)).map fun x => { g with skip := x }
  | .output => (once g.output (readPath value)).map fun x => { g with output := x }

/-- Sets a flag, or shows what it asks for. -/
def raise (g : Given) : Flag → Except UsageError Given
  | .gif => if g.gif then .error .argumentConflict else .ok { g with gif := true }
  | .quiet => if g.quiet then .error .argumentConflict else .ok { g with quiet := true }
  | .help => .error .displayHelp
  | .version => .error .displayVersion

end Given

/-- The arguments read so far, with the value that is still to be read. -/
structure ArgumentReader where
  /-- What they say. -/
  given : Given := {}
  /-- What takes the next value, and the value if there is one already. -/
  pending : Option (Slot × Option String) := none
  /-- Whether there was a file name. -/
  named : Bool := false

namespace ArgumentReader

/-- Reads the pending value. -/
def resolve (r : ArgumentReader) : Except UsageError ArgumentReader :=
  match r.pending with
  | none => .ok r
  | some (_, none) => .error .invalidValue
  | some (slot, some value) =>
    (r.given.assign slot value).map fun given => { r with given := given, pending := none }

/-- An option whose value is attached to it. -/
def attach (r : ArgumentReader) (slot : Slot) (value : String) :
    Except UsageError ArgumentReader := do
  let r ← r.resolve
  let given ← r.given.assign slot value
  return { r with given := given }

/-- An option whose value is the next word. -/
def expect (r : ArgumentReader) (slot : Slot) : Except UsageError ArgumentReader := do
  let r ← r.resolve
  return { r with pending := some (slot, none) }

/-- A flag. -/
def raise (r : ArgumentReader) (flag : Flag) : Except UsageError ArgumentReader := do
  let r ← r.resolve
  let given ← r.given.raise flag
  return { r with given := given }

/-- A word after two dashes. -/
def readLong (r : ArgumentReader) (word : List Char) : Except UsageError ArgumentReader :=
  let name := String.ofList (word.takeWhile (· ≠ '='))
  let attached := word.dropWhile (· ≠ '=')
  match Switch.ofLong? name, attached with
  | none, _ => .error .unknownArgument
  | some (.option slot), [] => r.expect slot
  | some (.option slot), _ :: value => r.attach slot (String.ofList value)
  | some (.flag flag), [] => r.raise flag
  | some (.flag _), _ :: _ => .error .tooManyValues

/-- Letters after one dash: flags, and at the end possibly an option with its value. -/
def readLetters (r : ArgumentReader) : List Char → Except UsageError ArgumentReader
  | [] => .ok r
  | letter :: rest =>
    match Switch.ofLetter? letter with
    | none => .error .unknownArgument
    | some (.flag flag) => do
      let r ← r.raise flag
      r.readLetters rest
    | some (.option slot) =>
      match rest with
      | [] => r.expect slot
      | '=' :: value => r.attach slot (String.ofList value)
      | value => r.attach slot (String.ofList value)

/-- A word that is no option: the file, which is named once. -/
def readTarget (r : ArgumentReader) (word : String) : Except UsageError ArgumentReader :=
  if r.named then .error .unknownArgument
  else r.resolve.map fun r => { r with pending := some (.target, some word), named := true }

/-- A word before which no two dashes stood alone. -/
def readWord (r : ArgumentReader) (word : String) : Except UsageError ArgumentReader :=
  match word.toList with
  | '-' :: '-' :: long => r.readLong long
  | '-' :: letter :: letters => r.readLetters (letter :: letters)
  | _ =>
    match r.pending with
    | some (slot, none) => .ok { r with pending := some (slot, some word) }
    | _ => r.readTarget word

/-- Reads words. After two dashes that stand alone, no word is an option. -/
def readWords (r : ArgumentReader) : List String → Except UsageError ArgumentReader
  | [] => r.resolve
  | word :: rest =>
    if word = "--" then (rest.foldlM readTarget r).bind resolve
    else do
      let r ← r.readWord word
      r.readWords rest

end ArgumentReader

/-- What the arguments say. -/
structure Arguments where
  target : String
  side : Nat := defaultWindowSide
  clock : Clock := .block
  mapping : Mapping := .raster
  packing : Packing := .intensity
  opacity : Opacity := .entropy
  chunk : Nat := defaultChunkSize
  pattern : Option String := none
  frames : Nat := defaultMaxFrames
  skip : Nat := 0
  output : Option String := none
  gif : Bool := false
  quiet : Bool := false
  deriving DecidableEq, Repr

namespace Arguments

/-- What was given, and the defaults for the rest. There has to be a file. -/
def ofGiven (g : Given) : Except UsageError Arguments :=
  match g.target with
  | none => .error .missingRequiredArgument
  | some target => .ok {
      target := target
      side := g.side.getD defaultWindowSide
      clock := g.clock.getD .block
      mapping := g.mapping.getD .raster
      packing := g.packing.getD .intensity
      opacity := g.alpha.getD .entropy
      chunk := g.chunk.getD defaultChunkSize
      pattern := g.pattern
      frames := g.frames.getD defaultMaxFrames
      skip := g.skip.getD 0
      output := g.output
      gif := g.gif
      quiet := g.quiet }

/-- Reads the words of a command line after the program's name. -/
def parse (words : List String) : Except UsageError Arguments := do
  let r ← ArgumentReader.readWords {} words
  ofGiven r.given

/-- Whether progress is shown. -/
def showsProgress (a : Arguments) : Bool := !a.quiet

/-- How the channel starts. -/
def channelConfig (a : Arguments) : ChannelConfig :=
  ⟨a.side, a.clock, a.mapping, a.packing, a.opacity⟩

/-- Where frames are written: the output directory, or else the directory of the file. -/
def outputDirectory (a : Arguments) : String :=
  a.output.getD ((Path.parent? a.target).getD "")

end Arguments

end Bytescope
