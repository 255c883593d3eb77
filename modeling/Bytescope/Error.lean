/-!
# Why an operation is refused

Errors are causes. The wording of each cause stands in one function, `Error.message`, and the
underlying cause of an error, where it has one, in `Error.source?`.

One of them, `Error.overflow`, is no answer of the library. It stands for the end of the program
where a product of sizes is too large for a word, and the message is the one that the program
leaves then.

## Main definitions

* `ParameterFault`, `TokenFault`, `SystemFault`: the ways a parameter, a token of a pattern
  text and an access to the file system fail.
* `Error`: the errors of the library.
* `Error.message`, `Error.source?`: their texts.
-/

namespace Bytescope

/-- The constraint that a parameter violates. -/
inductive ParameterFault
  /-- A channel's side is zero or above the largest one. -/
  | sideOutOfRange (most : Nat)
  /-- The curve visits every cell only where the side is a power of two. -/
  | sideNotPowerOfTwo
  /-- A curve table's side is above the largest one. -/
  | sideAboveMaximum (most : Nat)
  /-- A raster's side does not fit an image dimension. -/
  | sideTooLargeForRaster
  /-- A raster's cells cannot be counted in a word. -/
  | rasterSizeOverflows
  /-- A raster's storage does not have the length its side asks for. -/
  | storageMismatch
  /-- A pattern has no bytes. -/
  | emptyPattern
  /-- A size that must be positive is zero. -/
  | notPositive
  /-- An animation has no frames. -/
  | noFrames
  /-- A constraint given by its text. -/
  | stated (text : String)
  deriving DecidableEq, Repr

/-- The text of a violated constraint. -/
def ParameterFault.text : ParameterFault → String
  | .sideOutOfRange most => s!"must be between 1 and {most}"
  | .sideNotPowerOfTwo => "curve mapping requires a power-of-two side"
  | .sideAboveMaximum most => s!"exceeds maximum window side {most}"
  | .sideTooLargeForRaster => "too large for raster"
  | .rasterSizeOverflows => "raster size overflows"
  | .storageMismatch => "raster storage mismatch"
  | .emptyPattern => "pattern must contain at least one byte"
  | .notPositive => "must be positive"
  | .noFrames => "no frames captured for animation"
  | .stated text => text

/-- What is wrong with a token of a pattern text. -/
inductive TokenFault
  /-- A byte token is not one or two characters long. -/
  | digitCount
  /-- A byte token holds something else than hexadecimal digits. -/
  | notHexadecimal
  /-- An option is neither of the two flag words. -/
  | unknownFlag
  /-- An entry's index does not fit a pattern identifier. -/
  | tooManyEntries
  /-- A fault given by its text. -/
  | stated (text : String)
  deriving DecidableEq, Repr

/-- The text of a token's fault. -/
def TokenFault.text : TokenFault → String
  | .digitCount => "expected one or two hexadecimal digits"
  | .notHexadecimal => "not a hexadecimal byte"
  | .unknownFlag => "unknown flag, expected 'state' or 'event'"
  | .tooManyEntries => "too many entries"
  | .stated text => text

/-- What the system answers to an access that it refuses. -/
inductive SystemFault
  /-- No entry has this name. -/
  | notFound
  /-- Another entry has this name already. -/
  | alreadyExists
  /-- A component of a path that should be a directory is not one. -/
  | notDirectory
  /-- A directory stands where a file is expected. -/
  | isDirectory
  /-- An offset is outside what the system can count. -/
  | invalidArgument
  /-- A name or a path is longer than the system can follow. -/
  | nameTooLong
  /-- A path holds the character that ends texts for the system. -/
  | nulInPath
  /-- A fault given by its text. -/
  | stated (text : String)
  deriving DecidableEq, Repr

/-- The text of a system fault, with its number if it has one. -/
def SystemFault.text : SystemFault → String
  | .notFound => "No such file or directory (os error 2)"
  | .alreadyExists => "File exists (os error 17)"
  | .notDirectory => "Not a directory (os error 20)"
  | .isDirectory => "Is a directory (os error 21)"
  | .invalidArgument => "Invalid argument (os error 22)"
  | .nameTooLong => "File name too long (os error 36)"
  | .nulInPath => "file name contained an unexpected NUL byte"
  | .stated text => text

/-- The errors of the library. -/
inductive Error
  /-- A parameter was refused before anything was changed. -/
  | invalidParameter (parameter value : String) (fault : ParameterFault)
  /-- A control selector stands for no command. -/
  | unknownCommand (selector : Int)
  /-- An entry of a pattern text cannot be read. -/
  | malformedPattern (entry : Nat) (token : String) (fault : TokenFault)
  /-- A buffer of this many elements cannot exist. -/
  | allocation (what : String) (requested : Nat)
  /-- A rendered frame could not be saved. -/
  | imageExport (path : String) (source : String)
  /-- The input could not be read, or the output not written. -/
  | fileSystem (path operation : String) (fault : SystemFault)
  /-- The receiver of the frames refused one. -/
  | sink (reason : String)
  /-- A product of sizes did not fit into a word, which ended the program. -/
  | overflow
  deriving DecidableEq, Repr

namespace Error

/-- The text of a refused buffer, without its size. -/
def capacityText : String :=
  "memory allocation failed because the computed capacity exceeded the collection's maximum"

/-- The text shown for an error. -/
def message : Error → String
  | .invalidParameter parameter value fault =>
    s!"Invalid parameter '{parameter}' = '{value}': {fault.text}"
  | .unknownCommand selector => s!"Unknown command selector {selector}"
  | .malformedPattern entry token fault =>
    s!"Malformed pattern entry {entry} at token '{token}': {fault.text}"
  | .allocation what requested =>
    s!"Failed to allocate {requested} elements for {what}: {capacityText}"
  | .imageExport path source => s!"Failed to export image to '{path}': {source}"
  | .fileSystem path operation fault =>
    s!"File system error during {operation} on '{path}': {fault.text}"
  | .sink reason => s!"Sink rejected frame: {reason}"
  | .overflow => "attempt to multiply with overflow"

/-- The text of the cause beneath an error, if it has one. -/
def source? : Error → Option String
  | .allocation _ _ => some capacityText
  | .imageExport _ source => some source
  | .fileSystem _ _ fault => some fault.text
  | _ => none

/-- The refusal of a side. -/
def side (side : Nat) (fault : ParameterFault) : Error :=
  .invalidParameter "side" (toString side) fault

/-- The refusal of a path, which gives no value. -/
def path (text : String) : Error :=
  .invalidParameter "path" "" (.stated text)

/-- A system fault of which neither the place nor the operation is known. -/
def ofSystemFault (fault : SystemFault) : Error :=
  .fileSystem "<unknown>" "unknown" fault

end Error

end Bytescope
