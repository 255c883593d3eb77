import Bytescope.Error

/-!
# Log lines

What an operation reports besides its result.

## Main definitions

* `LogLine`: a text with its severity.
-/

namespace Bytescope

/-- How much a log line matters. -/
inductive Severity
  /-- Something was refused. -/
  | warn
  /-- Something was done. -/
  | info
  /-- Of interest to developers. -/
  | debug
  deriving DecidableEq, Repr

/-- The word for a severity. -/
def Severity.name : Severity → String
  | .warn => "WARN"
  | .info => "INFO"
  | .debug => "DEBUG"

/-- A text with its severity. -/
structure LogLine where
  /-- How much it matters. -/
  severity : Severity
  /-- What it says. -/
  text : String
  deriving DecidableEq, Repr

namespace LogLine

/-- The line as it is shown. -/
def render (line : LogLine) : String := line.severity.name ++ " " ++ line.text

/-- A selector was refused. -/
def ofUnknownCommand (e : Error) : LogLine := ⟨.warn, e.message⟩

/-- A pattern was refused. -/
def ofRejectedPattern (e : Error) : LogLine := ⟨.warn, s!"pattern rejected: {e.message}"⟩

/-- A key of a pattern text was passed over. -/
def ofIgnoredKey (key : String) : LogLine :=
  ⟨.debug, s!"ignoring pattern specification key '{key}'"⟩

end LogLine

end Bytescope
