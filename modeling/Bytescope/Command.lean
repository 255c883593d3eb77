import Bytescope.Opacity
import Bytescope.Packing
import Bytescope.Window

/-!
# Control commands

A command switches one mode of a channel. It travels as a number, its selector.

## Main definitions

* `Command`: the mode to switch to.
* `Command.selector`, `Command.ofSelector`: commands as numbers.

## Main results

* `ofSelector_selector`: a command is read back from its selector.
-/

namespace Bytescope

/-- The mode a channel is to switch to. -/
inductive Command
  /-- Another clock. -/
  | clock (mode : Clock)
  /-- Another mapping. -/
  | mapping (mode : Mapping)
  /-- Another packing. -/
  | packing (mode : Packing)
  /-- Another source of opacity. -/
  | opacity (mode : Opacity)
  deriving DecidableEq, Repr

namespace Command

/-- The number that stands for a command. -/
def selector : Command → Int
  | .clock .block => 0
  | .clock .slide => 1
  | .mapping .raster => 10
  | .mapping .tuple => 11
  | .mapping .curve => 12
  | .packing .intensity => 20
  | .packing .histogramIntensity => 21
  | .packing .tight => 22
  | .packing .tightNoAlpha => 23
  | .opacity .constant => 30
  | .opacity .pattern => 31
  | .opacity .entropy => 32

/-- All commands. -/
def all : List Command :=
  Clock.all.map .clock ++ Mapping.all.map .mapping ++ Packing.all.map .packing ++
    Opacity.all.map .opacity

/-- The command that a number stands for. -/
def ofSelector (selector : Int) : Except Error Command :=
  match all.find? (·.selector = selector) with
  | some command => .ok command
  | none => .error (.unknownCommand selector)

/-- A command is read back from its selector. -/
@[simp]
theorem ofSelector_selector (command : Command) : ofSelector command.selector = .ok command := by
  rcases command with mode | mode | mode | mode <;> cases mode <;> rfl

/-- Every command is in the list of all commands. -/
theorem mem_all (command : Command) : command ∈ all := by
  rcases command with mode | mode | mode | mode <;> cases mode <;> decide

end Command

end Bytescope
