/-!
# Paths as texts

A path is a text of pieces with slashes between them. Empty pieces and pieces `.` name nothing,
except that a leading slash names the root and a leading `.` the current directory. All
functions cut pieces off the end of the text and leave the rest as it was written.

## Main definitions

* `Path.parent?`, `Path.fileName?`, `Path.join`: directories and names.
* `Path.fileStem?`, `Path.fileExtension?`: the two parts of a name, cut at its last dot.
* `Path.fits`, `Path.tooLong`: the lengths that names and paths may have.
-/

namespace Bytescope.Path

/-- Where a path starts. -/
inductive Anchor
  /-- At the root. -/
  | root
  /-- At the current directory, written out. -/
  | here
  /-- At the current directory, not written. -/
  | bare
  deriving DecidableEq, Repr

/-- The text of an anchor that stands alone. -/
def Anchor.text : Anchor → List Char
  | .root => ['/']
  | .here => ['.']
  | .bare => []

/-- Whether a piece names nothing. -/
def isIdle (piece : List Char) : Bool := piece = [] || piece = ['.']

/-- Leaves out the pieces at the end that name nothing. -/
def dropIdle (pieces : List (List Char)) : List (List Char) :=
  (pieces.reverse.dropWhile isIdle).reverse

/-- The anchor of a path and the pieces after it, up to the last one that names something. -/
def split (path : List Char) : Anchor × List (List Char) :=
  match path.splitOn '/' with
  | [] :: piece :: rest => (.root, dropIdle (piece :: rest))
  | ['.'] :: rest => (.here, dropIdle rest)
  | pieces => (.bare, dropIdle pieces)

/-- Writes pieces with slashes between them. -/
def joinPieces (pieces : List (List Char)) : List Char := ['/'].intercalate pieces

/-- Writes pieces after an anchor. -/
def assemble (anchor : Anchor) (pieces : List (List Char)) : List Char :=
  match anchor, pieces with
  | anchor, [] => anchor.text
  | .root, pieces => '/' :: joinPieces pieces
  | .here, pieces => '.' :: '/' :: joinPieces pieces
  | .bare, pieces => joinPieces pieces

/-- The path without its last name. Neither the root nor the empty path has one. -/
def parent? (path : String) : Option String :=
  let (anchor, pieces) := split path.toList
  match anchor, pieces with
  | .root, [] | .bare, [] => none
  | .here, [] => some ""
  | anchor, pieces => some (String.ofList (assemble anchor (dropIdle pieces.dropLast)))

/-- The last name of a path, unless it is the parent directory's. -/
def fileName? (path : String) : Option String :=
  match (split path.toList).2.getLast? with
  | some piece => if piece = ['.', '.'] then none else some (String.ofList piece)
  | none => none

/-- What stands before and after the last dot of a name. A dot in front does not count. -/
def cutAtDot (name : List Char) : Option (List Char × List Char) :=
  let after := (name.reverse.takeWhile (· ≠ '.')).reverse
  let before := name.take (name.length - after.length - 1)
  if before = [] then none else some (before, after)

/-- The name of a file without its extension. -/
def fileStem? (path : String) : Option String :=
  (fileName? path).map fun name =>
    match cutAtDot name.toList with
    | some (before, _) => String.ofList before
    | none => name

/-- The extension of a file's name, without the dot. -/
def fileExtension? (path : String) : Option String :=
  (fileName? path).bind fun name => (cutAtDot name.toList).map fun cut => String.ofList cut.2

/-- A path below a directory, unless it starts at the root itself. -/
def join (directory path : String) : String :=
  if path.toList.head? = some '/' then path
  else if directory = "" ∨ directory.toList.getLast? = some '/' then directory ++ path
  else directory ++ "/" ++ path

/-- Bytes of the longest name. -/
def maxNameBytes : Nat := 255

/-- Bytes of the longest path. -/
def maxPathBytes : Nat := 4095

/-- Whether a piece is short enough for a name. -/
def fits (piece : List Char) : Bool := (String.ofList piece).utf8ByteSize ≤ maxNameBytes

/-- Whether a path is too long to be followed. -/
def tooLong (path : String) : Bool := maxPathBytes < path.utf8ByteSize

end Bytescope.Path
