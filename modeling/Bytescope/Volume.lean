import Bytescope.Error
import Bytescope.Image
import Bytescope.Path
import Std.Data.HashMap

/-!
# Directory trees

A volume holds files in directories. Paths are followed piece by piece from the top, which is
also the current directory, and an access that cannot succeed fails with the fault that the
system reports for it.

## Main definitions

* `FileContent`: what a file holds, as far as it matters.
* `Volume`, `Volume.locate`: the tree, and the place that a path leads to.
* `Volume.openEntry`, `Volume.createDirectories`, `Volume.createFile`, `Volume.write`: accesses.
-/

namespace Bytescope

/-- What a file holds. -/
inductive FileContent
  /-- These bytes. -/
  | bytes (data : Array UInt8)
  /-- A picture. -/
  | picture (image : Image)
  /-- An animation of the size of its first frame, each frame of which is shown for a time in
  milliseconds. -/
  | animation (first : Image) (rest : List Image) (delay : Nat)
  /-- A picture in a format that is not read back. -/
  | sealed (image : Image)

/-- An entry of a directory. -/
inductive VolumeEntry
  /-- A directory. -/
  | directory
  /-- A file. -/
  | file (content : FileContent)

/-- The names on the way from the top to an entry. -/
abbrev Location := List String

/-- A tree of directories and files. -/
structure Volume where
  /-- The entries below the top; an entry's directory is among them. -/
  entries : Std.HashMap Location VolumeEntry

namespace Volume

/-- The tree that has nothing in it. -/
def empty : Volume := ⟨∅⟩

/-- The entry at a place. -/
def lookup (v : Volume) (place : Location) : Option VolumeEntry :=
  if place = [] then some .directory else v.entries[place]?

/-- Puts an entry at a place, in the stead of the one that is there. -/
def insert (v : Volume) (place : Location) (entry : VolumeEntry) : Volume :=
  ⟨v.entries.insert place entry⟩

/-- An entry is found at its place, and no other place changes. -/
theorem lookup_insert (v : Volume) {place : Location} (hplace : place ≠ [])
    (other : Location) (entry : VolumeEntry) :
    (v.insert place entry).lookup other =
      if place = other then some entry else v.lookup other := by
  by_cases heq : place = other
  · subst heq
    simp [lookup, insert, hplace]
  · simp [lookup, insert, heq, Std.HashMap.getElem?_insert]

/-- Requires that a path can be handed to the system at all. -/
def requireSound (path : String) : Except SystemFault Unit :=
  if path.toList.contains '\x00' then .error .nulInPath
  else if Path.tooLong path then .error .nameTooLong
  else .ok ()

/-- Requires a directory at a place. -/
def requireDirectory (v : Volume) (place : Location) : Except SystemFault Unit :=
  match v.lookup place with
  | some .directory => .ok ()
  | some (.file _) => .error .notDirectory
  | none => .error .notFound

/-- The place of a name in a directory, unless the name is too long to be looked up. -/
def child (place : Location) (name : List Char) : Except SystemFault Location :=
  if Path.fits name then .ok (place ++ [String.ofList name]) else .error .nameTooLong

/-- The place to which a piece leads from another place, which has to be a directory. -/
def follow (v : Volume) (place : Location) (piece : List Char) : Except SystemFault Location := do
  v.requireDirectory place
  if Path.isIdle piece then return place
  else if piece = ['.', '.'] then return place.dropLast
  else child place piece

/-- The place that pieces lead to from the top; only its directory has to be there. -/
def locate (v : Volume) (pieces : List (List Char)) : Except SystemFault Location :=
  pieces.foldlM v.follow []

/-- The entry that a path leads to. -/
def openEntry (v : Volume) (path : String) : Except SystemFault VolumeEntry := do
  requireSound path
  if path = "" then throw .notFound
  let place ← v.locate (path.toList.splitOn '/')
  match v.lookup place with
  | some entry => return entry
  | none => throw .notFound

/-- Makes the directories that are missing on the way that pieces lead from a directory. A file
in the way of further pieces is no directory; but as soon as a directory was `made`, every
further one is asked for by itself, and then a file of its name exists already. The directories
made before a fault stay. -/
def createFrom (v : Volume) (place : Location) (made : Bool) :
    List (List Char) → Except SystemFault Unit × Volume
  | [] => (.ok (), v)
  | piece :: rest =>
    if piece = ['.', '.'] then v.createFrom place.dropLast made rest
    else
      match child place piece with
      | .error fault => (.error fault, v)
      | .ok next =>
        match v.lookup next with
        | some .directory => v.createFrom next made rest
        | some (.file _) =>
          (.error (if made ∨ rest = [] then .alreadyExists else .notDirectory), v)
        | none => (v.insert next .directory).createFrom next true rest

/-- Makes the directory that a path names and all directories above it. -/
def createDirectories (v : Volume) (path : String) : Except SystemFault Unit × Volume :=
  match requireSound path with
  | .error fault => (.error fault, v)
  | .ok () => v.createFrom [] false ((path.toList.splitOn '/').filter (!Path.isIdle ·))

/-- The place where a path has a file or may get one. A path that ends with a slash or does not
end with a name can only be a directory's. -/
def filePlace (v : Volume) (path : String) : Except SystemFault Location := do
  requireSound path
  let pieces := path.toList.splitOn '/'
  let named := (pieces.reverse.dropWhile (· = [])).reverse
  let place ← v.locate named.dropLast
  v.requireDirectory place
  match named.getLast? with
  | some last =>
    if named.length < pieces.length ∨ last = ['.'] ∨ last = ['.', '.'] then throw .isDirectory
    else child place last
  | none => throw (if path = "" then .notFound else .isDirectory)

/-- Makes a file empty, or makes an empty file. -/
def createFile (v : Volume) (path : String) : Except SystemFault (Location × Volume) := do
  let place ← v.filePlace path
  match v.lookup place with
  | some .directory => throw .isDirectory
  | _ => return (place, v.insert place (.file (.bytes #[])))

/-- Gives the file at a place a content. -/
def write (v : Volume) (place : Location) (content : FileContent) : Volume :=
  v.insert place (.file content)

/-- The files of the tree with the names on the way to them, in no particular order. -/
def files (v : Volume) : List (Location × FileContent) :=
  v.entries.toList.filterMap fun
    | (place, .file content) => some (place, content)
    | (_, .directory) => none

end Volume

end Bytescope
