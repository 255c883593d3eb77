import Bytescope.Image.Formats
import Bytescope.Image.Gif
import Bytescope.Sensor

/-!
# The command line

Reads the file that the arguments name, runs the sensor on it, and writes the files that it
leaves.
-/

namespace Bytescope.Program

/-- What the program is and how it is called. -/
def help : String :=
  "Render a file as a sequence of byte-window images\n\n" ++
  "Usage: bytescope [OPTIONS] <FILE>\n\n" ++
  "Options:\n" ++
  "  -s, --side <SIDE>        Window side in pixels [default: 256]\n" ++
  "  -c, --clock <CLOCK>      block or slide [default: block]\n" ++
  "  -m, --mapping <MAPPING>  raster, tuple or curve [default: raster]\n" ++
  "  -p, --packing <PACKING>  tight, tight-no-alpha, intensity or histogram-intensity\n" ++
  "  -a, --alpha <ALPHA>      constant, pattern or entropy [default: entropy]\n" ++
  "      --chunk <CHUNK>      Bytes read per ingest call [default: 4096]\n" ++
  "  -P, --pattern <PATTERN>  Pattern specification, e.g. val=4d,5a:opt=80,event\n" ++
  "  -f, --frames <FRAMES>    Stop after this many frames [default: 64]\n" ++
  "      --skip <SKIP>        Start reading at this byte offset [default: 0]\n" ++
  "  -o, --output <OUTPUT>    Output directory (defaults to the input's directory)\n" ++
  "  -g, --gif                Export one animated GIF instead of PNGs\n" ++
  "  -q, --quiet              Suppress progress output\n" ++
  "  -h, --help               Print help\n" ++
  "  -V, --version            Print version\n"

/-- The name and version of the program. -/
def version : String := "bytescope 0.1.0\n"

/-- A tree that holds the directories on the way to a path. -/
def volumeAround (path : String) : Volume :=
  (Volume.empty.createDirectories ((Path.parent? path).getD "")).2

/-- A tree that holds one file at a path, under the directories on the way to it. -/
def volumeWith (path : String) (content : FileContent) : Volume :=
  match (volumeAround path).createFile path with
  | .ok (place, v) => v.write place content
  | .error _ => volumeAround path

/-- The tree with what a path names in the file system. What cannot be followed at all is not
asked for. -/
def load (path : String) : IO Volume := do
  match Volume.requireSound path, Path.fileName? path with
  | .ok (), some name =>
    if !Path.fits name.toList then return volumeAround path
    else
      match ← (IO.FS.readBinFile path).toBaseIO with
      | .ok data => return volumeWith path (.bytes data.data)
      | .error (.noFileOrDirectory ..) => return .empty
      | .error (.inappropriateType ..) => return (Volume.empty.createDirectories path).2
      | .error e => throw e
  | .ok (), none => return (Volume.empty.createDirectories path).2
  | .error _, _ => return .empty

/-- The bytes of a picture's or an animation's file. -/
def bytesOf : FileContent → ByteArray
  | .bytes data => ⟨data⟩
  | .picture image | .sealed image => Png.encode image
  | .animation first rest delay => Gif.encode first rest delay

/-- Writes the files that a run left, all of which stand in the output directory. -/
def writeFiles (directory : String) (before after : Volume) : IO Unit := do
  let old := before.files.map Prod.fst
  if directory ≠ "" ∧ after.files.length ≠ old.length then IO.FS.createDirAll directory
  for (place, content) in after.files do
    unless old.contains place do
      IO.FS.writeBinFile (Path.join directory (place.getLastD "")) (bytesOf content)

/-- Shows what was reported. -/
def showLog (log : List LogLine) : IO Unit := do
  for line in log do
    unless line.severity = .debug do IO.eprintln s!"[{line.severity.name} ] {line.text}"

/-- Runs the sensor as the arguments say. -/
def run (a : Arguments) : IO UInt32 := do
  let v ← load a.target
  let outcome := Sensor.run .standard a v
  showLog outcome.log
  writeFiles a.outputDirectory v outcome.volume
  match outcome.ending with
  | .exported _ => return 0
  | .failed e =>
    IO.eprintln s!"Error: {e.message}"
    return 1
  | .aborted _ =>
    IO.eprintln "capacity overflow"
    return 101

end Bytescope.Program

/-- Runs the program with the words of the command line. -/
def main (words : List String) : IO UInt32 := do
  match Bytescope.Arguments.parse words with
  | .ok a => Bytescope.Program.run a
  | .error .displayHelp =>
    IO.print Bytescope.Program.help
    return 0
  | .error .displayVersion =>
    IO.print Bytescope.Program.version
    return 0
  | .error e =>
    IO.eprintln s!"error: {e.name}"
    return 2
