import Bytescope.Log
import Bytescope.Sink.Basic
import Bytescope.Text.Utf8
import Bytescope.Volume

/-!
# Saving frames

A frame is saved as a picture in the format that its file's extension names, and a sequence of
frames as an animation. What the files hold is left to an encoder, of which nothing is known here.
The exporter is a receiver that saves every frame under a numbered name, or collects the frames for
an animation.

## Main definitions

* `Encoder`: what files hold of pictures and animations.
* `savePicture`, `saveAnimation`: save one frame, or a sequence of frames.
* `Exporter`: the receiver.
-/

namespace Bytescope

/-- What a library of image formats makes of pictures. Which formats there are, what a file holds in
each of them and which pictures it cannot hold are its own affair. -/
structure Encoder where
  /-- What a file holds of a picture in the format that the extension of its path names, or why it
  cannot hold it; or why there is no such format. -/
  format : Option String → Except String (Image → Except String FileContent)
  /-- What a file holds of an animation, each frame of which is to be shown for a time in
  milliseconds, or why it cannot hold it. -/
  animation : Image → List Image → Nat → Except String FileContent

/-- What a file holds of a picture in the format that an extension names. -/
def Encoder.picture (encoder : Encoder) (extension? : Option String) (image : Image) :
    Except String FileContent := do
  let encode ← encoder.format extension?
  encode image

/-- The error of a picture that cannot be saved. -/
def unsaved (path reason : String) : Error := .imageExport path reason

/-- Makes the directory that a file is to stand in. -/
def ensureParent (v : Volume) (path : String) : Except Error Unit × Volume :=
  match Path.parent? path with
  | none => (.ok (), v)
  | some parent =>
    if parent = "" then (.ok (), v)
    else
      let (result, v) := v.createDirectories parent
      (result.mapError (.fileSystem parent "create directory"), v)

/-- Saves a frame. A picture that cannot be written leaves an empty file, and one without a
format leaves none. -/
def savePicture (encoder : Encoder) (v : Volume) (image : Image) (path : String) :
    Except Error Unit × Volume :=
  match ensureParent v path with
  | (.error e, v) => (.error e, v)
  | (.ok (), v) =>
    match encoder.format (Path.fileExtension? path) with
    | .error reason => (.error (unsaved path reason), v)
    | .ok encode =>
      match v.createFile path with
      | .error fault => (.error (unsaved path fault.text), v)
      | .ok (place, v) =>
        match encode image with
        | .ok content => (.ok (), v.write place content)
        | .error reason => (.error (unsaved path reason), v)

/-- Saves frames as an animation. -/
def saveAnimation (encoder : Encoder) (v : Volume) (frames : List Image) (path : String)
    (delay : Nat) : Except Error Unit × Volume :=
  match frames with
  | [] => (.error (.invalidParameter "frames" "0" .noFrames), v)
  | first :: rest =>
    match ensureParent v path with
    | (.error e, v) => (.error e, v)
    | (.ok (), v) =>
      match v.createFile path with
      | .error fault => (.error (.fileSystem path "create file" fault), v)
      | .ok (place, v) =>
        match encoder.animation first rest delay with
        | .ok content => (.ok (), v.write place content)
        | .error reason => (.error (unsaved path reason), v)

/-- A receiver that saves the frames. -/
structure Exporter where
  /-- What makes the files. -/
  encoder : Encoder
  /-- Where the files go. -/
  directory : String
  /-- How their names begin. -/
  stem : String
  /-- Whether the frames are collected for an animation. -/
  animate : Bool
  /-- Frames received so far. -/
  exported : Nat
  /-- The frames collected so far. -/
  collected : Array Image
  /-- The directory tree. -/
  volume : Volume
  /-- What was reported. -/
  log : Array LogLine

namespace Exporter

/-- An exporter that has received nothing. -/
def fresh (encoder : Encoder) (directory stem : String) (animate : Bool) (volume : Volume) :
    Exporter :=
  ⟨encoder, directory, stem, animate, 0, #[], volume, #[]⟩

/-- A number in decimal digits, with zeros in front up to a width. -/
def padded (width n : Nat) : String :=
  let digits := Nat.toDigits 10 n
  String.ofList (List.replicate (width - digits.length) '0' ++ digits)

/-- The name of the picture of the frame with a number. -/
def frameName (stem : String) (number : Nat) : String :=
  stem ++ frameSuffix ++ "_" ++ padded 4 number ++ ".png"

/-- The path of the picture of the frame with a number. -/
def framePath (e : Exporter) (number : Nat) : String :=
  Path.join e.directory (frameName e.stem number)

/-- The name of the animation. -/
def animationName (stem : String) : String := stem ++ animationSuffix

/-- The path of the animation. -/
def animationPath (e : Exporter) : String :=
  Path.join e.directory (animationName e.stem)

/-- What is reported of a notice. -/
def report : Notice → List LogLine
  | .status _ _ _ => []
  | .stream code =>
    [⟨.debug, "stream info " ++ String.ofList (Text.decodeLossy code)⟩]
  | .matched found => [⟨.info, s!"pattern {found.id} matched {found.count} times"⟩]

/-- Saves a frame under the next number, or collects it. -/
def accept (e : Exporter) (raster : Raster) : Except Error Unit × Exporter :=
  let e := { e with exported := e.exported + 1 }
  let image := Image.ofRaster raster
  if e.animate then (.ok (), { e with collected := e.collected.push image })
  else
    let (result, volume) := savePicture e.encoder e.volume image (e.framePath e.exported)
    (result, { e with volume := volume })

instance : FrameSink Exporter where
  notify e notice := { e with log := e.log ++ report notice }
  flush e raster := e.accept raster

/-- Saves the frames collected, if there are any. -/
def finish (e : Exporter) : Except Error Unit × Exporter :=
  if e.animate ∧ e.collected ≠ #[] then
    let (result, volume) :=
      saveAnimation e.encoder e.volume e.collected.toList e.animationPath gifFrameDelayMs
    (result, { e with volume := volume })
  else (.ok (), e)

end Exporter

end Bytescope
