import VariantClasses.Disk.Basic

/-! # Following paths on a disk

A path is followed step by step from the working directory or the top directory, and
each step needs a directory to start from.
-/

namespace VariantClasses

namespace Path

/-- The steps that a path takes: the names, and `.` and `..` wherever they stand. -/
def steps (path : Path) : List Text :=
  path.pieces.filter (!·.isEmpty)

/-- Whether the path ends in a slash, and so names a directory. -/
def endsInSlash (path : Path) : Bool :=
  path.text.getLast? == some '/'

end Path

namespace Disk

/-- Nothing if there is a directory at the location, and what is wrong otherwise. -/
def directoryFault? (disk : Disk) (location : Location) : Option DiskFault :=
  match disk.entry? location with
  | some .directory => none
  | some (.file _) => some .notDirectory
  | none => some .missing

/-- Where one step leads from a location. -/
def stepFrom (location : Location) (step : Text) : Location :=
  if step = Path.here then location
  else if step = Path.up then location.dropLast
  else location ++ [step]

/-- Where steps lead from a location. Nothing need be at the end. -/
def walk (disk : Disk) (location : Location) : List Text → Except DiskFault Location
  | [] => .ok location
  | step :: more =>
    match disk.directoryFault? location with
    | some fault => .error fault
    | none =>
      walk disk (stepFrom location step) more

/-- The locations that steps pass, whether or not something is there. -/
def passed (location : Location) : List Text → List Location
  | [] => [location]
  | step :: more =>
    location :: passed (stepFrom location step) more

/-- Where a path starts. -/
def start (disk : Disk) (path : Path) : Location :=
  if path.isAbsolute then [] else disk.workingDirectory

/-- The location of what is at a path. -/
def locate (disk : Disk) (path : Path) : Except DiskFault Location :=
  if path.text.isEmpty then .error .missing
  else
    (disk.walk (disk.start path) path.steps).bind fun location =>
      match disk.entry? location with
      | none => .error .missing
      | some (.file _) => if path.endsInSlash then .error .notDirectory else .ok location
      | some .directory => .ok location

/-- The directory that a path's last step starts from, and that step. There is no step
for a path without steps. -/
def approach (disk : Disk) (path : Path) : Except DiskFault (Location × Option Text) :=
  if path.text.isEmpty then .error .missing
  else
    match path.steps.getLast? with
    | none => .ok (disk.start path, none)
    | some last =>
      (disk.walk (disk.start path) path.steps.dropLast).bind fun location =>
        match disk.directoryFault? location with
        | some fault => .error fault
        | none => .ok (location, some last)

/-- Whether there is a directory at a path. -/
def isDirectory (disk : Disk) (path : Path) : Bool :=
  match disk.locate path with
  | .ok location => (disk.directoryFault? location).isNone
  | .error _ => false

/-- The locations on the way along a path. -/
def route (disk : Disk) (path : Path) : List Location :=
  passed (disk.start path) path.steps

end Disk

end VariantClasses
