import VariantClasses.CommandLine

/-! # The program

Loads the part of the disk that the arguments touch, runs the command line on it, and
writes back what has changed.
-/

namespace VariantClasses.Program

def spelled (location : Location) : String :=
  "/" ++ String.ofList (Text.joinWith ['/'] location)

/-- The location of the directory that the program is run in. -/
def workingDirectory : IO Location := do
  let here ← IO.currentDir
  return (Path.ofString here.toString).steps

def entryAt? (location : Location) : IO (Option Entry) := do
  let here ← IO.currentDir
  let place := here / spelled location
  if ← place.isDir then return some .directory
  if ← place.pathExists then return some (.file (← IO.FS.readBinFile place))
  return none

def namesIn (location : Location) : IO (List Text) := do
  let here ← IO.currentDir
  let found ← (here / spelled location).readDir
  return found.toList.map fun entry => entry.fileName.toList

/-- Adds what is at a location to a disk. -/
def load (disk : Disk) (location : Location) : IO Disk := do
  if location.isEmpty then return disk
  match ← entryAt? location with
  | some entry => return disk.put location entry
  | none => return disk

/-- Adds what is at a location and below it to a disk. -/
partial def loadTree (disk : Disk) (location : Location) : IO Disk := do
  match ← entryAt? location with
  | none => return disk
  | some (.file bytes) => return disk.put location (.file bytes)
  | some .directory =>
    let start := if location.isEmpty then disk else disk.put location .directory
    (← namesIn location).foldlM (fun disk name => loadTree disk (location ++ [name])) start

/-- Adds what a footprint names to a disk. -/
def loadFootprint (disk : Disk) (footprint : CommandLine.Footprint) : IO Disk := do
  let places := (footprint.paths ++ footprint.trees).flatMap disk.route
  let disk ← places.foldlM load disk
  let roots := footprint.trees.filterMap fun path => (disk.locate path).toOption
  roots.foldlM loadTree disk

def store (location : Location) : Entry → IO Unit
  | .directory => IO.FS.createDirAll (spelled location)
  | .file bytes => IO.FS.writeBinFile (spelled location) bytes

/-- All of standard input. -/
partial def readInput (input : IO.FS.Stream) (soFar : ByteArray) : IO ByteArray := do
  let more ← input.read 65536
  if more.isEmpty then return soFar else readInput input (soFar ++ more)

/-- The disk with what an invocation touches. -/
def loadFor (invocation : CommandLine.Invocation) (disk : Disk) : IO Disk := do
  let disk ← loadFootprint disk ⟨invocation.config.toList, []⟩
  match invocation.options disk with
  | .error _ => return disk
  | .ok options => loadFootprint disk (invocation.command.footprint options)

/-- Standard input, if an invocation reads it. -/
def inputFor (invocation : CommandLine.Invocation) : IO ByteArray := do
  match invocation.command with
  | .transformInput .. => readInput (← IO.getStdin) ByteArray.empty
  | _ => return ByteArray.empty

/-- Runs the command line on the real disk. -/
def run (arguments : List Text) : IO UInt32 := do
  let bare : Disk := ⟨∅, ← workingDirectory⟩
  let (disk, input) ←
    match CommandLine.parse arguments with
    | .error _ => pure (bare, ByteArray.empty)
    | .ok invocation => pure (← loadFor invocation bare, ← inputFor invocation)
  let before ← IO.monoNanosNow
  let outcome := CommandLine.run arguments disk input
  for (location, entry) in disk.entriesSince outcome.disk do
    store location entry
  let after ← IO.monoNanosNow
  IO.eprint (outcome.messages (CommandLine.elapsedText ((after - before) / 1000)))
  IO.print (String.ofList outcome.output)
  return UInt32.ofNat outcome.exitCode

end VariantClasses.Program

/-- Runs the program with its arguments. -/
def main (arguments : List String) : IO UInt32 :=
  VariantClasses.Program.run (arguments.map String.toList)
