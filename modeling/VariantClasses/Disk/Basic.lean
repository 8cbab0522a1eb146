import VariantClasses.Path
import VariantClasses.SortedMap

/-! # Disks

A disk is a tree of directories and files, as a map from locations to entries, with a
working directory. Names are texts, every file can be read, and there are neither links nor
permissions. Nor does a disk say how much room a device has left, so an operation can fail
where a disk shows no reason for it.
-/

namespace VariantClasses

/-- A place on a disk: the names on the way from the top directory. -/
abbrev Location := List Text

/-- What is at a place. -/
inductive Entry
  | file (bytes : ByteArray)
  | directory

instance : DecidableEq Entry
  | .file bytes, .file others =>
    if h : bytes.data = others.data then isTrue (congrArg Entry.file (ByteArray.ext h))
    else isFalse fun heq => h (congrArg ByteArray.data (Entry.file.inj heq))
  | .directory, .directory => isTrue rfl
  | .file _, .directory | .directory, .file _ => isFalse Entry.noConfusion

/-- A tree of directories and files. -/
structure Disk where
  /-- The entries below the top directory. -/
  entries : SortedMap Location Entry
  /-- Where relative paths start. -/
  workingDirectory : Location
  deriving DecidableEq

/-- Why an operation on a disk cannot be done. -/
inductive DiskFault
  | missing
  | occupied
  | notDirectory
  | isDirectory
  /-- A file that is read as text holds something else. -/
  | notText
  /-- A directory is to be copied. -/
  | notAFile
  /-- The device has no room left. -/
  | full
  deriving DecidableEq

/-- What is said about a fault. -/
def DiskFault.message : DiskFault → String
  | .missing => "No such file or directory (os error 2)"
  | .occupied => "File exists (os error 17)"
  | .notDirectory => "Not a directory (os error 20)"
  | .isDirectory => "Is a directory (os error 21)"
  | .notText => "stream did not contain valid UTF-8"
  | .notAFile => "the source path is neither a regular file nor a symlink to a regular file"
  | .full => "No space left on device (os error 28)"

namespace Disk

/-- The entry at a location. -/
def entry? (disk : Disk) (location : Location) : Option Entry :=
  if location = [] then some .directory else disk.entries.find? location

/-- The disk with an entry put at a location. -/
def put (disk : Disk) (location : Location) (entry : Entry) : Disk :=
  { disk with entries := disk.entries.insert location entry }

/-- The disk without a location and what is below it. -/
def remove (disk : Disk) (location : Location) : Disk :=
  { disk with entries := disk.entries.filter fun other _ => !location.isPrefixOf other }

/-- The entries of `after` that `before` has not. -/
def entriesSince (before after : Disk) : List (Location × Entry) :=
  after.entries.entries.filter fun (location, entry) => before.entries.find? location != some entry

end Disk

end VariantClasses
