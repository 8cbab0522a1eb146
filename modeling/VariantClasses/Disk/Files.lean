import VariantClasses.Disk.Route
import VariantClasses.Text.Encoding

/-! # Files and directories on a disk

Every operation is a function from a disk to a disk, and says why when it cannot be
done.
-/

namespace VariantClasses

namespace Disk

/-! ## Reading -/

/-- The bytes of the file at a path. -/
def read (disk : Disk) (path : Path) : Except DiskFault ByteArray :=
  (disk.locate path).bind fun location =>
    match disk.entry? location with
    | some (.file bytes) => .ok bytes
    | some .directory => .error .isDirectory
    | none => .error .missing

/-- The text of the file at a path. -/
def readText (disk : Disk) (path : Path) : Except DiskFault Text :=
  (disk.read path).bind fun bytes =>
    match Text.decode? bytes with
    | some text => .ok text
    | none => .error .notText

/-- The files below the directory at a path, as names on the way from there, in order. -/
def filesBelow (disk : Disk) (root : Path) : List (List Text) :=
  match disk.locate root with
  | .error _ => []
  | .ok location =>
    disk.entries.entries.filterMap fun (other, entry) =>
      match entry, location.isPrefixOf? other with
      | .file _, some (name :: names) => some (name :: names)
      | _, _ => none

/-! ## Writing -/

/-- Where a file written at a path goes. -/
def destination (disk : Disk) (path : Path) : Except DiskFault Location :=
  (disk.approach path).bind fun
    | (_, none) => .error .isDirectory
    | (location, some last) =>
      if last = Path.here ∨ last = Path.up ∨ path.endsInSlash then .error .isDirectory
      else
        match disk.entry? (location ++ [last]) with
        | some .directory => .error .isDirectory
        | _ => .ok (location ++ [last])

/-- Writes a file, in place of one that is there. -/
def write (disk : Disk) (path : Path) (bytes : ByteArray) : Except DiskFault Disk :=
  (disk.destination path).map fun location => disk.put location (.file bytes)

/-- A way to write files: what is left then, and why that failed if it did. -/
abbrev Store := Disk → Path → ByteArray → Disk × Except DiskFault Unit

/-- Writes a file where the disk shows no reason against it. -/
def store : Store := fun disk path bytes =>
  match disk.write path bytes with
  | .error fault => (disk, .error fault)
  | .ok written => (written, .ok ())

/-- Makes a directory in one that is there. -/
def makeDirectory (disk : Disk) (path : Path) : Except DiskFault Disk :=
  (disk.approach path).bind fun
    | (_, none) => .error .occupied
    | (location, some last) =>
      if last = Path.here ∨ last = Path.up ∨ (disk.entry? (location ++ [last])).isSome then
        .error .occupied
      else .ok (disk.put (location ++ [last]) .directory)

/-- Makes the first of some directories, each of which lies in the next, and those of
the others that are missing. What was made before a fault stays. -/
def makeChain (disk : Disk) : List Path → Disk × Except DiskFault Unit
  | [] => (disk, .ok ())
  | path :: above =>
    let settled (disk : Disk) (fault : DiskFault) : Disk × Except DiskFault Unit :=
      (disk, if disk.isDirectory path then .ok () else .error fault)
    if path.text.isEmpty then (disk, .ok ())
    else
      match disk.makeDirectory path with
      | .ok made => (made, .ok ())
      | .error .missing =>
        match makeChain disk above with
        | (made, .error fault) => (made, .error fault)
        | (made, .ok ()) =>
          match made.makeDirectory path with
          | .ok made => (made, .ok ())
          | .error fault => settled made fault
      | .error fault => settled disk fault

/-- Makes the directory at a path and those above it, unless they are there. -/
def makeDirectories (disk : Disk) (path : Path) : Disk × Except DiskFault Unit :=
  disk.makeChain (path :: path.above)

/-- Copies a file. A file copied onto itself is emptied, since it is opened for writing
before anything is read. -/
def copy (disk : Disk) (source target : Path) : Except DiskFault Disk :=
  (disk.locate source).bind fun location =>
    match disk.entry? location with
    | some (.file bytes) =>
      (disk.destination target).map fun other =>
        disk.put other (.file (if other = location then ByteArray.empty else bytes))
    | _ => .error .notAFile

end Disk

end VariantClasses
