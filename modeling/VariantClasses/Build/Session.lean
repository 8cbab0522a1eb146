import VariantClasses.Build.Basic
import VariantClasses.Build.Report
import VariantClasses.Gitignore
import VariantClasses.Transform

/-! # A build at work

The steps of a build: a file is transformed, written and recorded, or passed through as
it is when that fails; then the artifact and the `.gitignore` next to it are brought up
to date.
-/

namespace VariantClasses

/-- A build at work: the build, the disk, and what was said. -/
structure Session where
  build : Build
  disk : Disk
  notices : List Notice
  deriving DecidableEq

namespace Session

def writeWithParents (disk : Disk) (path : Path) (text : Text) : Disk × Except Failure Unit :=
  match disk.makeDirectories path.directory with
  | (made, .error fault) => (made, .error (.disk path.directory fault))
  | (made, .ok ()) =>
    match made.write path text.encode with
    | .error fault => (made, .error (.disk path fault))
    | .ok written => (written, .ok ())

def readSource (disk : Disk) (path : Path) : Except Failure Text :=
  match disk.read path with
  | .error fault => .error (.disk path fault)
  | .ok bytes =>
    match Text.decode? bytes with
    | none => .error (.notUtf8 path)
    | some text => .ok text

/-- Writes the text of a file to the output directory, if there is one. -/
def writeOutput (disk : Disk) (output : Option Path) (file : Path) (text : Text) :
    Disk × Except Failure Unit :=
  match output with
  | none => (disk, .ok ())
  | some directory => writeWithParents disk (directory.join file) text

/-- Transforms one file, writes it if there is an output directory, and records its
classes. -/
def transformOne (session : Session) (root file : Path) (output : Option Path) :
    Session × Except Failure FileStatus :=
  match readSource session.disk (root.join file) with
  | .error failure => (session, .error failure)
  | .ok text =>
    let result := transformFile session.build.options file text
    let (disk, outcome) := writeOutput session.disk output file result.code
    let notices := session.notices ++ result.warnings.map Notice.warning
    match outcome with
    | .error failure => (⟨session.build, disk, notices⟩, .error failure)
    | .ok () =>
      let registry := session.build.registry.record file result.variants.toList
      (⟨{ session.build with registry }, disk, notices⟩,
        .ok (if result.changed then .transformed else .unchanged))

/-- Copies a file as it is, and says so when that cannot be done. -/
def passThrough (session : Session) (source target : Path) : Session :=
  let (made, room) := session.disk.makeDirectories target.directory
  match room.bind fun _ => made.copy source target with
  | .ok copied => { session with disk := copied }
  | .error fault =>
    { session with
      disk := made
      notices := session.notices ++ [.notCopied source target fault] }

/-- Transforms one file, or passes it through when that fails. -/
def visit (session : Session) (root file : Path) (output : Option Path) : Session × FileStatus :=
  match session.transformOne root file output with
  | (session, .ok status) => (session, status)
  | (session, .error failure) =>
    let session := { session with notices := session.notices ++ [.leftUnmodified failure file] }
    match output with
    | none => (session, .failed)
    | some directory => (session.passThrough (root.join file) (directory.join file), .failed)

def visitAll (session : Session) (root : Path) (output : Option Path) :
    List Path → Session × List (Path × FileStatus)
  | [] => (session, [])
  | file :: more =>
    let (session, status) := session.visit root file output
    let (session, seen) := visitAll session root output more
    (session, (file, status) :: seen)

def syncArtifact (session : Session) : Session × Except Failure Unit :=
  let ((writer, disk), outcome) := session.build.writer.sync session.disk session.build.registry
  ({ session with build := { session.build with writer }, disk }, outcome.map fun _ => ())

/-- Lists the artifact in the `.gitignore` next to it, if the options ask for it. -/
def ignoreArtifact (session : Session) : Session × Except Failure Unit :=
  let path := session.build.writer.path
  match session.build.options.gitignore, path.fileName? with
  | true, some name =>
    let directory := if path.directory.text.isEmpty then ⟨Path.here⟩ else path.directory
    let (disk, outcome) := Gitignore.ensure session.disk directory name
    ({ session with disk }, outcome.map fun _ => ())
  | _, _ => (session, .ok ())

def summarise (seen : List (Path × FileStatus)) (classes : Nat) : Summary :=
  let count (status : FileStatus) : Nat := seen.countP fun visit => visit.2 == status
  ⟨count .transformed, count .unchanged, count .failed, classes⟩

end Session

end VariantClasses
