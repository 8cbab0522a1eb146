import VariantClasses.Artifact
import VariantClasses.Failure
import VariantClasses.Registry

/-! # Keeping the artifact up to date

A writer remembers the document that it last wrote, and writes again only when the
document differs. A write that fails is forgotten, so the next one is tried.
-/

namespace VariantClasses

/-- Writes the artifact at one path. -/
structure ArtifactWriter where
  path : Path
  /-- The document of the last write, unless that failed. -/
  written : Option Text
  deriving DecidableEq

namespace ArtifactWriter

def new (path : Path) : ArtifactWriter := ⟨path, none⟩

def write (writer : ArtifactWriter) (disk : Disk) (document : Text) :
    (ArtifactWriter × Disk) × Except Failure Unit :=
  match disk.makeDirectories writer.path.directory with
  | (made, .error fault) => ((writer, made), .error (.disk writer.path.directory fault))
  | (made, .ok ()) =>
    match made.write writer.path document.encode with
    | .error fault => ((⟨writer.path, none⟩, made), .error (.disk writer.path fault))
    | .ok written => ((⟨writer.path, some document⟩, written), .ok ())

/-- Writes the document of a registry if it differs from the last one written, and says
whether it did. -/
def sync (writer : ArtifactWriter) (disk : Disk) (registry : Registry) :
    (ArtifactWriter × Disk) × Except Failure Bool :=
  let document := renderArtifact registry.classes
  if writer.written = some document then ((writer, disk), .ok false)
  else
    let (state, outcome) := writer.write disk document
    (state, outcome.map fun _ => true)

def forceWrite (writer : ArtifactWriter) (disk : Disk) (registry : Registry) :
    (ArtifactWriter × Disk) × Except Failure Unit :=
  writer.write disk (renderArtifact registry.classes)

end ArtifactWriter

end VariantClasses
