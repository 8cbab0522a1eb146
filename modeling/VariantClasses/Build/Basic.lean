import VariantClasses.ArtifactWriter
import VariantClasses.FileFilter

/-! # Builds

A build holds the options, what is recorded and the writer of the artifact. Its sources
are the files of a tree that the filter accepts, without the artifact.
-/

namespace VariantClasses

structure Build where
  options : Options
  filter : FileFilter
  registry : Registry
  writer : ArtifactWriter
  deriving DecidableEq

namespace Build

def new (options : Options) : Except Failure Build :=
  match FileFilter.ofOptions options with
  | .error error => .error (.glob error)
  | .ok filter => .ok ⟨options, filter, .empty, .new options.artifact⟩

/-- The files below a root that are transformed, by their paths from there, in order. The
artifact is none of them. -/
def sources (build : Build) (disk : Disk) (root : Path) : List Path :=
  let artifact := (disk.locate build.writer.path).toOption
  let here := (disk.locate root).toOption.getD []
  ((disk.filesBelow root).filter fun names => artifact != some (here ++ names)).map
    Path.ofNames |>.filter build.filter.accepts

end Build

end VariantClasses
