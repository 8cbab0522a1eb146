import VariantClasses.ClassSet
import VariantClasses.Path
import VariantClasses.SortedMap

/-! # The registry of a build

The classes recorded for the files of a build, together and by file. The classes of
a file accumulate until the file is forgotten.
-/

namespace VariantClasses

/-- The recorded classes of a build. -/
structure Registry where
  /-- Every recorded class. -/
  classes : ClassSet
  /-- What each file contributed, by the components of the file's path. -/
  files : SortedMap (List Text) ClassSet
  deriving DecidableEq

namespace Registry

def empty : Registry := ⟨∅, ∅⟩

instance : Inhabited Registry := ⟨empty⟩

/-- What a file contributed. -/
def contribution (registry : Registry) (path : Path) : ClassSet :=
  (registry.files.find? path.components).getD ∅

def size (registry : Registry) : Nat :=
  registry.classes.size

def fileCount (registry : Registry) : Nat :=
  registry.files.size

def contains (registry : Registry) (class_ : Text) : Bool :=
  registry.classes.contains class_

/-- Adds classes to what a file contributed. -/
def record (registry : Registry) (path : Path) (classes : List Text) : Registry where
  classes := registry.classes.insertAll classes
  files :=
    registry.files.insert path.components ((registry.contribution path).insertAll classes)

/-- Takes back what a file contributed; a class that another file contributed stays. -/
def forget (registry : Registry) (path : Path) : Registry :=
  if registry.files.contains path.components then
    let files := registry.files.erase path.components
    ⟨ClassSet.ofList (files.values.flatMap ClassSet.toList), files⟩
  else registry

/-- Whether recording the classes adds one that was not recorded. -/
def recordGrows (registry : Registry) (path : Path) (classes : List Text) : Bool :=
  (registry.record path classes).size != registry.size

/-- Whether forgetting the file takes back a class. -/
def forgetShrinks (registry : Registry) (path : Path) : Bool :=
  (registry.forget path).size != registry.size

end Registry

end VariantClasses
