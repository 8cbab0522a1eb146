import VariantClasses.Text

/-! # Paths

A path is kept as it is spelled, since messages show it so and ignore patterns are
matched against the spelling. Two paths are the same when their components are:
repeated and trailing slashes and `.` are no components, except that a path may
start with `.`; `..` is kept.
-/

namespace VariantClasses

/-- A path as it is spelled. -/
structure Path where
  text : Text
  deriving DecidableEq, Inhabited

namespace Path

def ofString (spelling : String) : Path := ⟨spelling.toList⟩

def toString (path : Path) : String := String.ofList path.text

/-- The component that stands for the place a relative path starts from. -/
def here : Text := ['.']

/-- The component that stands for the directory above. -/
def up : Text := ['.', '.']

/-- The component that stands for the top directory. -/
def top : Text := ['/']

def isAbsolute (path : Path) : Bool :=
  path.text.head? == some '/'

/-- The pieces of the spelling between slashes. -/
def pieces (path : Path) : List Text :=
  path.text.splitOn '/'

/-- Whether the piece at a position is a component. -/
def isComponent (position : Nat) (piece : Text) : Bool :=
  !piece.isEmpty && (piece != here || position == 0)

/-- The pieces that are components, each with its position. -/
def namedPieces (path : Path) : List (Text × Nat) :=
  path.pieces.zipIdx.filter fun (piece, position) => isComponent position piece

/-- The components, a top directory spelled as a slash. Paths are compared by this
list. -/
def components (path : Path) : List Text :=
  (if path.isAbsolute then [top] else []) ++ path.namedPieces.map Prod.fst

def fileName? (path : Path) : Option Text :=
  (path.namedPieces.getLast?.map Prod.fst).filter fun name => name != here && name != up

/-- What follows the last dot of the last component; a dot at its front does not
count. -/
def extension? (path : Path) : Option Text :=
  path.fileName?.bind fun name =>
    (name.upToLast? '.').bind fun (stem, extension) =>
      if stem.isEmpty then none else some extension

/-- The paths without the last component, without the last two, and so on. The last of
them is the top directory, or the empty path if the path is relative. -/
def above (path : Path) : List Path :=
  if path.namedPieces.isEmpty then []
  else
    (path.namedPieces.dropLast.reverse.map fun (_, position) =>
      ⟨Text.joinWith ['/'] (path.pieces.take (position + 1))⟩) ++
      [⟨if path.isAbsolute then top else []⟩]

/-- The path without its last component. The top directory and the empty path have
none. -/
def parent? (path : Path) : Option Path :=
  path.above.head?

/-- The directory that a path lies in, which is the empty path when the path has no
parent. -/
def directory (path : Path) : Path :=
  path.parent?.getD ⟨[]⟩

/-- The path that `other` is from the directory `base`. -/
def join (base other : Path) : Path :=
  if other.isAbsolute then other
  else if base.text.isEmpty || base.text.getLast? == some '/' then ⟨base.text ++ other.text⟩
  else ⟨base.text ++ '/' :: other.text⟩

/-- The relative path with the given components. -/
def ofNames (names : List Text) : Path :=
  ⟨Text.joinWith ['/'] names⟩

end Path

end VariantClasses
