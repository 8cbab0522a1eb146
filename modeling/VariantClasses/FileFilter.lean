import VariantClasses.Glob.Matching
import VariantClasses.Options

/-! # Which files are transformed

A file is transformed when its extension is listed and no ignore pattern matches its
path. Extensions are compared without regard to ASCII case, and a listed extension
may start with dots.
-/

namespace VariantClasses

/-- The listed extensions, in lower case and without leading dots, and the compiled
ignore patterns. -/
structure FileFilter where
  extensions : List Text
  ignore : List Glob
  deriving DecidableEq

/-- The form in which a listed extension is compared. -/
def listedExtension (entry : Text) : Text :=
  Text.asciiLower (entry.dropWhile (· == '.'))

namespace FileFilter

/-- The filter for listed extensions and ignore patterns. The first text that is no
pattern is reported. -/
def new (extensions ignore : List Text) : Except GlobError FileFilter :=
  (ignore.mapM Glob.ofText).map fun globs => ⟨extensions.map listedExtension, globs⟩

/-- The filter that options ask for. -/
def ofOptions (options : Options) : Except GlobError FileFilter :=
  new options.extensions options.ignore

/-- Whether the file at a path is transformed. -/
def accepts (filter : FileFilter) (path : Path) : Bool :=
  match path.extension? with
  | none => false
  | some extension =>
    filter.extensions.contains extension.asciiLower &&
      !filter.ignore.any fun glob => glob.accepts path.text

end FileFilter

end VariantClasses
