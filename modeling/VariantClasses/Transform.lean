import VariantClasses.Expand
import VariantClasses.Merge
import VariantClasses.Options

/-! # Transforming a file

A file's modified attributes are expanded, then its runs are merged. The classes
that it names are collected from the text as it was.
-/

namespace VariantClasses

structure Transformed where
  code : Text
  /-- Every class that the text names. -/
  classes : ClassSet
  /-- The recorded classes of modified attributes. -/
  variants : ClassSet
  /-- Whether `code` differs from the text. -/
  changed : Bool
  warnings : List Warning
  deriving DecidableEq

/-- Transforms a text in a dialect. -/
def transform (options : Options) (dialect : Dialect) (text : Text) : Transformed :=
  let name := dialect.attributeName
  let plain := Pattern.plain name.text
  let modified := Pattern.modified name.text
  let expanded := expand options.maxDepth modified name.text ∅ text
  let merged := merge name expanded.text
  { code := merged.text
    classes := (collect options.maxDepth plain modified text).all
    variants := expanded.produced
    changed := merged.text != text
    warnings := merged.warnings }

def transformFile (options : Options) (path : Path) (text : Text) : Transformed :=
  transform options (options.dialectFor path) text

end VariantClasses
