import VariantClasses.Attribute.Name
import VariantClasses.Path
import VariantClasses.Variants

/-! # Options

What can be configured, and the attribute name that a file's markup uses for
classes.
-/

namespace VariantClasses

/-- A markup convention, by its name for the class attribute. -/
inductive Dialect
  /-- `class`, as in HTML. -/
  | class_
  /-- `className`, as in JSX. -/
  | className
  deriving DecidableEq

def Dialect.attributeName : Dialect → AttributeName
  | .class_ => .class_
  | .className => .className

/-- The configuration of a build. -/
structure Options where
  /-- How many modifiers of a chain are also used alone. -/
  maxDepth : Nat := defaultDepth
  /-- The extensions of the files that are transformed. -/
  extensions : List Text :=
    ["svelte", "vue", "html", "astro", "jsx", "tsx"].map String.toList
  /-- The extensions of the files in the dialect `className`. -/
  jsxExtensions : List Text := ["jsx", "tsx"].map String.toList
  /-- Patterns of the paths that are never transformed. -/
  ignore : List Text :=
    ["**/node_modules/**", "**/.git/**", "**/dist/**"].map String.toList
  /-- Where the artifact is written. -/
  artifact : Path := .ofString "modifier-classes.html"
  /-- Whether the artifact is listed in the `.gitignore` next to it. -/
  gitignore : Bool := true
  deriving DecidableEq

def Text.asciiLower (text : Text) : Text :=
  text.map Char.toLower

def Options.dialectFor (options : Options) (path : Path) : Dialect :=
  match path.extension? with
  | some extension =>
    if options.jsxExtensions.any fun entry => entry.asciiLower == extension.asciiLower then
      .className
    else .class_
  | none => .class_

end VariantClasses
