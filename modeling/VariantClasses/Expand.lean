import VariantClasses.Ascending.Distinct
import VariantClasses.Collect

/-! # Expanding modified attributes

Every modified attribute with a modifier becomes a plain, double-quoted attribute
that lists the variants of its value's tokens. A token ends at a space U+0020;
other blanks stay inside it.
-/

namespace VariantClasses

/-- The tokens of a value. -/
def tokens (value : Text) : List Text :=
  ((value.splitOn ' ').map Text.trim).filter (!·.isEmpty)

/-- Whether a token stands between single quotes. -/
def isSingleQuoted (token : Text) : Bool :=
  2 ≤ token.length && token.head? == some '\'' && token.getLast? == some '\''

/-- Whether the variant `class_` of `token` is recorded. A class that ends in `:` comes
from a malformed token, and a single-quoted token holds stray quotes; their variants
are written all the same. -/
def isRecorded (class_ token : Text) : Bool :=
  class_.getLast? != some ':' && !isSingleQuoted token

/-- The variants of an attribute's tokens, each with its token, as they are produced. -/
def Attribute.produced (depth : Nat) (attr : Attribute) : List (Text × Text) :=
  (tokens attr.quotedText).flatMap fun token =>
    (variants depth attr.modifiers token).map fun class_ => (class_, token)

/-- The classes that an expanded attribute lists: each once, where it is first produced. -/
def Attribute.writtenClasses (depth : Nat) (attr : Attribute) : List Text :=
  distinct ((attr.produced depth).map Prod.fst)

/-- The classes of an expanded attribute that are recorded. -/
def Attribute.recordedClasses (depth : Nat) (attr : Attribute) : List Text :=
  ((attr.produced depth).filter fun (class_, token) => isRecorded class_ token).map Prod.fst

/-- A plain attribute with a double-quoted value. -/
def doubleQuoted (name body : Text) : Text :=
  name ++ "=\"".toList ++ body ++ ['"']

/-- What an occurrence becomes: an attribute `name` in its place, or itself if no
modifier goes with it. -/
def Occurrence.expanded (depth : Nat) (name : Text) (found : Occurrence) : Text :=
  if found.attr.modifiers.isEmpty then found.written
  else
    found.lead ++
      doubleQuoted name (Text.joinWith [' '] (found.attr.writtenClasses depth))

/-- The recorded classes of an occurrence. -/
def Occurrence.recordedClasses (depth : Nat) (found : Occurrence) : List Text :=
  if found.attr.modifiers.isEmpty then [] else found.attr.recordedClasses depth

/-- A text with its modified attributes expanded. -/
structure Expanded where
  text : Text
  /-- The recorded classes. -/
  produced : ClassSet
  deriving DecidableEq

/-- Expands the attributes of a pattern to attributes called `name`, and adds the
recorded classes to `produced`. -/
def expand (depth : Nat) (modified : Pattern) (name : Text) (produced : ClassSet)
    (text : Text) : Expanded where
  text := modified.reader.replaceAll (Occurrence.expanded depth name) text
  produced :=
    produced.insertAll ((modified.occurrences text).flatMap (Occurrence.recordedClasses depth))

end VariantClasses
