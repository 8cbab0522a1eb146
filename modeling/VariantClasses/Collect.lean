import VariantClasses.Attribute.Occurrence
import VariantClasses.ClassSet
import VariantClasses.Expression
import VariantClasses.Variants

/-! # The classes that a text names

A plain attribute names the words of its value. The value of a braced attribute
counts when it is a template literal, and then up to the first interpolation. A
modified attribute names the variants of the words of its value.
-/

namespace VariantClasses

/-- The classes that a text names. -/
structure Collected where
  /-- The classes of all attributes. -/
  all : ClassSet
  /-- The classes of modified attributes. -/
  variants : ClassSet
  deriving DecidableEq

/-- The part of a value that is known without running a program. -/
def Value.literal? : Value → Option Text
  | .double body | .single body => some body
  | .braced body => (templateBody? body).map Text.beforeInterpolation

def Attribute.plainClasses (attr : Attribute) : List Text :=
  (attr.value.literal?.map Text.words).getD []

def Attribute.modifiers (attr : Attribute) : List Text :=
  (attr.chain.map modifiersOf).getD []

/-- The text of an attribute's value if it is quoted, and no text otherwise. -/
def Attribute.quotedText (attr : Attribute) : Text :=
  attr.value.quotedBody?.getD []

def Attribute.variantClasses (depth : Nat) (attr : Attribute) : List Text :=
  if attr.modifiers.isEmpty then []
  else attr.quotedText.words.flatMap (VariantClasses.variants depth attr.modifiers)

/-- The classes that the attributes of two patterns name in a text. -/
def collect (depth : Nat) (plain modified : Pattern) (text : Text) : Collected :=
  let variantClasses :=
    (modified.occurrences text).flatMap fun found => found.attr.variantClasses depth
  let plainClasses := (plain.occurrences text).flatMap fun found => found.attr.plainClasses
  { all := ClassSet.ofList (plainClasses ++ variantClasses)
    variants := ClassSet.ofList variantClasses }

end VariantClasses
