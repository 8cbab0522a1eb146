import VariantClasses.Text
import VariantClasses.Text.Quoted

/-! # Attribute names

A plain attribute name is an ASCII letter or `_`, then ASCII letters, digits, `_`
and `-`. Two markup conventions name the class attribute `class` and `className`;
each is the other's alias.
-/

namespace VariantClasses

def startsName (c : Char) : Bool :=
  c.isAlpha || c == '_'

/-- Whether `c` can stand in a plain attribute name behind its first character. -/
def continuesName (c : Char) : Bool :=
  c.isAlphanum || c == '_' || c == '-'

def isAttributeName : Text → Bool
  | [] => false
  | c :: rest => startsName c && rest.all continuesName

def invalidNameMessage (text : Text) : Text :=
  "Invalid attribute name: ".toList ++ text.quoted

/-- A plain attribute name. -/
structure AttributeName where
  text : Text
  plain : isAttributeName text = true
  deriving DecidableEq

namespace AttributeName

def ofText? (text : Text) : Option AttributeName :=
  if plain : isAttributeName text = true then some ⟨text, plain⟩ else none

/-- The name that HTML uses for classes. -/
def class_ : AttributeName := ⟨"class".toList, by decide⟩

/-- The name that JSX uses for classes. -/
def className : AttributeName := ⟨"className".toList, by decide⟩

/-- The name that the other convention uses for the same purpose. -/
def aliasOf? (name : Text) : Option AttributeName :=
  if name = class_.text then some className
  else if name = className.text then some class_
  else none

end AttributeName

end VariantClasses
