import VariantClasses.Text

/-! # Variants of a class

A chain such as `sm:hover` lists modifiers. A class and a chain give the class
under the whole chain, `sm:hover:underline`, and, when the chain has more than one
modifier, the class under each of the first modifiers alone: `sm:underline` and
`hover:underline`.
-/

namespace VariantClasses

/-- How many modifiers of a chain are also used alone, unless a program says
otherwise. -/
def defaultDepth : Nat := 4

def modifiersOf (chain : Text) : List Text :=
  (chain.splitOn ':').filter (!·.isEmpty)

/-- `token` under the modifiers of `front`. -/
def underModifier (front token : Text) : Text :=
  front ++ ':' :: token

/-- The variants of `token` under a chain of modifiers: under all of them, then under
each of the first `depth` alone if there is more than one. -/
def variants (depth : Nat) (modifiers : List Text) (token : Text) : List Text :=
  underModifier (Text.joinWith [':'] modifiers) token ::
    if modifiers.length > 1 then (modifiers.take depth).map (underModifier · token) else []

end VariantClasses
