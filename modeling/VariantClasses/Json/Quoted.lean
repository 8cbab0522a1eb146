import VariantClasses.Text

/-! # Writing JSON

The strings and values that are printed as JSON, without blanks.
-/

namespace VariantClasses.Json

/-- Two hexadecimal digits. -/
def hexPair (code : Nat) : Text :=
  let digit (value : Nat) : Char := (Nat.digitChar value)
  [digit (code / 16), digit (code % 16)]

/-- One character of a string. -/
def quotedChar (c : Char) : Text :=
  if c = '"' then "\\\"".toList
  else if c = '\\' then "\\\\".toList
  else if c = '\n' then "\\n".toList
  else if c = '\r' then "\\r".toList
  else if c = '\t' then "\\t".toList
  else if c = '\x08' then "\\b".toList
  else if c = '\x0c' then "\\f".toList
  else if c.toNat < 0x20 then "\\u00".toList ++ hexPair c.toNat
  else [c]

/-- A string with its quotes. -/
def quoted (text : Text) : Text :=
  '"' :: (text.flatMap quotedChar ++ ['"'])

/-- An array of strings. -/
def quotedArray (texts : List Text) : Text :=
  '[' :: (Text.joinWith [','] (texts.map quoted) ++ [']'])

/-- A truth value. -/
def spelledBool (value : Bool) : Text :=
  if value then "true".toList else "false".toList

/-- An object whose field values are written already. -/
def object (fields : List (Text × Text)) : Text :=
  '\x7b' :: (Text.joinWith [','] (fields.map fun (name, value) => quoted name ++ ':' :: value) ++
    ['\x7d'])

end VariantClasses.Json
