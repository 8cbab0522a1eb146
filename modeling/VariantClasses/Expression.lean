import VariantClasses.Text.Blank
import VariantClasses.Text.WordChar

/-! # Expressions in braced values

An expression is not parsed. It counts as a template literal when it stands between
backticks, and as a call when it starts with a dotted name and an opening
parenthesis.
-/

namespace VariantClasses

/-- The two characters that open an interpolation in a template literal. -/
def interpolation : Text := "$\x7b".toList

/-- The text before the first interpolation. -/
def Text.beforeInterpolation : Text → Text
  | [] => []
  | c :: rest =>
    if interpolation.isPrefixOf (c :: rest) then [] else c :: beforeInterpolation rest

/-- The text between the backticks of a template literal, blanks around it aside. -/
def templateBody? (expression : Text) : Option Text :=
  match expression.trim with
  | '`' :: rest => if rest.getLast? = some '`' then some rest.dropLast else none
  | _ => none

/-- Whether `c` can start the name of a called function. -/
def startsCallee (c : Char) : Bool :=
  c.isAlpha || c == '_' || c == '$'

/-- Whether `c` can stand in the name of a called function behind its first character. -/
def continuesCallee (c : Char) : Bool :=
  isWordChar c || c == '$' || c == '.'

/-- Whether an expression starts with a dotted name and, after blanks if any, an
opening parenthesis. -/
def isCall : Text → Bool
  | [] => false
  | c :: rest =>
    startsCallee c && ((rest.dropWhile continuesCallee).dropWhile isBlank).head? == some '('

/-- A template literal. -/
def templateLiteral (body : Text) : Text :=
  '`' :: (body ++ ['`'])

/-- What separates a new last argument from `front`, the text of the call before it. -/
def argumentSeparator (front : Text) : Text :=
  match front.getLast? with
  | some '(' => []
  | some ',' => [' ']
  | _ => [',', ' ']

/-- The call with a template literal as one more argument, before its last closing
parenthesis. There is none when no parenthesis closes after one opened. -/
def injectArgument? (call literal : Text) : Option Text :=
  (call.upToLast? ')').bind fun (before, after) =>
    if before.contains '(' then
      let front := before.trimEnd
      some (front ++ argumentSeparator front ++ templateLiteral literal ++ ')' :: after)
    else none

end VariantClasses
