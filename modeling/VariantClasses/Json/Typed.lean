import VariantClasses.Json.Number
import VariantClasses.Json.Strings

/-! # JSON values of a known type

A value of another type than the one wanted is a fault of its own, unless the value is
no JSON in the first place.
-/

namespace VariantClasses.Json

/-- What is wrong with a value that is not of the type wanted: another problem may come
first. -/
def wrongType (text : Text) : Fault :=
  let faultOf {α : Type} : Except Fault α → Fault
    | .error fault => fault
    | .ok _ => .mistyped
  match text with
  | [] => .ended
  | '"' :: rest => faultOf (string rest)
  | c :: rest =>
    if c = 'n' then faultOf (word "ull".toList (c :: rest))
    else if c = 't' then faultOf (word "rue".toList (c :: rest))
    else if c = 'f' then faultOf (word "alse".toList (c :: rest))
    else if c = '-' ∨ c.isDigit then
      match number (c :: rest) with
      | .error fault => fault
      | .ok (found, _) => if found.isFinite then .mistyped else .malformed
    else if c = '[' ∨ c = '\x7b' then .mistyped
    else .malformed

/-- Reads a natural number of 64 bits. -/
def natural (text : Text) : Except Fault (Nat × Text) :=
  match skipBlanks text with
  | [] => .error .ended
  | c :: rest =>
    if c.isDigit then
      match number (c :: rest) with
      | .error fault => .error fault
      | .ok (found, after) =>
        match found.natural? with
        | some value => .ok (value, after.1)
        | none => .error (if found.isFinite then .mistyped else .malformed)
    else .error (wrongType (c :: rest))

/-- Reads a truth value. -/
def boolean (text : Text) : Except Fault (Bool × Text) :=
  match skipBlanks text with
  | [] => .error .ended
  | c :: rest =>
    if c = 't' then (word "rue".toList (c :: rest)).map fun after => (true, after.1)
    else if c = 'f' then (word "alse".toList (c :: rest)).map fun after => (false, after.1)
    else .error (wrongType (c :: rest))

/-- Reads a string with its quotes. -/
def quotedString (text : Text) : Reading Text text :=
  match h : skipBlanks text with
  | [] => .error .ended
  | '"' :: rest =>
    (string rest).widen (Nat.le_of_lt (length_lt_of_skipBlanks h))
  | c :: rest => .error (wrongType (c :: rest))

/-- Reads strings up to the end of an array, the first one included. -/
def stringsFrom (text : Text) : Except Fault (List Text × Text) :=
  match quotedString text with
  | .error fault => .error fault
  | .ok (first, ⟨after, hafter⟩) =>
    match h : skipBlanks after with
    | [] => .error .ended
    | c :: rest =>
      have := Nat.lt_trans (length_lt_of_skipBlanks h) hafter
      if c = ']' then .ok ([first], rest)
      else if c = ',' then
        match skipBlanks rest with
        | [] => .error .ended
        | d :: _ =>
          if d = ']' then .error .malformed
          else (stringsFrom rest).map fun (more, behind) => (first :: more, behind)
      else .error .malformed
termination_by text.length

/-- Reads an array of strings. -/
def strings (text : Text) : Except Fault (List Text × Text) :=
  match skipBlanks text with
  | [] => .error .ended
  | '[' :: rest =>
    match skipBlanks rest with
    | [] => .error .ended
    | ']' :: after => .ok ([], after)
    | inner => stringsFrom inner
  | c :: rest => .error (wrongType (c :: rest))

end VariantClasses.Json
