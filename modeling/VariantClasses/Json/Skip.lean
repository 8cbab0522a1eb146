import VariantClasses.Json.Number
import VariantClasses.Json.Strings

/-! # Passing over JSON values

A value that nobody wants is passed over. Only its grammar is checked, to any depth; the
opened values are kept on a stack.
-/

namespace VariantClasses.Json

/-- What an opened value is. -/
inductive Frame
  | array
  | object

/-- The mark that closes a value. -/
def Frame.close : Frame → Char
  | .array => ']'
  | .object => '\x7d'

/-- Passes over a word, a number or a string. -/
def skipScalar (text : Text) : Except Fault (Rest text) :=
  match text with
  | [] => .error .ended
  | '"' :: rest => (skipString rest).map (Rest.behind '"')
  | c :: rest =>
    if c = 'n' then word "ull".toList (c :: rest)
    else if c = 't' then word "rue".toList (c :: rest)
    else if c = 'f' then word "alse".toList (c :: rest)
    else if c = '-' ∨ c.isDigit then
      match number (c :: rest) with
      | .ok (_, after) => .ok after
      | .error _ => .error .malformed
    else .error .malformed

/-- Passes over a field's name and the colon behind it. -/
def skipName (text : Text) : Except Fault (Rest text) :=
  match h : skipBlanks text with
  | [] => .error .ended
  | '"' :: rest =>
    have hrest := length_lt_of_skipBlanks h
    match skipString rest with
    | .error fault => .error fault
    | .ok ⟨after, hafter⟩ =>
      match hcolon : skipBlanks after with
      | [] => .error .ended
      | ':' :: behind =>
        .ok ⟨behind, Nat.lt_trans (length_lt_of_skipBlanks hcolon) (Nat.lt_trans hafter hrest)⟩
      | _ => .error .malformed
  | _ => .error .malformed

mutual

/-- Passes over a value inside opened ones, and over what is left of those. -/
def skipInside (frames : List Frame) (text : Text) : Except Fault Text :=
  match h : skipBlanks text with
  | [] => .error .ended
  | c :: rest =>
    have hrest := length_lt_of_skipBlanks h
    if c = '[' then
      match hinner : skipBlanks rest with
      | [] => .error .ended
      | d :: after =>
        if d = ']' then
          have := Nat.lt_trans (length_lt_of_skipBlanks hinner) hrest
          skipClosings frames after
        else skipInside (.array :: frames) rest
    else if c = '\x7b' then
      match hinner : skipBlanks rest with
      | [] => .error .ended
      | d :: after =>
        if d = '\x7d' then
          have := Nat.lt_trans (length_lt_of_skipBlanks hinner) hrest
          skipClosings frames after
        else
          match skipName rest with
          | .error fault => .error fault
          | .ok ⟨value, _⟩ => skipInside (.object :: frames) value
    else
      match skipScalar (c :: rest) with
      | .error fault => .error fault
      | .ok ⟨after, hafter⟩ =>
        have := Nat.lt_of_lt_of_le hafter (h ▸ length_skipBlanks_le text)
        skipClosings frames after
termination_by text.length

/-- Passes over what is left of opened values behind one of their members. -/
def skipClosings (frames : List Frame) (text : Text) : Except Fault Text :=
  match frames with
  | [] => .ok text
  | frame :: outer =>
    match h : skipBlanks text with
    | [] => .error .ended
    | c :: rest =>
      have := length_lt_of_skipBlanks h
      if c = frame.close then skipClosings outer rest
      else if c = ',' then
        match frame with
        | .array => skipInside (.array :: outer) rest
        | .object =>
          match skipName rest with
          | .error fault => .error fault
          | .ok ⟨value, _⟩ => skipInside (.object :: outer) value
      else .error .malformed
termination_by text.length

end

/-- Passes over a value, of which only the grammar is checked. -/
def skipValue (text : Text) : Except Fault Text :=
  skipInside [] text

end VariantClasses.Json
