import VariantClasses.Json.Reading

/-! # JSON strings

A string is read with its escapes; the halves of a surrogate pair come together. A
string that nobody wants is passed over, and there halves may stand alone.
-/

namespace VariantClasses.Json

/-- The value of a hexadecimal digit. -/
def hexDigit? (c : Char) : Option Nat :=
  if c.isDigit then some (c.toNat - '0'.toNat)
  else if 'a' ≤ c && c ≤ 'f' then some (c.toNat - 'a'.toNat + 10)
  else if 'A' ≤ c && c ≤ 'F' then some (c.toNat - 'A'.toNat + 10)
  else none

/-- The number that hexadecimal digits spell. -/
def hexValue? (digits : Text) : Option Nat :=
  digits.foldlM (fun value c => (hexDigit? c).map (value * 16 + ·)) 0

/-- Reads the four hexadecimal digits of an escape. The text has ended when fewer than
four bytes are left. -/
def hexEscape (text : Text) : Reading Nat text :=
  match text with
  | a :: b :: c :: d :: rest =>
    match hexValue? [a, b, c, d] with
    | some value => .ok (value, ⟨rest, Nat.lt_add_of_pos_right (Nat.succ_pos 3)⟩)
    | none => .error .malformed
  | short => if Text.byteLength short < 4 then .error .ended else .error .malformed

/-- The character that an escape of one letter stands for. -/
def letterEscape? (c : Char) : Option Char :=
  match c with
  | '"' | '\\' | '/' => some c
  | 'b' => some '\x08'
  | 'f' => some '\x0c'
  | 'n' => some '\n'
  | 'r' => some '\r'
  | 't' => some '\t'
  | _ => none

/-- Whether `unit` is the first half of a surrogate pair. -/
def isLeading (unit : Nat) : Bool :=
  0xD800 ≤ unit && unit < 0xDC00

/-- Whether `unit` is the second half of a surrogate pair. -/
def isTrailing (unit : Nat) : Bool :=
  0xDC00 ≤ unit && unit < 0xE000

/-- The character of a surrogate pair. -/
def pairChar (leading trailing : Nat) : Char :=
  Char.ofNat (0x10000 + (leading - 0xD800) * 0x400 + (trailing - 0xDC00))

/-- Reads the character of a `\u` escape behind the `u`. The halves of a pair come
together. -/
def unicodeEscape (text : Text) : Reading Char text :=
  match hexEscape text with
  | .error fault => .error fault
  | .ok (unit, ⟨rest, hrest⟩) =>
    if isTrailing unit then .error .malformed
    else if isLeading unit then
      match rest with
      | [] | ['\\'] => .error .ended
      | '\\' :: 'u' :: behind =>
        match hexEscape behind with
        | .error fault => .error fault
        | .ok (second, ⟨after, hafter⟩) =>
          if isTrailing second then
            .ok (pairChar unit second, ⟨after, Nat.lt_trans (Nat.lt_add_right 2 hafter) hrest⟩)
          else .error .malformed
      | _ => .error .malformed
    else .ok (Char.ofNat unit, ⟨rest, hrest⟩)

/-- Reads a string behind its opening quote. -/
def string (text : Text) : Reading Text text :=
  match text with
  | [] => .error .ended
  | '"' :: rest => .ok ([], Rest.ofTail '"' rest)
  | ['\\'] => .error .ended
  | '\\' :: 'u' :: rest =>
    match unicodeEscape rest with
    | .error fault => .error fault
    | .ok (c, ⟨after, hafter⟩) =>
      Reading.widen (Nat.le_of_lt (Nat.lt_add_right 2 hafter))
        ((string after).map fun (more, behind) => (c :: more, behind))
  | '\\' :: letter :: rest =>
    match letterEscape? letter with
    | none => .error .malformed
    | some c =>
      Reading.widen (Nat.le_add_right _ 2)
        ((string rest).map fun (more, behind) => (c :: more, behind))
  | c :: rest =>
    if c.toNat < 0x20 then .error .malformed
    else
      Reading.behind c
        ((string rest).map fun (more, behind) => (c :: more, behind))
termination_by text.length
decreasing_by
  · exact Nat.lt_add_right 2 hafter
  · exact Nat.lt_add_of_pos_right Nat.two_pos
  · exact Nat.lt_add_one _

/-- Passes over a string behind its opening quote. Halves of pairs may stand alone. -/
def skipString (text : Text) : Except Fault (Rest text) :=
  match text with
  | [] => .error .ended
  | '"' :: rest => .ok (Rest.ofTail '"' rest)
  | ['\\'] => .error .ended
  | '\\' :: 'u' :: rest =>
    match hexEscape rest with
    | .error fault => .error fault
    | .ok (_, ⟨after, hafter⟩) =>
      (skipString after).map (Rest.widen (Nat.le_of_lt (Nat.lt_add_right 2 hafter)))
  | '\\' :: letter :: rest =>
    if (letterEscape? letter).isNone then .error .malformed
    else (skipString rest).map (Rest.widen (Nat.le_add_right _ 2))
  | c :: rest =>
    if c.toNat < 0x20 then .error .malformed
    else (skipString rest).map (Rest.behind c)
termination_by text.length
decreasing_by
  · exact Nat.lt_add_right 2 hafter
  · exact Nat.lt_add_of_pos_right Nat.two_pos
  · exact Nat.lt_add_one _

end VariantClasses.Json
