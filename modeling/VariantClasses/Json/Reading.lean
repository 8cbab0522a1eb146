import VariantClasses.Text

/-! # Reading JSON

A reader takes one part of a JSON text off its front and returns what follows, which is
shorter (`Rest`). The first problem from the left is the one reported, and it is of one
of three kinds (`Fault`).
-/

namespace VariantClasses.Json

/-- Why a text cannot be read. -/
inductive Fault
  /-- The text ends too early. -/
  | ended
  /-- The text is not JSON. -/
  | malformed
  /-- A value of the wrong type, or a field given twice. -/
  | mistyped
  deriving DecidableEq

/-- What follows some part of a text. -/
abbrev Rest (text : Text) := { rest : Text // rest.length < text.length }

/-- What follows the first character. -/
def Rest.ofTail (c : Char) (rest : Text) : Rest (c :: rest) :=
  ⟨rest, Nat.lt_succ_self _⟩

/-- What follows a part of a text, in the text with one character before it. -/
def Rest.behind (c : Char) {text : Text} (rest : Rest text) : Rest (c :: text) :=
  ⟨rest.1, Nat.lt_succ_of_lt rest.2⟩

/-- What follows a part of the end of a text. -/
def Rest.widen {inner outer : Text} (h : inner.length ≤ outer.length) (rest : Rest inner) :
    Rest outer :=
  ⟨rest.1, Nat.lt_of_lt_of_le rest.2 h⟩

/-- What a reader returns: the fault it meets, or a value and what follows it. -/
abbrev Reading (α : Type) (text : Text) := Except Fault (α × Rest text)

/-- A reading of a text as one of the text with one character before it. -/
def Reading.behind {α : Type} (c : Char) {text : Text} (reading : Reading α text) :
    Reading α (c :: text) :=
  reading.map fun (x, rest) => (x, rest.behind c)

/-- A reading of the end of a text as one of the whole text. -/
def Reading.widen {α : Type} {inner outer : Text} (h : inner.length ≤ outer.length)
    (reading : Reading α inner) : Reading α outer :=
  reading.map fun (x, rest) => (x, rest.widen h)

/-- Whether `c` may stand between the parts of a JSON text. -/
def isBlank (c : Char) : Bool :=
  c == ' ' || c == '\t' || c == '\n' || c == '\r'

/-- The text without the blanks at its front. -/
def skipBlanks (text : Text) : Text :=
  text.dropWhile isBlank

theorem length_dropWhile_le (p : Char → Bool) (text : Text) :
    (text.dropWhile p).length ≤ text.length :=
  (List.dropWhile_sublist p).length_le

theorem length_skipBlanks_le (text : Text) : (skipBlanks text).length ≤ text.length :=
  length_dropWhile_le isBlank text

theorem length_lt_of_skipBlanks {text rest : Text} {c : Char} (h : skipBlanks text = c :: rest) :
    rest.length < text.length :=
  Nat.lt_of_lt_of_le (h ▸ Nat.lt_add_one rest.length) (length_skipBlanks_le text)

/-- Reads one character and the given letters behind it. -/
def word : (letters text : Text) → Except Fault (Rest text)
  | [], c :: rest => .ok (Rest.ofTail c rest)
  | l :: letters, c :: d :: rest =>
    if d = l then (word letters (d :: rest)).map (Rest.behind c)
    else .error .malformed
  | _, _ => .error .ended

end VariantClasses.Json
