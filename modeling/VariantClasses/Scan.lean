import VariantClasses.Text.Blank

/-! # Scanning a text

A reader recognises something at the front of a text. Scanning goes through a text
from left to right: where the reader recognises something, that is one piece and
the scan goes on behind it; elsewhere one character is a piece. The pieces spell
the text (`Reader.cut_written`).
-/

namespace VariantClasses

/-- Recognises values of type `α` in texts. -/
structure Reader (α : Type) where
  /-- What is at the front of a text, and what follows it. The flag says that
  nothing precedes the text. -/
  read? : (atStart : Bool) → Text → Option (α × Text)
  /-- The characters that a recognised value stands for. -/
  written : α → Text
  eq_append : ∀ {atStart text x rest}, read? atStart text = some (x, rest) →
    text = written x ++ rest
  written_ne_nil : ∀ {atStart text x rest}, read? atStart text = some (x, rest) →
    written x ≠ []

/-- One piece of a scanned text. -/
inductive Piece (α : Type)
  /-- A character where nothing was recognised. -/
  | other (c : Char)
  /-- Something recognised. -/
  | found (x : α)
  deriving DecidableEq

def Piece.found? {α : Type} : Piece α → Option α
  | .other _ => none
  | .found x => some x

namespace Reader

variable {α : Type} (reader : Reader α)

theorem length_lt {atStart : Bool} {text rest : Text} {x : α}
    (h : reader.read? atStart text = some (x, rest)) : rest.length < text.length := by
  have hpos := List.length_pos_iff.mpr (reader.written_ne_nil h)
  rw [reader.eq_append h, List.length_append]
  omega

/-- The pieces of a text. -/
def cut (atStart : Bool) : Text → List (Piece α)
  | [] => []
  | c :: after =>
    match _h : reader.read? atStart (c :: after) with
    | some (x, rest) => .found x :: cut false rest
    | none => .other c :: cut false after
termination_by text => text.length
decreasing_by
  · exact reader.length_lt _h
  · simp

/-- What a scan of the whole text recognises, from left to right. -/
def findAll (text : Text) : List α :=
  (reader.cut true text).filterMap Piece.found?

/-- The text with everything recognised in it replaced. -/
def replaceAll (replacement : α → Text) (text : Text) : Text :=
  (reader.cut true text).flatMap fun
    | .other c => [c]
    | .found x => replacement x

/-- The characters that a piece stands for. -/
def pieceWritten : Piece α → Text
  | .other c => [c]
  | .found x => reader.written x

/-- The pieces of a text spell the text. -/
theorem cut_written (atStart : Bool) (text : Text) :
    (reader.cut atStart text).flatMap reader.pieceWritten = text := by
  fun_induction reader.cut atStart text with
  | case1 => rfl
  | case2 atStart c after x rest h ih =>
    rw [List.flatMap_cons, ih, pieceWritten, ← reader.eq_append h]
  | case3 atStart c after h ih =>
    rw [List.flatMap_cons, ih]
    rfl

end Reader

end VariantClasses
