import VariantClasses.Json.Double
import VariantClasses.Json.Reading

/-! # JSON numbers

A number is read as its parts. It is a natural number of 64 bits when it has no sign,
point or exponent and is small enough. Any other number is taken in double precision, and
is out of range when it is not finite there.
-/

namespace VariantClasses.Json

/-- The parts of a number. -/
structure Number where
  negative : Bool
  /-- The digits before the point. -/
  whole : Text
  /-- The digits behind the point, if there is one. -/
  fraction : Option Text
  /-- The sign and digits of the exponent, if there is one. -/
  exponent : Option (Bool × Text)

/-- Reads one or more digits. -/
def digits (text : Text) : Reading Text text :=
  match text with
  | [] => .error .ended
  | c :: rest =>
    if c.isDigit then
      .ok (c :: rest.takeWhile Char.isDigit,
        ⟨rest.dropWhile Char.isDigit, Nat.lt_succ_of_le (length_dropWhile_le _ _)⟩)
    else .error .malformed

/-- Reads the digits before the point; a zero at their front stands alone. -/
def wholeDigits (text : Text) : Reading Text text :=
  match text with
  | '0' :: rest =>
    if rest.head?.any Char.isDigit then .error .malformed
    else .ok (['0'], Rest.ofTail '0' rest)
  | text => digits text

/-- Reads the digits behind a point, if the text starts with one. -/
def fractionDigits (text : Text) :
    Except Fault (Option Text × { rest : Text // rest.length ≤ text.length }) :=
  match text with
  | '.' :: rest =>
    (digits rest).map fun (found, after) =>
      (some found, ⟨after.1, Nat.le_succ_of_le (Nat.le_of_lt after.2)⟩)
  | text => .ok (none, ⟨text, Nat.le_refl _⟩)

/-- Reads an exponent, if the text starts with one. -/
def exponentDigits (text : Text) :
    Except Fault (Option (Bool × Text) × { rest : Text // rest.length ≤ text.length }) :=
  match text with
  | c :: rest =>
    if c = 'e' ∨ c = 'E' then
      let signed := rest.head? = some '+' ∨ rest.head? = some '-'
      let unsigned := if signed then rest.drop 1 else rest
      have hunsigned : unsigned.length ≤ rest.length := by
        simp only [unsigned]
        split <;> simp
      (digits unsigned).map fun (found, after) =>
        (some (rest.head? = some '-', found),
          ⟨after.1, by have := after.2; simp only [List.length_cons]; omega⟩)
    else .ok (none, ⟨c :: rest, Nat.le_refl _⟩)
  | [] => .ok (none, ⟨[], Nat.le_refl _⟩)

/-- Reads a number without its sign. -/
def unsignedNumber (negative : Bool) (text : Text) : Reading Number text :=
  match wholeDigits text with
  | .error fault => .error fault
  | .ok (whole, ⟨rest, hrest⟩) =>
    match fractionDigits rest with
    | .error fault => .error fault
    | .ok (fraction, ⟨rest', hrest'⟩) =>
      (exponentDigits rest').map fun (exponent, after) =>
        (⟨negative, whole, fraction, exponent⟩,
          ⟨after.1, by have := after.2; omega⟩)

/-- Reads a number. -/
def number (text : Text) : Reading Number text :=
  match text with
  | '-' :: rest => (unsignedNumber true rest).behind '-'
  | text => unsignedNumber false text

/-- The number that decimal digits spell. -/
def decimal (digits : Text) : Nat :=
  digits.foldl (fun value c => value * 10 + (c.toNat - '0'.toNat)) 0

/-- A significand of 64 bits with the power of ten that it is taken times. -/
structure Scaled where
  significand : Nat
  power : Int
  deriving DecidableEq

/-- Puts digits behind those of a significand, up to the first with which it would not fit
64 bits, and returns the digits that are left. -/
def appendDigits (significand : Nat) : Text → Nat × Text
  | [] => (significand, [])
  | c :: rest =>
    let more := significand * 10 + (c.toNat - '0'.toNat)
    if more < UInt64.size then appendDigits more rest else (significand, c :: rest)

/-- The power of ten that the exponent gives. -/
def Number.exponentPower (number : Number) : Int :=
  match number.exponent with
  | some (true, digits) => -(decimal digits : Int)
  | some (false, digits) => decimal digits
  | none => 0

/-- The number with the digits that fit a significand. Left out digits before the point
count by their places only, and left out digits behind it not at all. -/
def Number.scaled (number : Number) : Scaled :=
  let fraction := number.fraction.getD []
  let (whole, wholeLeft) := appendDigits 0 number.whole
  let (significand, fractionLeft) := appendDigits whole fraction
  let places : Int := fraction.length - fractionLeft.length
  ⟨significand, wholeLeft.length + number.exponentPower - places⟩

/-- Whether the number is finite in double precision. The significand and the power of ten
are rounded before they are multiplied, and a power above 10³⁰⁸ is never finite. -/
def Number.isFinite (number : Number) : Bool :=
  let scaled := number.scaled
  scaled.significand == 0 || scaled.power < 0 ||
    (scaled.power ≤ 308 &&
      nearestDouble scaled.significand * nearestDouble (Nat.pow 10 scaled.power.toNat) <
        doubleLimit)

/-- The natural number of 64 bits that the number spells, without point, exponent or
sign. -/
def Number.natural? (number : Number) : Option Nat :=
  if number.negative || number.fraction.isSome || number.exponent.isSome then none
  else if decimal number.whole < UInt64.size then some (decimal number.whole)
  else none

end VariantClasses.Json
