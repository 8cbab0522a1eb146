import VariantClasses.Text

/-! # Path patterns

A pattern is a text in which `?` stands for one character, `*` for any characters,
`[...]` for one character of a set and `[!...]` for one outside it, and `**`, alone
between slashes, for any directories. A slash is a character like any other.
-/

namespace VariantClasses

/-- One member of a character set. -/
inductive GlobRange
  | one (c : Char)
  /-- The characters from `low` to `high`, both included. -/
  | span (low high : Char)
  deriving DecidableEq

/-- Whether a member of a character set holds a character. -/
def GlobRange.holds (c : Char) : GlobRange → Bool
  | .one member => c == member
  | .span low high => decide (low ≤ c) && decide (c ≤ high)

/-- One element of a pattern. -/
inductive GlobToken
  | literal (c : Char)
  | anyChar
  | anySequence
  /-- Any directories, with the slash behind them. -/
  | anyDirectories
  | within (members : List GlobRange)
  | outside (members : List GlobRange)
  deriving DecidableEq

/-- A compiled pattern. -/
structure Glob where
  tokens : List GlobToken
  deriving DecidableEq

/-- Why a text is no pattern. -/
inductive GlobFault
  /-- Three or more stars in a row. -/
  | tooManyStars
  /-- `**` with something beside it other than a slash. -/
  | notAComponent
  /-- A character set without an end. -/
  | openSet
  deriving DecidableEq

/-- A text that is no pattern: what is wrong, and near which character. -/
structure GlobError where
  position : Nat
  fault : GlobFault
  deriving DecidableEq

/-- What is wrong with a text that is no pattern. -/
def GlobFault.message : GlobFault → String
  | .tooManyStars => "wildcards are either regular `*` or recursive `**`"
  | .notAComponent => "recursive wildcards must form a single path component"
  | .openSet => "invalid range pattern"

/-- The message about a text that is no pattern. -/
def GlobError.message (error : GlobError) : String :=
  "Pattern syntax error near position " ++ toString error.position ++ ": " ++ error.fault.message

namespace Glob

/-- The members that the inside of a set lists: `x-y` is a range, any other character
stands for itself. -/
def ranges : Text → List GlobRange
  | low :: '-' :: high :: rest => .span low high :: ranges rest
  | c :: rest => .one c :: ranges rest
  | [] => []

/-- The inside of a set, behind its opening mark: the first member whatever it is, and
the rest up to the next `]`; and what follows. -/
def setBody? : Text → Option (Text × Text)
  | [] => none
  | first :: rest => (Text.upTo? ']' rest).map fun (body, after) => (first :: body, after)

/-- A character set behind its `[`, and what follows it. -/
def set? : Text → Option (GlobToken × Text)
  | '!' :: rest => (setBody? rest).map fun (body, after) => (.outside (ranges body), after)
  | text => (setBody? text).map fun (body, after) => (.within (ranges body), after)

theorem length_lt_of_upTo? {stop : Char} {text before after : Text}
    (h : Text.upTo? stop text = some (before, after)) : after.length < text.length := by
  rw [Text.eq_append_of_upTo? h]
  simp only [List.length_append, List.length_cons]
  omega

theorem length_lt_of_setBody? {text body after : Text}
    (h : setBody? text = some (body, after)) : after.length < text.length := by
  cases text with
  | nil => simp [setBody?] at h
  | cons first rest =>
    obtain ⟨⟨inner, tail⟩, hinner, hpair⟩ := Option.map_eq_some_iff.mp h
    obtain ⟨rfl, rfl⟩ := Prod.mk.inj hpair
    exact Nat.lt_succ_of_lt (length_lt_of_upTo? hinner)

theorem length_lt_of_set? {text after : Text} {token : GlobToken}
    (h : set? text = some (token, after)) : after.length < text.length := by
  unfold set? at h
  split at h <;>
  · obtain ⟨⟨body, tail⟩, hbody, hpair⟩ := Option.map_eq_some_iff.mp h
    obtain ⟨rfl, rfl⟩ := Prod.mk.inj hpair
    have := length_lt_of_setBody? hbody
    simp only [List.length_cons] at *
    omega

/-- Whether `**` may follow: at the start of a pattern and behind a slash. -/
def opensComponent : Option Char → Bool
  | none => true
  | some c => c == '/'

/-- Puts `**` in front of the tokens; a row of them is one. -/
def consDirectories : List GlobToken → List GlobToken
  | .anyDirectories :: rest => .anyDirectories :: rest
  | rest => .anyDirectories :: rest

/-- The tokens of a pattern from a position on, `before` being the character before
it. The first fault from the left is the one reported. -/
def tokensFrom (position : Nat) (before : Option Char) :
    (text : Text) → Except GlobError (List GlobToken)
  | [] => .ok []
  | '*' :: rest =>
    match rest with
    | '*' :: '*' :: _ => .error ⟨position + 2, .tooManyStars⟩
    | '*' :: after =>
      if !opensComponent before then .error ⟨position - 1, .notAComponent⟩
      else
        match after with
        | [] => .ok [.anyDirectories]
        | '/' :: behind =>
          (tokensFrom (position + 3) (some '/') behind).map consDirectories
        | _ :: _ => .error ⟨position + 2, .notAComponent⟩
    | after => (tokensFrom (position + 1) (some '*') after).map (.anySequence :: ·)
  | '?' :: rest => (tokensFrom (position + 1) (some '?') rest).map (.anyChar :: ·)
  | '[' :: rest =>
    match _h : set? rest with
    | none => .error ⟨position, .openSet⟩
    | some (token, after) =>
      (tokensFrom (position + (rest.length - after.length) + 1) (some ']') after).map (token :: ·)
  | c :: rest => (tokensFrom (position + 1) (some c) rest).map (.literal c :: ·)
termination_by text => text.length
decreasing_by
  all_goals simp only [List.length_cons]
  all_goals first
    | omega
    | exact Nat.lt_succ_of_lt (length_lt_of_set? _h)

/-- Compiles a pattern. -/
def ofText (text : Text) : Except GlobError Glob :=
  (tokensFrom 0 none text).map Glob.mk

end Glob

end VariantClasses
