import VariantClasses.Glob

/-! # Matching paths

A pattern matches a whole path text. What matching means is said by trying every text
that a token can stand for (`matchesTokens`). That can take very long, so matching works
token by token from the last, and keeps at which ends of the text the tokens so far match;
this comes to the same (`accepts_eq_matchesTokens`).
-/

namespace VariantClasses

namespace Glob

/-- The ends of a text: the text, the text without its first character, and so on. -/
def ends : Text → List Text
  | [] => [[]]
  | c :: rest => (c :: rest) :: ends rest

/-- What may follow a slash in a text. -/
def afterSlashes : Text → List Text
  | [] => []
  | c :: rest => if c = '/' then rest :: afterSlashes rest else afterSlashes rest

/-- What may follow any directories at the front of a text: all of it, what follows a
slash, or nothing. -/
def afterDirectories (text : Text) : List Text :=
  text :: (afterSlashes text ++ [[]])

/-- Whether one character can stand for a token. -/
def holdsToken (c : Char) : GlobToken → Bool
  | .literal member => c == member
  | .anyChar => true
  | .within members => members.any (GlobRange.holds c)
  | .outside members => !members.any (GlobRange.holds c)
  | .anySequence | .anyDirectories => false

/-- Whether tokens match a whole text. -/
def matchesTokens : List GlobToken → Text → Bool
  | [], text => text.isEmpty
  | .anySequence :: tokens, text => (ends text).any (matchesTokens tokens)
  | .anyDirectories :: tokens, text => (afterDirectories text).any (matchesTokens tokens)
  | _ :: _, [] => false
  | token :: tokens, c :: rest => holdsToken c token && matchesTokens tokens rest

/-! ## Matching at all ends at once

The answers at the ends of a text are listed in the order of the ends. -/

/-- The answers with one character more in front, `holds` saying which may stand there. -/
def behindOne (holds : Char → Bool) : Text → List Bool → List Bool
  | c :: rest, _ :: answers => (holds c && answers.headD false) :: behindOne holds rest answers
  | _, _ => [false]

/-- The answers with any characters in front. -/
def behindAny : List Bool → List Bool
  | [] => []
  | answer :: more =>
    let later := behindAny more
    (answer || later.headD false) :: later

/-- The answers with some characters and a slash in front. -/
def behindSlash : Text → List Bool → List Bool
  | c :: rest, _ :: answers =>
    let later := behindSlash rest answers
    ((c == '/' && answers.headD false) || later.headD false) :: later
  | _, _ => [false]

/-- The answers with a token in front. -/
def behindToken (text : Text) (answers : List Bool) : GlobToken → List Bool
  | .anySequence => behindAny answers
  | .anyDirectories =>
    (answers.zip (behindSlash text answers)).map fun (here, later) =>
      here || (later || answers.getLastD false)
  | token => behindOne (holdsToken · token) text answers

/-- At which ends of a text the tokens match. -/
def matchesEnds (tokens : List GlobToken) (text : Text) : List Bool :=
  tokens.foldr (fun token answers => behindToken text answers token) ((ends text).map List.isEmpty)

/-- Whether the pattern matches a path as it is spelled. -/
def accepts (glob : Glob) (path : Text) : Bool :=
  (matchesEnds glob.tokens path).headD false

theorem headD_map_ends (p : Text → Bool) (text : Text) :
    ((ends text).map p).headD false = p text := by
  cases text <;> rfl

theorem getLastD_map_ends (p : Text → Bool) (text : Text) :
    ((ends text).map p).getLastD false = p [] := by
  induction text with
  | nil => rfl
  | cons c rest ih =>
    cases rest with
    | nil => rfl
    | cons d more => exact ih

theorem behindOne_map_ends (holds : Char → Bool) (p : Text → Bool) (text : Text) :
    behindOne holds text ((ends text).map p) =
      (ends text).map fun
        | [] => false
        | c :: rest => holds c && p rest := by
  induction text with
  | nil => rfl
  | cons c rest ih =>
    simp only [ends, List.map_cons, behindOne, headD_map_ends, ih]

theorem behindAny_map_ends (p : Text → Bool) (text : Text) :
    behindAny ((ends text).map p) = (ends text).map fun rest => (ends rest).any p := by
  induction text with
  | nil => simp [ends, behindAny]
  | cons c rest ih =>
    simp only [ends, List.map_cons, behindAny, ih, headD_map_ends, List.any_cons]

theorem behindSlash_map_ends (p : Text → Bool) (text : Text) :
    behindSlash text ((ends text).map p) =
      (ends text).map fun rest => (afterSlashes rest).any p := by
  induction text with
  | nil => rfl
  | cons c rest ih =>
    simp only [ends, List.map_cons, behindSlash, ih, headD_map_ends, afterSlashes]
    by_cases hc : c = '/' <;> simp [hc]

theorem behindToken_map_ends (token : GlobToken) (tokens : List GlobToken) (text : Text) :
    behindToken text ((ends text).map (matchesTokens tokens)) token =
      (ends text).map (matchesTokens (token :: tokens)) := by
  cases token with
  | anySequence => exact behindAny_map_ends _ _
  | anyDirectories =>
    simp only [behindToken, behindSlash_map_ends, getLastD_map_ends, List.zip_map', List.map_map]
    apply List.map_congr_left
    intro rest _
    simp [matchesTokens, afterDirectories]
  | _ =>
    refine (behindOne_map_ends _ _ _).trans (List.map_congr_left fun rest _ => ?_)
    cases rest <;> rfl

theorem matchesEnds_eq (tokens : List GlobToken) (text : Text) :
    matchesEnds tokens text = (ends text).map (matchesTokens tokens) := by
  induction tokens with
  | nil => rfl
  | cons token tokens ih => rw [← behindToken_map_ends, ← ih]; rfl

/-- Matching at all ends at once comes to trying every text that a token can stand for. -/
theorem accepts_eq_matchesTokens (glob : Glob) (path : Text) :
    glob.accepts path = matchesTokens glob.tokens path := by
  rw [accepts, matchesEnds_eq, headD_map_ends]

end Glob

end VariantClasses
