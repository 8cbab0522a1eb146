import VariantClasses.Attribute.Name
import VariantClasses.Attribute.Run
import VariantClasses.Expression

/-! # Merging neighbouring attributes

A run becomes one attribute: the static texts are joined in order, and at most one
expression survives, the last call or else the first expression that is not empty.
-/

namespace VariantClasses

/-- What one attribute of a run contributes. -/
inductive Share
  /-- Text known without running a program. -/
  | literal (text : Text)
  /-- A call expression. -/
  | call (expression : Text)
  /-- An expression that is neither a call nor a template literal. -/
  | other (expression : Text)

/-- What a value contributes to a run, blanks around it aside. -/
def Value.share : Value → Share
  | .double body | .single body => .literal body.trim
  | .braced body =>
    match templateBody? body with
    | some template => .literal template.trim
    | none => if isCall body.trim then .call body.trim else .other body.trim

/-- The static texts of a run that are not empty, in order. -/
def staticTexts (shares : List Share) : List Text :=
  shares.filterMap fun
    | .literal text => if text.isEmpty then none else some text
    | _ => none

def calls (shares : List Share) : List Text :=
  shares.filterMap fun
    | .call expression => some expression
    | _ => none

/-- The expressions of a run that are no calls and not empty, in order. -/
def otherExpressions (shares : List Share) : List Text :=
  shares.filterMap fun
    | .other expression => if expression.isEmpty then none else some expression
    | _ => none

/-- Something worth a message that does not stop the work. -/
inductive Warning
  /-- A call expression in which no parenthesis closes. -/
  | unclosedCall (expression : Text)
  /-- Attributes that are not merged because their name is not a plain one. -/
  | notMerged (name : Text)
  deriving DecidableEq

def Warning.message : Warning → Text
  | .unclosedCall expression =>
    "no closing parenthesis in `".toList ++ expression ++
      "`, combining as a template literal".toList
  | .notMerged name => "not merging attributes: ".toList ++ invalidNameMessage name

def expressionAttribute (name expression : Text) : Text :=
  name ++ '=' :: '\x7b' :: (expression ++ ['\x7d'])

/-- The attribute that holds merged static text. Interpolations stay alive in a template
literal only, and only there can both kinds of quote stand. -/
def staticAttribute (name classes : Text) : Text :=
  let double := classes.contains '"'
  if Text.includes interpolation classes || (double && classes.contains '\'') then
    expressionAttribute name (templateLiteral classes)
  else if double then name ++ "='".toList ++ classes ++ ['\'']
  else name ++ "=\"".toList ++ classes ++ ['"']

/-- A template literal of static text and an expression. -/
def interpolated (static expression : Text) : Text :=
  templateLiteral (static ++ ' ' :: interpolation ++ expression ++ ['\x7d'])

/-- The attribute that the contributions to a run merge to, or nothing when they are all
empty. -/
def mergeShares (name : Text) (shares : List Share) : Option Text × List Warning :=
  let static := Text.joinWith [' '] (staticTexts shares)
  let withStatic (expression : Text) : Text :=
    expressionAttribute name (interpolated static expression)
  if (staticTexts shares).isEmpty then
    (((calls shares).getLast?.or (otherExpressions shares).head?).map (expressionAttribute name),
      [])
  else
    match (calls shares).getLast?, (otherExpressions shares).head? with
    | some call, _ =>
      match injectArgument? call static with
      | some injected => (some (expressionAttribute name injected), [])
      | none => (some (withStatic call), [.unclosedCall call])
    | none, some expression => (some (withStatic expression), [])
    | none, none => (some (staticAttribute name static), [])

/-- The names that are merged under a name: itself and its alias. -/
def AttributeName.mergedNames (name : AttributeName) : List Text :=
  name.text :: ((aliasOf? name.text).map text).toList

/-- What a run is replaced by. The lead goes with a run that leaves nothing. -/
def mergeRun (name : AttributeName) (run : Run) : Text × List Warning :=
  let found := (attributeReader name.mergedNames).findAll run.written
  match mergeShares name.text (found.map fun attr => attr.value.share) with
  | (some merged, warnings) => (run.lead ++ merged, warnings)
  | (none, warnings) => ([], warnings)

structure Merged where
  text : Text
  warnings : List Warning
  deriving DecidableEq

/-- Merges the runs of a name and its alias. -/
def merge (name : AttributeName) (text : Text) : Merged where
  text := (runReader name.mergedNames).replaceAll (fun run => (mergeRun name run).1) text
  warnings :=
    ((runReader name.mergedNames).findAll text).flatMap fun run => (mergeRun name run).2

/-- Merges the runs of the name that `name` is; a text that is no plain name merges
nothing. -/
def mergeNamed (name text : Text) : Merged :=
  match AttributeName.ofText? name with
  | some name => merge name text
  | none => ⟨text, [.notMerged name]⟩

end VariantClasses
