import VariantClasses.Json.Skip
import VariantClasses.Json.Typed
import VariantClasses.Options

/-! # Configuration files

Options are written as a JSON object. A field that is missing keeps its default, an
unknown field is passed over, and a known field may stand once. They may also be
written as an array of the fields' values in order, from which the last may be
missing.
-/

namespace VariantClasses

namespace Configuration

open Json

/-- A field of the configuration. -/
inductive Field
  | maxDepth
  | extensions
  | jsxExtensions
  | ignore
  | artifact
  | gitignore
  deriving DecidableEq

/-- The fields in the order in which an array gives them. -/
def fields : List Field :=
  [.maxDepth, .extensions, .jsxExtensions, .ignore, .artifact, .gitignore]

/-- The name of a field in a file. -/
def Field.name : Field → Text
  | .maxDepth => "maxModifierDepth".toList
  | .extensions => "extensions".toList
  | .jsxExtensions => "jsxExtensions".toList
  | .ignore => "ignore".toList
  | .artifact => "artifact".toList
  | .gitignore => "gitignore".toList

/-- The field of a name. -/
def Field.ofName? (name : Text) : Option Field :=
  fields.find? fun field => field.name == name

/-- Reads the value of a field into the options. -/
def Field.read (field : Field) (options : Options) (text : Text) : Except Fault (Options × Text) :=
  match field with
  | .maxDepth => (natural text).map fun (x, rest) => ({ options with maxDepth := x }, rest)
  | .extensions => (strings text).map fun (x, rest) => ({ options with extensions := x }, rest)
  | .jsxExtensions =>
    (strings text).map fun (x, rest) => ({ options with jsxExtensions := x }, rest)
  | .ignore => (strings text).map fun (x, rest) => ({ options with ignore := x }, rest)
  | .artifact =>
    (quotedString text).map fun (x, rest) => ({ options with artifact := ⟨x⟩ }, rest.1)
  | .gitignore => (boolean text).map fun (x, rest) => ({ options with gitignore := x }, rest)

/-- Reads the colon behind a field's name. -/
def colon (text : Text) : Except Fault Text :=
  match skipBlanks text with
  | [] => .error .ended
  | ':' :: rest => .ok rest
  | _ => .error .malformed

/-- Reads one field behind the quote that opens its name. `given` lists the fields that
came before. -/
def oneField (given : List Field) (options : Options) (text : Text) :
    Except Fault ((List Field × Options) × Text) :=
  match string text with
  | .error fault => .error fault
  | .ok (name, ⟨rest, _⟩) =>
    match Field.ofName? name with
    | some field =>
      if given.contains field then .error .mistyped
      else
        (colon rest).bind fun value =>
          (field.read options value).map fun (options, after) => ((field :: given, options), after)
    | none =>
      (colon rest).bind fun value => (skipValue value).map fun after => ((given, options), after)

/-- Reads the fields of an object behind the quote that opens a name, up to the end of
the object. Each of the first `limit` fields is read; an object has fewer fields than
characters. -/
def fieldsFrom (limit : Nat) (given : List Field) (options : Options) (text : Text) :
    Except Fault (Options × Text) :=
  match limit with
  | 0 => .error .ended
  | limit + 1 =>
    (oneField given options text).bind fun ((given, options), after) =>
      match skipBlanks after with
      | [] => .error .ended
      | '\x7d' :: rest => .ok (options, rest)
      | ',' :: rest =>
        match skipBlanks rest with
        | [] => .error .ended
        | '"' :: name => fieldsFrom limit given options name
        | _ => .error .malformed
      | _ => .error .malformed

/-- Reads an object behind its opening brace. -/
def object (text : Text) : Except Fault (Options × Text) :=
  match skipBlanks text with
  | [] => .error .ended
  | '\x7d' :: rest => .ok ({}, rest)
  | '"' :: name => fieldsFrom text.length [] {} name
  | _ => .error .malformed

/-- Reads the values of fields up to the end of an array, the first one included. -/
def valuesFrom (options : Options) : List Field → Text → Except Fault (Options × Text)
  | [], text => .ok (options, text)
  | field :: more, text =>
    (field.read options text).bind fun (options, after) =>
      match skipBlanks after with
      | [] => .error .ended
      | ']' :: rest => .ok (options, rest)
      | ',' :: rest =>
        match more, skipBlanks rest with
        | [], _ => .error .malformed
        | _, [] => .error .ended
        | _, ']' :: _ => .error .malformed
        | more, value => valuesFrom options more value
      | _ => .error .malformed

/-- Reads an array behind its opening bracket. -/
def array (text : Text) : Except Fault (Options × Text) :=
  match skipBlanks text with
  | [] => .error .ended
  | ']' :: rest => .ok ({}, rest)
  | value => valuesFrom {} fields value

/-- The options that a configuration file holds. -/
def read (text : Text) : Except Fault Options :=
  let found : Except Fault (Options × Text) :=
    match skipBlanks text with
    | [] => .error .ended
    | '\x7b' :: rest => object rest
    | '[' :: rest => array rest
    | other => .error (wrongType other)
  found.bind fun (options, rest) =>
    if (skipBlanks rest).isEmpty then .ok options else .error .malformed

end Configuration

end VariantClasses
