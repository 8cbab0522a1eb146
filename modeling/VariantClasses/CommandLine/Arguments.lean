import VariantClasses.Options

/-! # Arguments of the command line

An option stands as `--name value` or `--name=value`, a flag as `--name`. Behind `--` no
option follows. Options that go with every command may stand before the command's name
or behind it; given in both places, the one behind it counts.
-/

namespace VariantClasses.CommandLine

/-- Why arguments are not accepted. -/
inductive UsageFault
  /-- An option, flag or word that is not known where it stands. -/
  | unknown
  /-- A command, an option or a value is missing. -/
  | missing
  /-- An option or flag is given twice at one place. -/
  | repeated
  /-- A value is not one of those the option takes. -/
  | invalid
  deriving DecidableEq

/-- An option or flag. -/
inductive Setting
  | config
  | maxDepth
  | noGitignore
  | stdin
  | json
  | dialect
  | outDir
  | artifact
  deriving DecidableEq

/-- The name of an option or flag, behind its two dashes. -/
def Setting.name : Setting → Text
  | .config => "config".toList
  | .maxDepth => "max-depth".toList
  | .noGitignore => "no-gitignore".toList
  | .stdin => "stdin".toList
  | .json => "json".toList
  | .dialect => "dialect".toList
  | .outDir => "out-dir".toList
  | .artifact => "artifact".toList

/-- Whether a value goes with it. -/
def Setting.takesValue : Setting → Bool
  | .noGitignore | .stdin | .json => false
  | _ => true

/-- A command of the program. -/
inductive Verb
  | transform
  | build
  | scan
  deriving DecidableEq

/-- The command of a name. -/
def Verb.ofName? (name : Text) : Option Verb :=
  if name = "rewrite".toList then some .transform
  else if name = "build".toList then some .build
  else if name = "scan".toList then some .scan
  else none

/-- The options and flags that go with every command. -/
def sharedSettings : List Setting := [.config, .maxDepth, .noGitignore]

/-- The options and flags that go with a command. -/
def Verb.settings : Verb → List Setting
  | .transform => sharedSettings ++ [.stdin, .json, .dialect]
  | .build => sharedSettings ++ [.outDir, .artifact]
  | .scan => sharedSettings ++ [.artifact]

/-- Arguments taken apart. -/
structure Parts where
  /-- The options and flags, each with its value. -/
  settings : List (Setting × Text)
  /-- The other arguments. -/
  words : List Text

/-- Whether an argument is taken for an option. A dash alone is a word. -/
def looksLikeOption (argument : Text) : Bool :=
  argument.head? == some '-' && argument.length > 1

/-- The name of an option, without its dashes, and the value behind an equals sign. -/
def splitOption (argument : Text) : Text × Option Text :=
  match Text.upTo? '=' (argument.drop 2) with
  | some (name, value) => (name, some value)
  | none => (argument.drop 2, none)

/-- Takes arguments apart, given the options and flags known there. With `leading` the
first word ends them, and it and the arguments behind it are the words. -/
def takeApart (known : List Setting) (leading : Bool) : List Text → Except UsageFault Parts
  | [] => .ok ⟨[], []⟩
  | argument :: more =>
    let withSetting (setting : Setting) (value : Text) (parts : Parts) : Parts :=
      ⟨(setting, value) :: parts.settings, parts.words⟩
    if argument = "--".toList then
      if leading then .error .missing else .ok ⟨[], more⟩
    else if looksLikeOption argument then
      let (name, inline) := splitOption argument
      if argument.take 2 != "--".toList then .error .unknown
      else
        match known.find? fun setting => setting.name == name with
        | none => .error .unknown
        | some setting =>
          match inline with
          | some value =>
            if setting.takesValue then
              (takeApart known leading more).map (withSetting setting value)
            else .error .invalid
          | none =>
            if setting.takesValue then
              match more with
              | [] => .error .missing
              | value :: behind =>
                if looksLikeOption value then .error .missing
                else (takeApart known leading behind).map (withSetting setting value)
            else (takeApart known leading more).map (withSetting setting [])
    else if leading then .ok ⟨[], argument :: more⟩
    else (takeApart known leading more).map fun parts => ⟨parts.settings, argument :: parts.words⟩

/-- The values that options and flags were given. -/
structure Values where
  config : Option Path := none
  maxDepth : Option Nat := none
  noGitignore : Option Unit := none
  stdin : Option Unit := none
  json : Option Unit := none
  dialect : Option Dialect := none
  outDir : Option Path := none
  artifact : Option Path := none

/-- A path given as a value; it is not empty. -/
def pathValue (text : Text) : Except UsageFault Path :=
  if text.isEmpty then .error .invalid else .ok ⟨text⟩

/-- A natural number of 64 bits given as a value, with or without a plus sign. -/
def naturalValue (text : Text) : Except UsageFault Nat :=
  let digits := if text.head? = some '+' then text.drop 1 else text
  let value := digits.foldl (fun value c => value * 10 + (c.toNat - '0'.toNat)) 0
  if digits.isEmpty || !digits.all Char.isDigit || UInt64.size ≤ value then .error .invalid
  else .ok value

/-- A dialect given as a value. -/
def dialectValue (text : Text) : Except UsageFault Dialect :=
  if text = "class".toList then .ok .class_
  else if text = "class-name".toList then .ok .className
  else .error .invalid

/-- The first value of a setting. -/
def once {α : Type} (given : Option α) (value : Except UsageFault α) :
    Except UsageFault (Option α) :=
  if given.isSome then .error .repeated else value.map some

/-- Adds the value of one setting. -/
def Values.add (values : Values) (setting : Setting) (value : Text) :
    Except UsageFault Values :=
  match setting with
  | .config => (once values.config (pathValue value)).map ({ values with config := · })
  | .maxDepth => (once values.maxDepth (naturalValue value)).map ({ values with maxDepth := · })
  | .noGitignore => (once values.noGitignore (.ok ())).map ({ values with noGitignore := · })
  | .stdin => (once values.stdin (.ok ())).map ({ values with stdin := · })
  | .json => (once values.json (.ok ())).map ({ values with json := · })
  | .dialect => (once values.dialect (dialectValue value)).map ({ values with dialect := · })
  | .outDir => (once values.outDir (pathValue value)).map ({ values with outDir := · })
  | .artifact => (once values.artifact (pathValue value)).map ({ values with artifact := · })

/-- The values of settings. -/
def Values.ofSettings (settings : List (Setting × Text)) : Except UsageFault Values :=
  settings.foldlM (fun values (setting, value) => values.add setting value) {}

/-- What a command works on. -/
inductive Command
  /-- Transforms standard input. -/
  | transformInput (json : Bool) (dialect : Option Dialect)
  /-- Transforms a file. -/
  | transformFile (file : Path) (json : Bool) (dialect : Option Dialect)
  /-- Transforms the files of a tree, and writes them to a directory if one is given. -/
  | transformTree (source : Path) (output : Option Path) (artifact : Option Path)

/-- What the program is asked to do. -/
structure Invocation where
  config : Option Path
  maxDepth : Option Nat
  noGitignore : Bool
  command : Command

/-- The one word that a command takes at most. -/
def oneWord : List Text → Except UsageFault (Option Path)
  | [] => .ok none
  | [word] => (pathValue word).map some
  | _ => .error .unknown

/-- The command of a name with its values and words. -/
def Verb.command (verb : Verb) (values : Values) (words : List Text) :
    Except UsageFault Command :=
  (oneWord words).bind fun word =>
    match verb, word with
    | .transform, word =>
      match values.stdin, word with
      | some _, _ => .ok (.transformInput values.json.isSome values.dialect)
      | none, some file => .ok (.transformFile file values.json.isSome values.dialect)
      | none, none => .error .missing
    | .build, some source =>
      match values.outDir with
      | some output => .ok (.transformTree source (some output) values.artifact)
      | none => .error .missing
    | .scan, some source => .ok (.transformTree source none values.artifact)
    | _, none => .error .missing

/-- What the arguments ask for. -/
def parse (arguments : List Text) : Except UsageFault Invocation :=
  (takeApart sharedSettings true arguments).bind fun before =>
    (Values.ofSettings before.settings).bind fun shared =>
      match before.words with
      | [] => .error .missing
      | name :: more =>
        match Verb.ofName? name with
        | none => .error .unknown
        | some verb =>
          (takeApart verb.settings false more).bind fun behind =>
            (Values.ofSettings behind.settings).bind fun own =>
              (verb.command own behind.words).map fun command =>
                { config := own.config.or shared.config
                  maxDepth := own.maxDepth.or shared.maxDepth
                  noGitignore := own.noGitignore.isSome || shared.noGitignore.isSome
                  command }

end VariantClasses.CommandLine
