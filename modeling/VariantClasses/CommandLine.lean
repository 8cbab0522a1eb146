import VariantClasses.Build.Run
import VariantClasses.CommandLine.Arguments
import VariantClasses.Json.Quoted

/-! # The command line

What the program prints, writes and exits with, as a function of its arguments, its
standard input and the disk.
-/

namespace VariantClasses.CommandLine

/-- What the program leaves. -/
structure Outcome where
  /-- 0 when all is well, 1 when the work stops, 2 when the arguments are not accepted. -/
  exitCode : Nat
  output : Text
  /-- The messages, given how the elapsed time is shown. -/
  messages : (elapsed : String) → String
  disk : Disk

def Outcome.stopped (disk : Disk) (message : String) : Outcome :=
  ⟨1, [], fun _ => "Error: " ++ message ++ "\n", disk⟩

/-- The options that an invocation asks for. -/
def Invocation.options (invocation : Invocation) (disk : Disk) : Except Failure Options :=
  let loaded : Except Failure Options :=
    match invocation.config with
    | none => .ok {}
    | some path => Options.load disk path
  loaded.map fun options =>
    { options with
      maxDepth := invocation.maxDepth.getD options.maxDepth
      gitignore := options.gitignore && !invocation.noGitignore }

def jsonOf (result : Transformed) : Text :=
  Json.object
    [("code".toList, Json.quoted result.code),
      ("classes".toList, Json.quotedArray result.classes.toList),
      ("modifierClasses".toList, Json.quotedArray result.variants.toList),
      ("changed".toList, Json.spelledBool result.changed)]

/-- What is printed of a transformed text. -/
def printed (json : Bool) (result : Transformed) : Text :=
  if json then jsonOf result ++ ['\n'] else result.code

/-- The mark before a file's path. -/
def statusMark : FileStatus → String
  | .transformed => "✓"
  | .unchanged => "·"
  | .failed => "✗"

def fileLine (output : Option Path) (visit : Path × FileStatus) : String :=
  let shown := (output.map (·.join visit.1)).getD visit.1
  "  " ++ statusMark visit.2 ++ " " ++ shown.toString ++ "\n"

def summaryLine (summary : Summary) (artifact : Path) (elapsed : String) : String :=
  "\n✨ Processed " ++ toString summary.files ++
    (if summary.files = 1 then " file (" else " files (") ++
    toString summary.transformed ++ " rewritten, " ++ toString summary.failed ++
    " failed) in " ++ elapsed ++ "; " ++ toString summary.classes ++ " classes in " ++
    artifact.toString ++ "\n"

/-- What is said of a run, and how it exits. -/
def Outcome.ofRun (options : Options) (source : Path) (output : Option Path)
    (result : Build.Result) : Outcome :=
  let lines := String.join (result.seen.map (fileLine output))
  let left := result.session.disk
  match result.summary with
  | .error failure => ⟨1, [], fun _ => lines ++ "Error: " ++ failure.message ++ "\n", left⟩
  | .ok summary =>
    if summary.files = 0 then
      ⟨1, [], fun _ => lines ++ "No source files found in " ++ source.toString ++ "\n", left⟩
    else
      ⟨0, [], fun elapsed => lines ++ summaryLine summary options.artifact elapsed, left⟩

def runTree (options : Options) (disk : Disk) (source : Path) (output : Option Path) : Outcome :=
  if !disk.isDirectory source then
    .stopped disk (source.toString ++ " is not a directory")
  else
    match Build.new options with
    | .error failure => .stopped disk failure.message
    | .ok build => .ofRun options source output (build.run disk source output)

def Command.run (command : Command) (options : Options) (disk : Disk) (input : ByteArray) :
    Outcome :=
  match command with
  | .transformInput json dialect =>
    match Text.decode? input with
    | none => .stopped disk ("failed to read stdin: " ++ DiskFault.notText.message)
    | some text =>
      ⟨0, printed json (transform options (dialect.getD .class_) text), fun _ => "", disk⟩
  | .transformFile file json dialect =>
    match disk.readText file with
    | .error fault => .stopped disk (Failure.disk file fault).message
    | .ok text =>
      let chosen := dialect.getD (options.dialectFor file)
      ⟨0, printed json (transform options chosen text), fun _ => "", disk⟩
  | .transformTree source output artifact =>
    runTree { options with artifact := artifact.getD options.artifact } disk source output

/-- Carries out what the arguments ask for. -/
def run (arguments : List Text) (disk : Disk) (input : ByteArray) : Outcome :=
  match parse arguments with
  | .error _ => ⟨2, [], fun _ => "", disk⟩
  | .ok invocation =>
    match invocation.options disk with
    | .error failure => .stopped disk failure.message
    | .ok options => invocation.command.run options disk input

/-! ## The part of a disk that matters -/

/-- The places that work follows paths to, and the roots of the trees that it goes
through. -/
structure Footprint where
  paths : List Path
  trees : List Path

/-- What a command touches under options. -/
def Command.footprint (command : Command) (options : Options) : Footprint :=
  match command with
  | .transformInput .. => ⟨[], []⟩
  | .transformFile file _ _ => ⟨[file], []⟩
  | .transformTree source output artifact =>
    let artifact := artifact.getD options.artifact
    ⟨[artifact, artifact.directory.join Gitignore.fileName], source :: output.toList⟩

/-- The elapsed time as it is shown, given in microseconds. -/
def elapsedText (microseconds : Nat) : String :=
  if microseconds < 1000 then toString microseconds ++ "μs"
  else if microseconds < 1000000 then
    let tenths := (microseconds + 50) / 100
    toString (tenths / 10) ++ "." ++ toString (tenths % 10) ++ "ms"
  else
    let hundredths := (microseconds + 5000) / 10000
    let digits := toString (hundredths % 100)
    toString (hundredths / 100) ++ "." ++ (if digits.length < 2 then "0" else "") ++ digits ++ "s"

end VariantClasses.CommandLine
