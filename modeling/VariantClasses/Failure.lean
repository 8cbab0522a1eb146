import VariantClasses.Configuration
import VariantClasses.Disk.Files
import VariantClasses.Glob

/-! # Failures

Why work on files stops, and what is said about it.
-/

namespace VariantClasses

/-- Why work on files stops. -/
inductive Failure
  /-- An operation on the disk cannot be done at a path. -/
  | disk (path : Path) (fault : DiskFault)
  /-- The file at a path is no text. -/
  | notUtf8 (path : Path)
  /-- An ignore pattern is none. -/
  | glob (error : GlobError)
  /-- A configuration file cannot be read as options. -/
  | config (fault : Json.Fault)
  deriving DecidableEq

/-- The message about a failure. -/
def Failure.message : Failure → String
  | .disk path fault => path.toString ++ ": " ++ fault.message
  | .notUtf8 path => path.toString ++ ": not valid UTF-8"
  | .glob error => "Invalid ignore pattern: " ++ error.message
  | .config _ => "Invalid config"

/-- The options in the configuration file at a path. -/
def Options.load (disk : Disk) (path : Path) : Except Failure Options :=
  match disk.readText path with
  | .error fault => .error (.disk path fault)
  | .ok text => (Configuration.read text).mapError .config

end VariantClasses
