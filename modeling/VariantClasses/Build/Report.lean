import VariantClasses.Failure
import VariantClasses.Merge

/-! # What a build reports

What became of each file, what was said on the way, and the count at the end.
-/

namespace VariantClasses

inductive FileStatus
  | transformed
  | unchanged
  | failed
  deriving DecidableEq

/-- What is said on the way. -/
inductive Notice
  | warning (cause : Warning)
  /-- A file could not be transformed. -/
  | leftUnmodified (failure : Failure) (file : Path)
  /-- A file could not be passed through. -/
  | notCopied (source target : Path) (fault : DiskFault)
  deriving DecidableEq

def Notice.level : Notice → String
  | .warning .. => "WARN"
  | .leftUnmodified .. | .notCopied .. => "ERROR"

def Notice.message : Notice → String
  | .warning cause => String.ofList cause.message
  | .leftUnmodified failure file =>
    failure.message ++ "; leaving " ++ file.toString ++ " unmodified"
  | .notCopied source target fault =>
    "could not copy " ++ source.toString ++ " to " ++ target.toString ++ ": " ++ fault.message

/-- How many files came to what, and how many classes are recorded. -/
structure Summary where
  transformed : Nat
  unchanged : Nat
  failed : Nat
  classes : Nat
  deriving DecidableEq

def Summary.files (summary : Summary) : Nat :=
  summary.transformed + summary.unchanged + summary.failed

end VariantClasses
