import VariantClasses.Failure
import VariantClasses.Text.Blank

/-! # Listing a file in `.gitignore`

An entry is listed when a line, blanks around it aside, is the entry or a slash and the
entry. An entry that is not listed is added at the end; what is there stays.
-/

namespace VariantClasses

namespace Text

/-- A line without the carriage return at its end. -/
def withoutReturn (line : Text) : Text :=
  if line.getLast? = some '\r' then line.dropLast else line

/-- The lines of a text. A line break at its end starts no line, and a carriage return before a
line break belongs to that. -/
def lines (text : Text) : List Text :=
  let pieces := text.splitOn '\n'
  let last := pieces.getLast?.getD []
  pieces.dropLast.map withoutReturn ++ if last.isEmpty then [] else [last]

end Text

namespace Gitignore

/-- The name of the file that lists what is ignored. -/
def fileName : Path := .ofString ".gitignore"

/-- Whether a text lists an entry. -/
def lists (entry text : Text) : Bool :=
  (Text.lines text).any fun line => line.trim == entry || line.trim == '/' :: entry

/-- The text with an entry on a line of its own at the end. -/
def add (entry text : Text) : Text :=
  let gap := if text.isEmpty || text.getLast? == some '\n' then [] else ['\n']
  text ++ gap ++ entry ++ ['\n']

/-- The text of the file, which is empty when there is no file. -/
def current (disk : Disk) (path : Path) : Except DiskFault Text :=
  match disk.readText path with
  | .error .missing => .ok []
  | outcome => outcome

/-- Makes the `.gitignore` of a directory list an entry, given a way to write files, and says
whether that took a change. -/
def ensureBy (store : Disk.Store) (disk : Disk) (directory : Path) (entry : Text) :
    Disk × Except Failure Bool :=
  let path := directory.join fileName
  match current disk path with
  | .error fault => (disk, .error (.disk path fault))
  | .ok text =>
    if lists entry text then (disk, .ok false)
    else
      match store disk path (add entry text).encode with
      | (left, .error fault) => (left, .error (.disk path fault))
      | (written, .ok ()) => (written, .ok true)

/-- Makes the `.gitignore` of a directory list an entry, and says whether that took a
change. -/
def ensure (disk : Disk) (directory : Path) (entry : Text) : Disk × Except Failure Bool :=
  ensureBy Disk.store disk directory entry

end Gitignore

end VariantClasses
