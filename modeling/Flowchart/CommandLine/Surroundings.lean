import Flowchart.Text.Literal

/-! What a run of the program needs of its surroundings: files, the standard input and the
two outputs. A run is written for any surroundings, real or imagined. -/
namespace Flowchart.CommandLine

/-- Why a file cannot be read or written. -/
inductive FileError where
  | missing | denied | notFolder | isFolder | tooLong
  deriving DecidableEq, Repr

namespace FileError

/-- The number of a reason. -/
def number : FileError → Nat
  | .missing => 2
  | .denied => 13
  | .notFolder => 20
  | .isFolder => 21
  | .tooLong => 36

/-- The words for a reason. -/
def words : FileError → Text
  | .missing => "No such file or directory"
  | .denied => "Permission denied"
  | .notFolder => "Not a directory"
  | .isFolder => "Is a directory"
  | .tooLong => "File name too long"

/-- A reason with the file it is about. -/
def message (e : FileError) (path : Text) : Text :=
  "[Errno ".toList ++ Text.ofNat e.number ++ "] ".toList ++ e.words ++ ": ".toList ++ path.literal

end FileError

/-- What a run needs of its surroundings. -/
class Surroundings (m : Type → Type) where
  /-- Is there a file or a folder at a path? -/
  present : Text → m Bool
  /-- The content of a file. -/
  read : Text → m (Except FileError Text)
  /-- Gives a file a content. -/
  write : Text → Text → m (Except FileError Unit)
  /-- All that comes on the standard input. -/
  input : m Text
  /-- Writes to the standard output. -/
  print : Text → m Unit
  /-- Writes to the standard error output. -/
  complain : Text → m Unit

end Flowchart.CommandLine
