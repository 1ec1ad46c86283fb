import Flowchart.CommandLine.Arguments
import Flowchart.Text.Blank
import Flowchart.Text.Digit

/-! What a command line asks for. Only the last value of a flag counts, also if an earlier
one makes no sense. -/
namespace Flowchart.CommandLine

/-- The forms of output. -/
inductive Format where
  /-- The notation itself. -/
  | mermaid
  /-- Plain data. -/
  | json
  /-- A few lines for people. -/
  | summary
  deriving DecidableEq, Repr

namespace Format

/-- The name of a form of output. -/
def name : Format → Text
  | .mermaid => "mermaid"
  | .json => "json"
  | .summary => "summary"

/-- All forms of output. -/
def all : List Format := [.mermaid, .json, .summary]

/-- The form of output with this name. -/
def ofName? (t : Text) : Option Format := all.find? fun f => f.name == t

end Format

/-- Are single underscores the only ones, each between two characters? -/
def singlyJoined : Text → Bool
  | [] => true
  | '_' :: _ => false
  | [_] => true
  | _ :: '_' :: rest => singlyJoined rest && !rest.isEmpty
  | _ :: rest => singlyJoined rest

/-- An integer: decimal digits, singly joined by underscores, with a sign before them and
blanks around it all. -/
def readInt? (t : Text) : Option Int :=
  let digits? (s : Text) : Option Nat :=
    if singlyJoined s then Text.toNat? (s.filter fun c => c != '_') else none
  match Text.trimNumeral t with
  | '-' :: s => (digits? s).map fun n => -(n : Int)
  | '+' :: s => (digits? s).map fun n => (n : Int)
  | s => (digits? s).map fun n => (n : Int)

/-- What a command line asks for. -/
structure Options where
  /-- The file to read, or the standard input. -/
  input : Option Text := none
  format : Format := .mermaid
  /-- A direction in place of that of the diagram. -/
  direction : Option Text := none
  /-- How many blanks a level is indented by. -/
  indent : Int := 4
  /-- The file to write, or the standard output. -/
  output : Option Text := none
  verbose : Bool := false
  deriving DecidableEq, Repr

/-- What arguments ask for, if they make sense. At most one file can be read, and an output
without a name is the standard output. -/
def Options.ofArguments? (a : Arguments) : Option Options := do
  let input ← match a.operands with
    | [] => some none
    | [path] => some (some path)
    | _ => none
  let format ← match a.last? .format with
    | none => some .mermaid
    | some t => Format.ofName? t
  let indent ← match a.last? .indent with
    | none => some 4
    | some t => readInt? t
  return {
    input, format, indent
    direction := a.last? .direction
    output := (a.last? .output).filter fun path => !path.isEmpty
    verbose := (a.last? .verbose).isSome }

end Flowchart.CommandLine
