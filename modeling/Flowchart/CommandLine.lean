import Flowchart.CommandLine.Options
import Flowchart.CommandLine.Surroundings
import Flowchart.Source.Reading
import Flowchart.Summary
import Flowchart.Value.Json
import Flowchart.Writing

/-! The program: it reads one flowchart and writes it in the form that is asked for. Text
that cannot be read as a flowchart at all stops it without a word of its own. -/
namespace Flowchart.CommandLine

/-- What the program complains about. -/
inductive Complaint where
  | unreadable (path : Text) (e : FileError)
  | unwritable (path : Text) (e : FileError)
  | otherDiagram (kind : Text)
  | unknownDirection (word : Text)
  deriving DecidableEq, Repr

/-- A complaint on a line. -/
def Complaint.line (c : Complaint) : Text :=
  "error: ".toList ++ (match c with
    | .unreadable path e =>
      "cannot read '".toList ++ path ++ "': ".toList ++ e.message path
    | .unwritable path e =>
      "cannot write '".toList ++ path ++ "': ".toList ++ e.message path
    | .otherDiagram kind =>
      "Unsupported diagram type: ".toList ++ kind ++ "; only flowcharts can be edited".toList
    | .unknownDirection word =>
      "unknown direction '".toList ++ word ++ "'; use TB, TD, BT, LR, or RL".toList) ++ ['\n']

/-- Why a run stops before its end. -/
inductive Stop where
  /-- The command line makes no sense. -/
  | misuse
  /-- Something is in the way, and the run says what. -/
  | complaint (c : Complaint)
  /-- Something cannot be read or written at all. -/
  | error (e : Error)
  deriving DecidableEq, Repr

/-- A run, which may stop. -/
abbrev Run (m : Type → Type) := ExceptT Stop m

section
variable {m : Type → Type} [Monad m] [Surroundings m]

/-- Stops if no file can have the name. -/
def checkName (path : Text) : Run m Unit :=
  if path.contains '\x00' then throw (.error (.badName path)) else pure ()

/-- The text that is to be read. All its line breaks are line feeds. -/
def source (o : Options) : Run m Text := do
  match o.input with
  | none => return Text.unifyBreaks (← ExceptT.lift Surroundings.input)
  | some path =>
    checkName path
    if !(← ExceptT.lift (Surroundings.present path)) then throw .misuse
    match ← ExceptT.lift (Surroundings.read path) with
    | .ok text => return Text.unifyBreaks text
    | .error e => throw (.complaint (.unreadable path e))

/-- Notes go to the standard error output, if they are wanted. -/
def tell (o : Options) (notes : List Note) : Run m Unit :=
  if o.verbose then
    notes.forM fun n => ExceptT.lift (Surroundings.complain n.line)
  else pure ()

/-- The diagram in a source text. -/
def diagram (o : Options) (text : Text) : Run m Diagram := do
  match Reading.ofText true text with
  | .ok r =>
    tell o r.notes
    return r.diagram
  | .error (.unsupported kind) => throw (.complaint (.otherDiagram kind))
  | .error e => throw (.error e)

/-- The diagram in the direction that is asked for. -/
def turned (o : Options) (d : Diagram) : Run m Diagram :=
  match o.direction with
  | none => pure d
  | some word => match Direction.ofToken? word with
    | some direction => pure { d with direction }
    | none => throw (.complaint (.unknownDirection word))

/-- The diagram in the form that is asked for. -/
def rendered (o : Options) (d : Diagram) : Except Error Text :=
  match o.format with
  | .json => .ok (Json.indented d.toData ++ ['\n'])
  | .summary => .ok d.summary
  | .mermaid => do d.write { indent := ← Text.run ' ' o.indent }

/-- Output goes to a file or to the standard output. -/
def hand (o : Options) (text : Text) : Run m Unit := do
  match o.output with
  | none => ExceptT.lift (Surroundings.print text)
  | some path =>
    checkName path
    match ← ExceptT.lift (Surroundings.write path text) with
    | .ok _ => pure ()
    | .error e => throw (.complaint (.unwritable path e))

/-- Does what is asked for. -/
def work (o : Options) : Run m Unit := do
  let d ← turned o (← diagram o (← source o))
  match rendered o d with
  | .error e => throw (.error e)
  | .ok text =>
    tell o [.counted d.nodes.length d.edges.length]
    hand o text

/-- Runs the program with some arguments. The answer is the exit code. -/
def run (args : List Text) : m (Except Error Nat) := do
  match (Arguments.read? args).bind Options.ofArguments? with
  | none => return .ok 2
  | some o => match ← (work o : Run m Unit).run with
    | .ok _ => return .ok 0
    | .error .misuse => return .ok 2
    | .error (.complaint c) =>
      Surroundings.complain c.line
      return .ok 1
    | .error (.error e) => return .error e

end
end Flowchart.CommandLine
