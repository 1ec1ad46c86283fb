import Flowchart.Source
import Flowchart.Text.Alphanumeric

/-! The kinds of diagrams that the notation knows. A diagram is of the kind whose keyword
begins its first line that counts; only flowcharts can be edited, and a text without any
keyword is read as one. -/
namespace Flowchart

/-- A kind of diagram. -/
structure DiagramKind where
  name : Text
  title : Text
  deriving DecidableEq, Repr

namespace DiagramKind

/-- Flowcharts. -/
def flowchart : DiagramKind := ⟨"flowchart", "Flowchart"⟩

/-- Texts that no keyword begins. -/
def unknown : DiagramKind := ⟨"unknown", "Unknown"⟩

/-- Can diagrams of the kind be edited? -/
def isEditable (k : DiagramKind) : Bool := k == flowchart

/-- The keywords of the other kinds. -/
def keywords : List (Text × DiagramKind) := [
  ("sequenceDiagram", ⟨"sequenceDiagram", "Sequence Diagram"⟩),
  ("classDiagram", ⟨"classDiagram", "Class Diagram"⟩),
  ("stateDiagram", ⟨"stateDiagram", "State Diagram"⟩),
  ("erDiagram", ⟨"erDiagram", "ER Diagram"⟩),
  ("gantt", ⟨"gantt", "Gantt Chart"⟩),
  ("pie", ⟨"pie", "Pie Chart"⟩),
  ("gitGraph", ⟨"gitGraph", "Git Graph"⟩),
  ("journey", ⟨"journey", "User Journey"⟩),
  ("mindmap", ⟨"mindmap", "Mindmap"⟩),
  ("timeline", ⟨"timeline", "Timeline"⟩),
  ("quadrantChart", ⟨"quadrantChart", "Quadrant Chart"⟩),
  ("xychart", ⟨"xychart", "XY Chart"⟩),
  ("requirementDiagram", ⟨"requirementDiagram", "Requirement Diagram"⟩),
  ("sankey", ⟨"sankey", "Sankey Diagram"⟩),
  ("C4Context", ⟨"c4", "C4 Diagram"⟩),
  ("C4Container", ⟨"c4", "C4 Diagram"⟩),
  ("C4Component", ⟨"c4", "C4 Diagram"⟩),
  ("C4Dynamic", ⟨"c4", "C4 Diagram"⟩),
  ("C4Deployment", ⟨"c4", "C4 Diagram"⟩),
  ("block", ⟨"block", "Block Diagram"⟩),
  ("architecture", ⟨"architecture", "Architecture Diagram"⟩),
  ("packet", ⟨"packet", "Packet Diagram"⟩),
  ("kanban", ⟨"kanban", "Kanban"⟩),
  ("zenuml", ⟨"zenuml", "ZenUML"⟩),
  ("radar", ⟨"radar", "Radar Chart"⟩),
  ("treemap", ⟨"treemap", "Treemap"⟩)]

/-- The words that begin a flowchart. Upper case does not count in them. -/
def flowchartWords : List Text := ["flowchart", "graph"]

/-- Does the word begin the line and end there? -/
def begins (word line : Text) : Bool :=
  match Text.after? word line with
  | none => false
  | some [] => true
  | some (c :: _) => !isWord c

/-- The kind that a line declares. -/
def ofLine (line : Text) : DiagramKind :=
  if flowchartWords.any (begins · (line.map Char.toLower)) then flowchart
  else match keywords.find? fun k => begins k.1 line with
    | some k => k.2
    | none => unknown

/-- The kind of the diagram in a source text, by the first line that is neither blank nor a
comment. -/
def detect (s : Text) : DiagramKind :=
  let lines := (Text.lines (Source.withoutSettings s)).map Text.trim
  match lines.find? fun l => !l.isEmpty && !Source.commentMark.isPrefixOf l with
  | some line => ofLine line
  | none => unknown

end DiagramKind
end Flowchart
