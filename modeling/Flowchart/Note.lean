import Flowchart.Text.Literal

/-! What is noted down on the way: decisions of the reader, steps of a session. A note says
what happened; its level, the place that it comes from and its words follow from that. -/
namespace Flowchart

/-- How much a note matters. -/
inductive Level where
  | debug | warning | error
  deriving DecidableEq, Repr

/-- The name of a level. -/
def Level.name : Level → Text
  | .debug => "DEBUG"
  | .warning => "WARNING"
  | .error => "ERROR"

/-- Something worth noting. -/
inductive Note where
  /-- A diagram of another kind was read as an empty one. -/
  | notEditable (title : Text)
  /-- A line stands before the declaration. -/
  | beforeDeclaration (line : Text)
  /-- A block is closed that was never opened. -/
  | unmatchedEnd
  /-- A direction is none of the known ones. -/
  | unknownDirection (word : Text)
  /-- Classes go to something that does not exist. -/
  | classesOfNothing (id : Text)
  /-- A style goes to a node that does not exist. -/
  | styleOfNothing (id : Text)
  /-- A link goes to a node that does not exist. -/
  | clickOfNothing (id : Text)
  /-- A statement holds a part that is no node. -/
  | unreadableNode (part line : Text)
  /-- An operator says nothing. -/
  | unknownOperator (symbols : Text)
  /-- An id was taken and had to be changed. -/
  | renamedEdge (wanted given : Text)
  /-- An edit was taken back. -/
  | undone (left : Nat)
  /-- An edit was made again. -/
  | redone (left : Nat)
  /-- Waiting text was handed out at once. -/
  | flushed
  /-- Text could not be read. -/
  | unreadableText
  /-- The receiver of delayed text failed. -/
  | delayedFailure
  /-- A command line run read so much. -/
  | counted (nodes edges : Nat)
  deriving DecidableEq, Repr

namespace Note

/-- How much a note matters. -/
def level : Note → Level
  | .unreadableText => .error
  | .delayedFailure => .warning
  | _ => .debug

/-- The place that a note comes from. -/
def channel : Note → Text
  | .notEditable _ => "mermaid_edit.parsers"
  | .undone _ | .redone _ | .flushed | .unreadableText => "mermaid_edit.sync.engine"
  | .delayedFailure => "mermaid_edit.sync.debounce"
  | .counted .. => "mermaid_edit.__main__"
  | _ => "mermaid_edit.parsers.flowchart"

/-- The words of a note. -/
def message : Note → Text
  | .notEditable title => title ++ " is not editable, returning an empty flowchart".toList
  | .beforeDeclaration line => "skipping line before declaration: ".toList ++ line.literal
  | .unmatchedEnd => "skipping unmatched 'end'"
  | .unknownDirection word => "skipping unknown direction ".toList ++ word.literal
  | .classesOfNothing id => "class assignment to unknown id ".toList ++ id.literal
  | .styleOfNothing id => "style for unknown node ".toList ++ id.literal
  | .clickOfNothing id => "click for unknown node ".toList ++ id.literal
  | .unreadableNode part line =>
    "skipping statement with unreadable node ".toList ++ part.literal ++ ": ".toList ++ line.literal
  | .unknownOperator symbols => "skipping unknown edge operator ".toList ++ symbols.literal
  | .renamedEdge wanted given =>
    "edge id ".toList ++ wanted ++ " already taken, renamed to ".toList ++ given
  | .undone left => "undo: ".toList ++ Text.ofNat left ++ " step(s) left".toList
  | .redone left => "redo: ".toList ++ Text.ofNat left ++ " step(s) left".toList
  | .flushed => "flushed pending serialization"
  | .unreadableText => "failed to parse diagram text"
  | .delayedFailure => "debounced callback raised"
  | .counted nodes edges =>
    Text.ofNat nodes ++ " nodes, ".toList ++ Text.ofNat edges ++ " edges".toList

/-- A note on a line of its own. -/
def line (n : Note) : Text :=
  n.level.name ++ ' ' :: n.channel ++ ": ".toList ++ n.message ++ ['\n']

end Note
end Flowchart
