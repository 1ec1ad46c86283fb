import Flowchart.Diagram

/-! Changes of a diagram. A change says what was there before and what is there after it, so
a diagram can follow its changes without being told anything else. Classes of styles change
without notice and have no changes here. -/
namespace Flowchart

/-- The names of events. -/
inductive EventKind where
  | nodeAdd | nodeRemove | nodeUpdate | edgeAdd | edgeRemove | edgeUpdate
  | subgraphAdd | subgraphRemove | subgraphUpdate | directionChange | batch
  deriving DecidableEq, Repr

namespace EventKind

/-- The spelling of a kind of event. -/
def name : EventKind → Text
  | .nodeAdd => "node:add"
  | .nodeRemove => "node:remove"
  | .nodeUpdate => "node:update"
  | .edgeAdd => "edge:add"
  | .edgeRemove => "edge:remove"
  | .edgeUpdate => "edge:update"
  | .subgraphAdd => "subgraph:add"
  | .subgraphRemove => "subgraph:remove"
  | .subgraphUpdate => "subgraph:update"
  | .directionChange => "direction:change"
  | .batch => "batch"

/-- All kinds of events. -/
def all : List EventKind := [
  .nodeAdd, .nodeRemove, .nodeUpdate, .edgeAdd, .edgeRemove, .edgeUpdate,
  .subgraphAdd, .subgraphRemove, .subgraphUpdate, .directionChange, .batch]

/-- A kind of event by its name in plain data. -/
def ofData (v : Value) : Except Error EventKind :=
  match v with
  | .text t => match all.find? fun k => k.name == t with
    | some k => .ok k
    | none => .error (.notAmong v.literal .event)
  | v => .error (.notAmong v.literal .event)

end EventKind

/-- One change of a diagram. -/
inductive Change where
  | nodeAdded (n : Node)
  | nodeUpdated (before after : Node)
  | nodeRemoved (n : Node)
  | edgeAdded (e : Edge)
  | edgeUpdated (before after : Edge)
  | edgeRemoved (e : Edge)
  | subgraphAdded (g : Subgraph)
  | subgraphUpdated (before after : Subgraph)
  | subgraphRemoved (g : Subgraph)
  | directionChanged (before after : Direction)
  deriving DecidableEq, Repr

/-- The diagram after a change. What is added comes last, and what is updated stays at its
place. -/
def Diagram.apply (d : Diagram) : Change → Diagram
  | .nodeAdded n | .nodeUpdated _ n => { d with nodes := Keyed.put n d.nodes }
  | .nodeRemoved n => { d with nodes := Keyed.remove n.id d.nodes }
  | .edgeAdded e | .edgeUpdated _ e => { d with edges := Keyed.put e d.edges }
  | .edgeRemoved e => { d with edges := Keyed.remove e.id d.edges }
  | .subgraphAdded g | .subgraphUpdated _ g => { d with subgraphs := Keyed.put g d.subgraphs }
  | .subgraphRemoved g => { d with subgraphs := Keyed.remove g.id d.subgraphs }
  | .directionChanged _ direction => { d with direction }

namespace Change

/-- The kind of event that reports a change. -/
def kind : Change → EventKind
  | .nodeAdded _ => .nodeAdd
  | .nodeUpdated .. => .nodeUpdate
  | .nodeRemoved _ => .nodeRemove
  | .edgeAdded _ => .edgeAdd
  | .edgeUpdated .. => .edgeUpdate
  | .edgeRemoved _ => .edgeRemove
  | .subgraphAdded _ => .subgraphAdd
  | .subgraphUpdated .. => .subgraphUpdate
  | .subgraphRemoved _ => .subgraphRemove
  | .directionChanged .. => .directionChange

/-- What was there before, in plain data. -/
def before : Change → Value
  | .nodeAdded _ | .edgeAdded _ | .subgraphAdded _ => .null
  | .nodeUpdated n _ | .nodeRemoved n => n.toData
  | .edgeUpdated e _ | .edgeRemoved e => e.toData
  | .subgraphUpdated g _ | .subgraphRemoved g => g.toData
  | .directionChanged d _ => .text d.name

/-- What is there after, in plain data. -/
def after : Change → Value
  | .nodeAdded n | .nodeUpdated _ n => n.toData
  | .edgeAdded e | .edgeUpdated _ e => e.toData
  | .subgraphAdded g | .subgraphUpdated _ g => g.toData
  | .nodeRemoved _ | .edgeRemoved _ | .subgraphRemoved _ => .null
  | .directionChanged _ d => .text d.name

/-- What the change is about: what is there after it, or what went. -/
def target (c : Change) : Value :=
  match c.after with
  | .null => c.before
  | v => v

/-- A change in plain data. -/
def toData (c : Change) : Value := .record [
  ("type", .text c.kind.name), ("target", c.target), ("previous", c.before), ("new", c.after)]

end Change

/-- What listeners are told: one change, or several that belong together. -/
inductive Event where
  | single (c : Change)
  | batch (cs : List Change)
  deriving DecidableEq, Repr

/-- An event in plain data. -/
def Event.toData : Event → Value
  | .single c => c.toData
  | .batch cs => .record [
      ("type", .text EventKind.batch.name), ("events", .list (cs.map Change.toData))]

/-- The changes of an event. -/
def Event.changes : Event → List Change
  | .single c => [c]
  | .batch cs => cs

/-- A node after further changes, up to the one that removes it. -/
def Node.followed (n : Node) : List Change → Node
  | [] => n
  | .nodeUpdated _ m :: cs => if m.id = n.id then followed m cs else followed n cs
  | .nodeRemoved m :: cs => if m.id = n.id then n else followed n cs
  | _ :: cs => followed n cs

/-- An edge after further changes, up to the one that removes it. -/
def Edge.followed (e : Edge) : List Change → Edge
  | [] => e
  | .edgeUpdated _ f :: cs => if f.id = e.id then followed f cs else followed e cs
  | .edgeRemoved f :: cs => if f.id = e.id then e else followed e cs
  | _ :: cs => followed e cs

/-- A subgraph after further changes, up to the one that removes it. -/
def Subgraph.followed (g : Subgraph) : List Change → Subgraph
  | [] => g
  | .subgraphUpdated _ h :: cs => if h.id = g.id then followed h cs else followed g cs
  | .subgraphRemoved h :: cs => if h.id = g.id then g else followed g cs
  | _ :: cs => followed g cs

end Flowchart
