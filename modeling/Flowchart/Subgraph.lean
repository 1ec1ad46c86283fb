import Flowchart.Direction
import Flowchart.Value

/-! Subgraphs: named groups of nodes that may enclose one another. A subgraph lists its
members and names the subgraph around it; the null value names none. -/
namespace Flowchart

/-- A subgraph of a diagram. -/
structure Subgraph where
  id : Value
  title : Value
  members : List Value := []
  parent : Value := .null
  direction : Option Direction := none
  classes : List Value := []
  deriving DecidableEq, Repr

/-- A direction by its exact name in plain data. -/
def Direction.ofData (v : Value) : Except Error Direction :=
  match v with
  | .text t => match Direction.ofName? t with
    | some d => .ok d
    | none => .error (.notAmong v.literal .direction)
  | v => .error (.notAmong v.literal .direction)

/-- A direction by a word of the notation in plain data, if it is one. What does not hold is
no word; anything else but a text is refused. -/
def Direction.ofWord? (v : Value) : Except Error (Option Direction) :=
  match v with
  | .text t => .ok (Direction.ofToken? t)
  | v => if v.holds then .error .noWord else .ok none

/-- A direction in plain data, or null. -/
def Direction.toData? (d : Option Direction) : Value := .ofText? (d.map Direction.name)

namespace Subgraph

instance : Keyed Subgraph Value := ⟨Subgraph.id⟩

/-- Does the subgraph list the node? -/
def lists (g : Subgraph) (node : Value) : Bool := g.members.contains node

/-- The subgraph with a node at the end of its list, if it does not list it yet. -/
def enlist (g : Subgraph) (node : Value) : Subgraph :=
  if g.lists node then g else { g with members := g.members ++ [node] }

/-- The subgraph without the first entry of a node in its list. -/
def strike (g : Subgraph) (node : Value) : Subgraph :=
  { g with members := g.members.erase node }

/-- The subgraph in plain data. -/
def toData (g : Subgraph) : Value := .record [
  ("id", g.id), ("title", g.title), ("node_ids", .list g.members), ("parent_id", g.parent),
  ("direction", Direction.toData? g.direction), ("css_classes", .list g.classes)]

/-- A subgraph from plain data. Without a title it is titled by its id. -/
def ofData (v : Value) : Except Error Subgraph := do
  let fs ← v.asRecord
  let id ← fs.require "id"
  return {
    id
    title := (fs.get "title").orElse id
    members := ← (fs.get "node_ids").partsIfAny
    parent := fs.get "parent_id"
    direction := ← if (fs.get "direction").holds
      then (Direction.ofData (fs.get "direction")).map some else .ok none
    classes := ← (fs.get "css_classes").partsIfAny }

/-- What each field of plain data changes in a subgraph. The id is never changed, and
members are moved and not set. A direction that is no word of the notation is taken away. -/
def setters : List (Text × (Value → Except Error (Subgraph → Subgraph))) := [
  ("id", fun _ => .ok fun x => x),
  ("title", fun v => .ok fun g => { g with title := v }),
  ("node_ids", fun _ => .ok fun x => x),
  ("parent_id", fun v => .ok fun g => { g with parent := v }),
  ("direction", fun v => (Direction.ofWord? v).map fun d g => { g with direction := d }),
  ("css_classes", fun v => v.partsIfAny.map fun cs g => { g with classes := cs })]

end Subgraph
end Flowchart
