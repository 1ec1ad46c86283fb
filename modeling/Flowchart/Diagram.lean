import Flowchart.Node
import Flowchart.Edge
import Flowchart.Subgraph

/-! Diagrams, and diagrams as plain data. Nodes, edges, subgraphs and classes keep the order
in which they came. Reading plain data checks no references: an edge may name a node that
does not exist, a list of members may name anything. -/
namespace Flowchart

/-- A class of styles: its name and the declarations. -/
abbrev StyleClass := Text × List Value

/-- The content of a flowchart. -/
structure Diagram where
  direction : Direction := .tb
  nodes : List Node := []
  edges : List Edge := []
  subgraphs : List Subgraph := []
  classes : List StyleClass := []
  deriving DecidableEq, Repr

namespace Diagram

/-- The diagram with nothing in it. -/
def empty : Diagram := {}

/-- The node with an id. -/
def node? (d : Diagram) (id : Value) : Option Node := Keyed.find? id d.nodes

/-- The edge with an id. -/
def edge? (d : Diagram) (id : Value) : Option Edge := Keyed.find? id d.edges

/-- The subgraph with an id. -/
def subgraph? (d : Diagram) (id : Value) : Option Subgraph := Keyed.find? id d.subgraphs

/-- Is there a node with the id? -/
def hasNode (d : Diagram) (id : Value) : Bool := Keyed.has id d.nodes

/-- Is there an edge with the id? -/
def hasEdge (d : Diagram) (id : Value) : Bool := Keyed.has id d.edges

/-- Is there a subgraph with the id? -/
def hasSubgraph (d : Diagram) (id : Value) : Bool := Keyed.has id d.subgraphs

/-- The edges that begin or end at a node. -/
def edgesAt (d : Diagram) (node : Value) : List Edge := d.edges.filter fun e => e.touches node

/-- The diagram in plain data. -/
def toData (d : Diagram) : Value := .record [
  ("direction", .text d.direction.name),
  ("nodes", .list (d.nodes.map Node.toData)),
  ("edges", .list (d.edges.map Edge.toData)),
  ("subgraphs", .list (d.subgraphs.map Subgraph.toData)),
  ("class_defs", .record (d.classes.map fun c => (c.1, .list c.2)))]

/-- The entries of a list in plain data; one whose key came before takes that one's place.
A key must be fit for looking something up by it. -/
def entries {α : Type} [Keyed α Value] (read : Value → Except Error α) (v : Value) :
    Except Error (List α) := do
  (← v.partsIfAny).foldlM (fun found item => do
    let x ← read item
    let _ ← (Keyed.key x).simple
    return Keyed.put x found) []

/-- The classes of plain data. -/
def classEntries (v : Value) : Except Error (List StyleClass) :=
  match v with
  | .record fs => do
    let classes ← fs.mapM fun (name, styles) => do return (name, ← styles.parts)
    return classes.foldl (fun found c => Keyed.put c found) []
  | v => if v.holds then .error .noRecord else .ok []

/-- A diagram from plain data. A direction that is no word of the notation is top to
bottom. -/
def ofData (v : Value) : Except Error Diagram := do
  let fs ← v.asRecord
  return {
    direction := (← Direction.ofWord? (fs.get "direction")).getD .tb
    nodes := ← entries Node.ofData (fs.get "nodes")
    edges := ← entries Edge.ofData (fs.get "edges")
    subgraphs := ← entries Subgraph.ofData (fs.get "subgraphs")
    classes := ← classEntries (fs.get "class_defs") }

/-- A node as it comes back from plain data: a shape with a blank name is a rectangle. -/
def settleNode (n : Node) : Node := if n.shape.name = [] then { n with shape := .rect } else n

/-- An edge as it comes back from plain data: what is said of animation and of the author's
id is a truth value. -/
def settleEdge (e : Edge) : Edge :=
  { e with animate := .bool e.animate.holds, named := .bool e.named.holds }

/-- A subgraph as it comes back from plain data: a title that does not hold is the id. -/
def settleSubgraph (g : Subgraph) : Subgraph := { g with title := g.title.orElse g.id }

/-- The ids of the edges that are texts. -/
def edgeIds (d : Diagram) : List Text := d.edges.filterMap fun e => e.id.text?

/-- The diagram as it comes back from plain data. -/
def settle (d : Diagram) : Diagram :=
  { d with
    nodes := d.nodes.map settleNode, edges := d.edges.map settleEdge
    subgraphs := d.subgraphs.map settleSubgraph }

end Diagram
end Flowchart
