import Flowchart.Graph

/-! A diagram in a few lines for people: its direction, how much it holds, an order of its
nodes if there is one, and where its edges lead. -/
namespace Flowchart.Diagram

/-- A line that names something and says what it is. -/
def titled (name content : Text) : Text := name ++ ": ".toList ++ content

/-- A vertex and where its arcs lead. -/
def arrows (entry : Value × List Value) : Text :=
  entry.1.shown ++ " -> ".toList ++ Text.join ", " (entry.2.map Value.shown)

/-- The lines about a diagram. An order without vertices and a vertex without successors
have no line. -/
def summaryLines (d : Diagram) : List Text :=
  let g := Graph.ofDiagram d
  [titled "direction" d.direction.name,
    titled "nodes" (Text.ofNat g.vertices.length),
    titled "edges" (Text.ofNat g.arcs.length),
    titled "subgraphs" (Text.ofNat d.subgraphs.length),
    titled "acyclic" (if g.isAcyclic then "yes" else "no")] ++
  (match g.order? with
    | some (v :: vs) => [titled "order" (Text.join ", " ((v :: vs).map Value.shown))]
    | _ => []) ++
  (g.adjacency.filter fun entry => !entry.2.isEmpty).map arrows

/-- The lines about a diagram as one text. -/
def summary (d : Diagram) : Text := (d.summaryLines).flatMap fun l => l ++ ['\n']

end Flowchart.Diagram
