import Flowchart.Diagram

/-! A diagram as a directed graph. Its vertices are the nodes and, after them, whatever else
an edge begins or ends at; parallel edges and loops stay apart. An order in which every edge
points forward exists if there is no way along edges from a vertex back to itself. -/
namespace Flowchart

/-- An edge as far as a graph knows it. -/
structure Arc where
  id : Value
  source : Value
  target : Value
  deriving DecidableEq, Repr

/-- What an arc goes by: its id or, without one, its place among those with the same ends. -/
def Arc.nameAt (a : Arc) (place : Nat) : Value :=
  if a.id = .null then .ofInt? (some place) else a.id

/-- A directed graph with named arcs. -/
structure Graph where
  vertices : List Value
  arcs : List Arc
  deriving DecidableEq, Repr

namespace Graph

/-- The list with the ends of arcs that it does not hold yet, as they are met. -/
def addEnds (arcs : List Arc) (vertices : List Value) : List Value :=
  (arcs.flatMap fun a => [a.source, a.target]).foldl
    (fun vs v => if v ∈ vs then vs else vs ++ [v]) vertices

/-- The graph of a diagram. -/
def ofDiagram (d : Diagram) : Graph :=
  let arcs := d.edges.map fun e => ⟨e.id, e.source, e.target⟩
  ⟨addEnds arcs (Keyed.keys d.nodes), arcs⟩

/-- A vertex must have a name, and it must be possible to look it up. -/
def checkVertex (v : Value) : Except Error Unit := do
  if v = .null then throw .namelessVertex
  let _ ← v.simple

/-- The graph of a diagram, unless it has a vertex that cannot be. -/
def ofDiagram? (d : Diagram) : Except Error Graph := do
  let g := ofDiagram d
  g.vertices.forM checkVertex
  return g

/-- What the arcs from one vertex to another go by, in order. -/
def between (g : Graph) (source target : Value) : List Value :=
  (g.arcs.filter fun a => a.source == source && a.target == target).mapIdx
    fun place a => a.nameAt place

/-- What the arcs from one vertex to another go by, unless nothing can be looked up by these.
Where the first is no vertex, the second is not looked up. -/
def between? (g : Graph) (source target : Value) : Except Error (List Value) := do
  let _ ← source.simple
  if source ∈ g.vertices then let _ ← target.simple
  return g.between source target

/-- How many arcs end at a vertex. -/
def inDegree (g : Graph) (v : Value) : Nat := (g.arcs.filter fun a => a.target == v).length

/-- How many arcs begin at a vertex. -/
def outDegree (g : Graph) (v : Value) : Nat := (g.arcs.filter fun a => a.source == v).length

/-- Where the arcs from a vertex end: each vertex once, in the order of the first arc to
it. -/
def successors (g : Graph) (v : Value) : List Value :=
  ((g.arcs.filter fun a => a.source == v).map Arc.target).eraseDups

/-- Every vertex with its successors, both in order. -/
def adjacency (g : Graph) : List (Value × List Value) :=
  (g.vertices.mergeSort Value.upTo).map fun v => (v, (g.successors v).mergeSort Value.upTo)

/-- Can the vertices, and the successors of each, be put in order? -/
def isSortable (g : Graph) : Bool :=
  Value.areComparable g.vertices &&
  g.vertices.all fun v => Value.areComparable (g.successors v)

/-- Every vertex with its successors, both in order, if they have one. -/
def adjacency? (g : Graph) : Except Error (List (Value × List Value)) :=
  if g.isSortable then .ok g.adjacency else .error .wrongForm

/-- Do all arcs to a vertex come from vertices that are done? -/
def isReady (g : Graph) (done : List Value) (v : Value) : Bool :=
  g.arcs.all fun a => a.target != v || a.source ∈ done

/-- A generation is done, vertex by vertex. The answer is what is done now, and the next
generation: every vertex comes into it when the last arc to it is done. -/
def sweep (g : Graph) (done : List Value) : List Value → List Value × List Value
  | [] => (done, [])
  | v :: vs =>
    let done := done ++ [v]
    let (after, next) := g.sweep done vs
    (after, (g.successors v).filter (g.isReady done) ++ next)

/-- Generations are done one after another, until there is none. The first number bounds
how many there can be. -/
def sweeps (g : Graph) : Nat → List Value → List Value → List Value
  | 0, done, _ => done
  | _ + 1, done, [] => done
  | more + 1, done, v :: vs =>
    let (done, next) := g.sweep done (v :: vs)
    g.sweeps more done next

/-- The vertices generation by generation, beginning with those that no arc ends at. A vertex
on a cycle, or after one, never gets its turn. -/
def generations (g : Graph) : List Value :=
  g.sweeps (g.vertices.length + 1) [] (g.vertices.filter (g.isReady []))

/-- An order of all vertices in which every arc points forward, if there is one. -/
def order? (g : Graph) : Option (List Value) :=
  if g.generations.length = g.vertices.length then some g.generations else none

/-- Is there no way along arcs from a vertex back to itself? -/
def isAcyclic (g : Graph) : Bool := g.order?.isSome

end Graph
end Flowchart
