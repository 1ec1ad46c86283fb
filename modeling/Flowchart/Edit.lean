import Flowchart.Change
import Flowchart.Edge.Id

/-! Edits: what can be done to a diagram. An edit checks first and changes afterwards, and it
makes every change through `change`, so the changes tell the whole story. Some edits belong
together and are reported as one. An edit that meets something missing half way keeps the
changes made until then; this happens only in diagrams that name what does not exist. -/
namespace Flowchart

/-- How far an edit has come: the diagram, the changes in order, and whether they are to be
reported as one. -/
structure Progress where
  diagram : Diagram
  changes : List Change := []
  grouped : Bool := false
  deriving DecidableEq, Repr

/-- An edit in progress. A failure keeps what was done before it. -/
abbrev Edit (α : Type) := ExceptT Error (StateM Progress) α

namespace Edit

/-- Makes a change. -/
def change (c : Change) : Edit Unit :=
  modify fun p => { p with diagram := p.diagram.apply c, changes := p.changes ++ [c] }

/-- Has the changes reported as one. -/
def group : Edit Unit := modify fun p => { p with grouped := true }

/-- The diagram as it is now. -/
def diagram : Edit Diagram := return (← get).diagram

/-- Fails for a reason if a condition does not hold. -/
def check (holds : Bool) (e : Error) : Edit Unit := if holds then pure () else throw e

/-- The result of a reading, or its failure. -/
def ofExcept {α : Type} (r : Except Error α) : Edit α := ExceptT.mk (pure r)

/-- Fails if nothing can be looked up by the id. -/
def checkId (id : Value) : Edit Unit := check id.isSimple .wrongForm

/-! ### Membership -/

/-- The node leaves every subgraph that lists it. -/
def detach (node : Value) : Edit Unit := do
  ((← diagram).subgraphs.filter fun g => g.lists node).forM fun g =>
    change (.subgraphUpdated g (g.strike node))

/-- The node joins a subgraph. -/
def attach (node id : Value) : Edit Unit := do
  checkId id
  match (← diagram).subgraph? id with
  | none => throw (.lostSubgraph id.shown)
  | some g => if g.lists node then pure () else change (.subgraphUpdated g (g.enlist node))

/-- The node joins a subgraph, if the value names one. -/
def attachIfAny (node parent : Value) : Edit Unit :=
  if parent = .null then pure () else attach node parent

/-- The node moves into a subgraph or, if the value names none, out of all. -/
def move (node parent : Value) : Edit Unit := do
  checkId node
  match (← diagram).node? node with
  | none => throw (.lostNode node.shown)
  | some n =>
    detach node
    attachIfAny node parent
    if n.parent = parent then pure () else change (.nodeUpdated n { n with parent })

/-- The subgraph that an entity is to be in must exist, if the value names one. -/
def checkParent (parent : Value) : Edit Unit := do
  if parent = .null then pure ()
  else
    checkId parent
    check ((← diagram).hasSubgraph parent) (.missingSubgraph parent.shown)

/-! ### Changes by plain data -/

/-- Names that no changed field may have: they already stand for the editor and for the
entity that is edited. -/
def reserved (kind : Kind) : List Text := ["self", kind.word ++ "_id".toList]

/-- Checks that no changed field has a reserved name. -/
def checkNames (kind : Kind) (changes : Fields) : Edit Unit :=
  check (changes.all fun c => !(reserved kind).contains c.1) .wrongForm

/-- Checks the names of changed fields, and that the id stays as it is. -/
def checkFields (kind : Kind) (known : List Text) (id : Value) (changes : Fields) :
    Edit Unit := do
  let unknown := (changes.map (·.1)).filter fun name => !known.contains name
  check unknown.isEmpty (.unknownFields kind (unknown.mergeSort Text.isUpTo))
  check ((changes.get? "id").all fun v => v == id) (.fixedId kind id.shown)

/-- What changed fields do together, in their order. -/
def setAll {α : Type} (setters : List (Text × (Value → Except Error (α → α)))) :
    Fields → Except Error (α → α)
  | [] => .ok fun x => x
  | (name, v) :: rest => do
    let set ← match Keyed.find? name setters with
      | some entry => entry.2 v
      | none => .ok fun x => x
    let setRest ← setAll setters rest
    return fun x => setRest (set x)

/-! ### Nodes -/

/-- Adds a node. Its id must be free, and its subgraph must exist. -/
def addNode (n : Node) : Edit Node := do
  checkId n.id
  check (!(← diagram).hasNode n.id) (.duplicateId .node n.id.shown)
  checkParent n.parent
  if n.parent = .null then change (.nodeAdded n)
  else
    group
    change (.nodeAdded n)
    attach n.id n.parent
  return n

/-- Changes fields of a node, if there is one with the id. -/
def updateNode (id : Value) (changes : Fields) : Edit (Option Node) := do
  checkNames .node changes
  checkId id
  match (← diagram).node? id with
  | none => return none
  | some n =>
    checkFields .node (Keyed.keys Node.setters) id changes
    let set ← ofExcept (setAll Node.setters changes)
    let after := set n
    checkParent after.parent
    if after.parent = n.parent then pure ()
    else
      group
      detach id
      attachIfAny id after.parent
    change (.nodeUpdated n after)
    return some after

/-- Removes a node with all edges that touch it. -/
def removeNode (id : Value) : Edit Bool := do
  checkId id
  let d ← diagram
  match d.node? id with
  | none => return false
  | some n =>
    group
    (d.edgesAt id).forM fun e => change (.edgeRemoved e)
    detach id
    change (.nodeRemoved n)
    return true

/-! ### Edges -/

/-- The id that an edge gets if it has none. Its ends and its text must be texts. -/
def generatedId (d : Diagram) (e : Edge) : Except Error Text := do
  let symbols ← e.operator
  let source ← e.source.asText
  let target ← e.target.asText
  let text ← if e.text.holds then e.text.asText else .ok []
  return EdgeId.distinct
    (EdgeId.ofContent source target symbols (some text) e.stroke e.sourceTip e.targetTip)
    d.edgeIds

/-- A node must exist. -/
def checkNode (id : Value) (missing : Error) : Edit Unit := do
  checkId id
  check ((← diagram).hasNode id) missing

/-- Adds an edge between two nodes. An id that does not hold stands for a generated one. -/
def addEdge (e : Edge) : Edit Edge := do
  checkNode e.source (.missingNode .source e.source.shown)
  checkNode e.target (.missingNode .target e.target.shown)
  let d ← diagram
  let id ← if e.id.holds then do
      checkId e.id
      check (!d.hasEdge e.id) (.duplicateId .edge e.id.shown)
      pure e.id
    else do
      let id ← ofExcept (generatedId d e)
      pure (.text id)
  let e := { e with id }
  change (.edgeAdded e)
  return e

/-- Checks an end of an edge that changes: the new end, or the old one where there is no new
one. -/
def checkChangedEnd (role : Role) (changed : Option Value) (old : Value) : Edit Unit :=
  match changed with
  | some v => checkNode v (.missingNode role v.shown)
  | none => checkNode old (.danglingEnd role)

/-- Changes fields of an edge, if there is one with the id. -/
def updateEdge (id : Value) (changes : Fields) : Edit (Option Edge) := do
  checkNames .edge changes
  checkId id
  match (← diagram).edge? id with
  | none => return none
  | some e =>
    checkFields .edge (Keyed.keys Edge.setters) id changes
    checkChangedEnd .source (changes.get? "source") e.source
    checkChangedEnd .target (changes.get? "target") e.target
    let set ← ofExcept (setAll Edge.setters changes)
    change (.edgeUpdated e (set e))
    return some (set e)

/-- Removes an edge. -/
def removeEdge (id : Value) : Edit Bool := do
  checkId id
  match (← diagram).edge? id with
  | none => return false
  | some e =>
    change (.edgeRemoved e)
    return true

/-- Puts a new node on an edge. Two edges take the place of the one: both look like it, and
the first has its text. The node gets a position if there is one for it. -/
def splitEdge (e : Edge) (n : Node) (position : Except Error (Option Position)) : Edit Node := do
  group
  let n ← addNode n
  let half : Edge := {
    id := .null, source := e.source, target := e.target, stroke := e.stroke
    sourceTip := e.sourceTip, targetTip := e.targetTip, length := e.length
    style := e.style, classes := e.classes }
  let _ ← addEdge { half with target := n.id, text := e.text }
  let _ ← addEdge { half with source := n.id }
  let _ ← removeEdge e.id
  match ← ofExcept position with
  | none => return n
  | some p => return (← updateNode n.id [("position".toList, p.toData)]).getD n

/-! ### Subgraphs -/

/-- The way up from a subgraph through parents: every id that is met, the first one included.
The number bounds how far it goes. -/
def wayUp (d : Diagram) : Nat → Value → List Value
  | 0, _ => []
  | more + 1, here =>
    here :: match d.subgraph? here with
      | some g => if g.parent = .null then [] else wayUp d more g.parent
      | none => []

/-- All that encloses what has a parent, from the inside outwards. The way up meets every
subgraph at most once before it repeats itself, and may end where there is none. -/
def enclosing (d : Diagram) (parent : Value) : List Value :=
  wayUp d (d.subgraphs.length + 1) parent

/-- Would a parent make the subgraph enclose itself? -/
def wouldCycle (d : Diagram) (id parent : Value) : Bool := id ∈ enclosing d parent

/-- The parent of a subgraph must exist, if the value names one, and the subgraph must not
enclose it. Where the way up leads to something that nothing can be looked up by, the question
has no answer. -/
def checkNesting (id parent : Value) : Edit Unit := do
  checkParent parent
  let d ← diagram
  if parent = .null then pure ()
  else
    check (!wouldCycle d id parent) (.subgraphCycle id.shown parent.shown)
    check ((enclosing d parent).all Value.isSimple) .wrongForm

/-- The members of a subgraph must exist. -/
def checkMembers (members : List Value) : Edit Unit :=
  members.forM fun m => checkNode m (.missingNode .member m.shown)

/-- Adds a subgraph. The nodes that it lists move into it. -/
def addSubgraph (g : Subgraph) : Edit Unit := do
  checkId g.id
  check (!(← diagram).hasSubgraph g.id) (.duplicateId .subgraph g.id.shown)
  check (g.parent != g.id || g.parent == .null) (.subgraphCycle g.id.shown g.parent.shown)
  checkParent g.parent
  checkMembers g.members
  group
  change (.subgraphAdded { g with members := [] })
  g.members.eraseDups.forM fun m => move m g.id

/-- The members that a subgraph has and that are not among those in a value. -/
def leaving (g : Subgraph) (members : Value) : Except Error (List Value) :=
  g.members.filterM fun m => return !(← members.contains m)

/-- Changes fields of a subgraph, if there is one with the id. Changed members move in, and
those that are not among them any more move out of all subgraphs. -/
def updateSubgraph (id : Value) (changes : Fields) : Edit (Option Subgraph) := do
  checkNames .subgraph changes
  checkId id
  match (← diagram).subgraph? id with
  | none => return none
  | some g =>
    checkFields .subgraph (Keyed.keys Subgraph.setters) id changes
    checkNesting id ((changes.get? "parent_id").getD g.parent)
    let members := changes.get "node_ids"
    let incoming ← if members = .null then pure [] else ofExcept members.parts
    checkMembers incoming
    let others := changes.filter fun c => c.1 != "node_ids".toList
    let set ← ofExcept (setAll Subgraph.setters others)
    let outgoing ← if members = .null then pure [] else ofExcept (leaving g members)
    group
    outgoing.forM fun m => move m .null
    incoming.eraseDups.forM fun m => move m id
    match (← diagram).subgraph? id with
    | none => return none
    | some g =>
      if others.isEmpty then return some g
      change (.subgraphUpdated g (set g))
      return some (set g)

/-- Removes a subgraph. What it encloses moves up into its parent. -/
def removeSubgraph (id : Value) : Edit Bool := do
  checkId id
  match (← diagram).subgraph? id with
  | none => return false
  | some g =>
    group
    g.members.forM fun m => move m g.parent
    ((← diagram).subgraphs.filter fun c => c.parent == id).forM fun c =>
      change (.subgraphUpdated c { c with parent := g.parent })
    match (← diagram).subgraph? id with
    | none => pure ()
    | some g => change (.subgraphRemoved g)
    return true

/-! ### The rest -/

/-- Turns the diagram. -/
def turn (direction : Direction) : Edit Unit := do
  let before := (← diagram).direction
  if before = direction then pure () else change (.directionChanged before direction)

/-- Turns the diagram by a word of the notation. -/
def setDirection (given : Value) : Edit Unit := do
  match ← ofExcept (Direction.ofWord? given) with
  | some direction => turn direction
  | none => throw (.unknownDirection given.shown)

/-- Changes the classes of styles, which nobody is told about. -/
def changeClasses (f : List StyleClass → List StyleClass) : Edit Unit :=
  modify fun p => { p with diagram.classes := f p.diagram.classes }

/-- Removes everything and turns the diagram back to top to bottom. -/
def clear : Edit Unit := do
  group
  (← diagram).edges.forM fun e => change (.edgeRemoved e)
  (← diagram).subgraphs.forM fun g => change (.subgraphRemoved g)
  (← diagram).nodes.forM fun n => change (.nodeRemoved n)
  changeClasses fun _ => []
  turn .tb

end Edit
end Flowchart
