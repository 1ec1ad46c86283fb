import Flowchart.Edit
import Flowchart.Emitter
import Flowchart.Writing

/-! An editor: a diagram that can be edited and tells its listeners what changed. Between the
beginning and the end of a batch changes are kept back and told as one event. A listener may
have a command of its own run on the editor it listens to, once. Such commands may subscribe
further listeners with commands, but a command is finite and each is run once, so its weight
bounds how deep they can nest. -/
namespace Flowchart

/-- What an editor holds besides its listeners. -/
structure Board where
  diagram : Diagram := .empty
  /-- How many batches have begun and not ended. -/
  depth : Nat := 0
  /-- The changes that are kept back. -/
  buffered : List Change := []
  /-- All changes so far. -/
  journal : List Change := []
  deriving DecidableEq, Repr

/-- What an editor can be told to do. -/
inductive Command where
  | addNode (n : Node)
  /-- An edge with an id that does not hold gets a generated one. -/
  | addEdge (e : Edge)
  | addSubgraph (g : Subgraph)
  | updateNode (id : Value) (changes : Fields)
  | updateEdge (id : Value) (changes : Fields)
  | updateSubgraph (id : Value) (changes : Fields)
  | removeNode (id : Value)
  | removeEdge (id : Value)
  | removeSubgraph (id : Value)
  | hasNode (id : Value)
  | hasEdge (id : Value)
  | hasSubgraph (id : Value)
  | getNode (id : Value)
  | getEdge (id : Value)
  | getSubgraph (id : Value)
  | edgesAt (node : Value)
  | defineClass (name : Text) (styles : List Value)
  | removeClass (name : Text)
  | getClass (name : Text)
  | setDirection (word : Value)
  | getDirection
  | beginBatch
  | endBatch
  | inBatch
  /-- All steps in one batch. The first failure is the last step, and the batch ends. -/
  | withBatch (steps : List Command)
  | clear
  | nodeCount
  | edgeCount
  | listNodes
  | listEdges
  | listSubgraphs
  /-- The diagram as it comes back from plain data. -/
  | settled
  | write (layout : Layout)
  | subscribe (name : Text) (reaction : Reaction Command)
  | unsubscribe (name : Text)
  | unsubscribeAll
  | listenerCount
  /-- A command that could not be made out. -/
  | refuse (e : Error)

/-- What an editor answers. -/
inductive Answer where
  | done
  | truth (b : Bool)
  | count (n : Nat)
  | text (t : Text)
  | direction (d : Direction)
  | styles (s : Option (List Value))
  | node (n : Option Node)
  | edge (e : Option Edge)
  | subgraph (g : Option Subgraph)
  | nodes (ns : List Node)
  | edges (es : List Edge)
  | subgraphs (gs : List Subgraph)
  | diagram (d : Diagram)
  | several (answers : List Answer)

/-- An editor. -/
abbrev Editor := Emitter Command Event Board

namespace Editor

/-- An editor for a diagram, without listeners. -/
def ofDiagram (diagram : Diagram) : Editor := { content := { diagram } }

/-- The diagram of an editor. -/
def diagram (e : Editor) : Diagram := e.content.diagram

/-- How a command of a listener is run. -/
abbrev Runner := Command → Action Editor Unit

/-- The editor with another board. -/
def onBoard (f : Board → Board) : Action Editor Unit :=
  modify fun e => { e with content := f e.content }

/-- What the diagram says. -/
def ask {α : Type} (f : Diagram → α) : Action Editor α := return f (← get).diagram

/-- What the diagram says of an id. Nothing can be looked up by a list or a record. -/
def askOf {α : Type} (id : Value) (f : Diagram → α) : Action Editor α := do
  let _ ← ExceptT.mk (pure id.simple)
  ask f

/-- Changes are told, or kept back if a batch has begun. Grouped changes are one event. -/
def publish (run : Runner) (changes : List Change) (grouped : Bool) : Action Editor Unit := do
  if (← get).content.depth > 0 then
    onBoard fun b => { b with buffered := b.buffered ++ changes }
  else if grouped then
    if changes.isEmpty then pure () else Emitter.emit run (.batch changes)
  else changes.forM fun c => Emitter.emit run (.single c)

/-- An edit is made on the board. Nobody is told yet, and its result is not looked at. -/
def enact {α : Type} (edit : Edit α) : Action Editor (Except Error α × Progress) := do
  let (result, progress) := edit.run { diagram := (← get).diagram }
  onBoard fun b =>
    { b with diagram := progress.diagram, journal := b.journal ++ progress.changes }
  return (result, progress)

/-- An edit is made and told. The answer is its result and all changes that listeners made
since. A failure in telling hides a failure of the edit. -/
def perform {α : Type} (run : Runner) (edit : Edit α) : Action Editor (α × List Change) := do
  let (result, progress) ← enact edit
  let told := (← get).content.journal.length
  publish run progress.changes progress.grouped
  let result ← ExceptT.mk (pure result)
  return (result, (← get).content.journal.drop told)

/-! ### Single commands

An entity in an answer is as its listeners left it. -/

/-- Adds a node. -/
def addNode (run : Runner) (n : Node) : Action Editor Node := do
  let (n, later) ← perform run (Edit.addNode n)
  return n.followed later

/-- Adds an edge. -/
def addEdge (run : Runner) (e : Edge) : Action Editor Edge := do
  let (e, later) ← perform run (Edit.addEdge e)
  return e.followed later

/-- Adds a subgraph. -/
def addSubgraph (run : Runner) (g : Subgraph) : Action Editor Subgraph := do
  let _ ← perform run (Edit.addSubgraph g)
  match (← get).diagram.subgraph? g.id with
  | some g => return g
  | none => throw (.lostSubgraph g.id.shown)

/-- Changes fields of a node, if there is one with the id. -/
def updateNode (run : Runner) (id : Value) (changes : Fields) : Action Editor (Option Node) := do
  let (n, later) ← perform run (Edit.updateNode id changes)
  return n.map fun n => n.followed later

/-- Changes fields of an edge, if there is one with the id. -/
def updateEdge (run : Runner) (id : Value) (changes : Fields) : Action Editor (Option Edge) := do
  let (e, later) ← perform run (Edit.updateEdge id changes)
  return e.map fun e => e.followed later

/-- Changes fields of a subgraph, if there is one with the id. -/
def updateSubgraph (run : Runner) (id : Value) (changes : Fields) :
    Action Editor (Option Subgraph) := do
  let (g, later) ← perform run (Edit.updateSubgraph id changes)
  return g.map fun g => g.followed later

/-- Removes a node with all edges that touch it. -/
def removeNode (run : Runner) (id : Value) : Action Editor Bool := do
  return (← perform run (Edit.removeNode id)).1

/-- Removes an edge. -/
def removeEdge (run : Runner) (id : Value) : Action Editor Bool := do
  return (← perform run (Edit.removeEdge id)).1

/-- Removes a subgraph. -/
def removeSubgraph (run : Runner) (id : Value) : Action Editor Bool := do
  return (← perform run (Edit.removeSubgraph id)).1

/-- Defines a class of styles, or defines it anew. -/
def defineClass (name : Text) (styles : List Value) : Action Editor Unit := do
  let _ ← enact (Edit.changeClasses (Keyed.put (name, styles)))

/-- Removes a class of styles. Was there one? -/
def removeClass (name : Text) : Action Editor Bool := do
  let existed ← ask fun d => Keyed.has name d.classes
  let _ ← enact (Edit.changeClasses (Keyed.remove name))
  return existed

/-- Turns the diagram by a word of the notation. -/
def setDirection (run : Runner) (word : Value) : Action Editor Unit := do
  let _ ← perform run (Edit.setDirection word)

/-- Removes everything. -/
def clear (run : Runner) : Action Editor Unit := do
  let _ ← perform run Edit.clear

/-- A batch begins. -/
def beginBatch : Action Editor Unit := onBoard fun b => { b with depth := b.depth + 1 }

/-- A batch ends. With the last one everything kept back is told. -/
def endBatch (run : Runner) : Action Editor Unit := do
  let b := (← get).content
  onBoard fun b => { b with depth := b.depth - 1 }
  if b.depth = 1 && !b.buffered.isEmpty then
    onBoard fun b => { b with buffered := [] }
    Emitter.emit run (.batch b.buffered)

/-- An action within a batch. The batch ends even if the action fails, and a failure in
ending it comes first. -/
def within {α : Type} (run : Runner) (action : Action Editor α) : Action Editor α := do
  beginBatch
  let result ← ExceptT.lift action.run
  endBatch run
  ExceptT.mk (pure result)

/-! ### Commands as data -/

mutual

/-- Carries out a command. -/
def obey (run : Runner) : Command → Action Editor Answer
  | .addNode n => return .node (some (← addNode run n))
  | .addEdge e => return .edge (some (← addEdge run e))
  | .addSubgraph g => return .subgraph (some (← addSubgraph run g))
  | .updateNode id changes => return .node (← updateNode run id changes)
  | .updateEdge id changes => return .edge (← updateEdge run id changes)
  | .updateSubgraph id changes => return .subgraph (← updateSubgraph run id changes)
  | .removeNode id => return .truth (← removeNode run id)
  | .removeEdge id => return .truth (← removeEdge run id)
  | .removeSubgraph id => return .truth (← removeSubgraph run id)
  | .hasNode id => return .truth (← askOf id fun d => d.hasNode id)
  | .hasEdge id => return .truth (← askOf id fun d => d.hasEdge id)
  | .hasSubgraph id => return .truth (← askOf id fun d => d.hasSubgraph id)
  | .getNode id => return .node (← askOf id fun d => d.node? id)
  | .getEdge id => return .edge (← askOf id fun d => d.edge? id)
  | .getSubgraph id => return .subgraph (← askOf id fun d => d.subgraph? id)
  | .edgesAt node => return .edges (← ask fun d => d.edgesAt node)
  | .defineClass name styles => (fun _ => .done) <$> defineClass name styles
  | .removeClass name => return .truth (← removeClass name)
  | .getClass name => return .styles (← ask fun d => (Keyed.find? name d.classes).map (·.2))
  | .setDirection word => (fun _ => .done) <$> setDirection run word
  | .getDirection => return .direction (← ask fun d => d.direction)
  | .beginBatch => (fun _ => .done) <$> beginBatch
  | .endBatch => (fun _ => .done) <$> endBatch run
  | .inBatch => return .truth ((← get).content.depth > 0)
  | .withBatch steps => return .several (← within run (obeyAll run steps))
  | .clear => (fun _ => .done) <$> clear run
  | .nodeCount => return .count (← ask fun d => d.nodes.length)
  | .edgeCount => return .count (← ask fun d => d.edges.length)
  | .listNodes => return .nodes (← ask fun d => d.nodes)
  | .listEdges => return .edges (← ask fun d => d.edges)
  | .listSubgraphs => return .subgraphs (← ask fun d => d.subgraphs)
  | .settled => return .diagram (← ask Diagram.settle)
  | .write layout => return .text (← ExceptT.mk (pure ((← get).diagram.write layout)))
  | .subscribe name reaction => do
    modify fun e => e.subscribe name reaction
    return .done
  | .unsubscribe name => do
    modify fun e => e.unsubscribe name
    return .done
  | .unsubscribeAll => do
    modify fun e => e.unsubscribeAll
    return .done
  | .listenerCount => return .count (← get).subscribed.length
  | .refuse e => throw e

/-- Carries out commands in order, up to the first failure. -/
def obeyAll (run : Runner) : List Command → Action Editor (List Answer)
  | [] => return []
  | c :: cs => do
    let answer ← obey run c
    return answer :: (← obeyAll run cs)

end

/-- Runs commands of listeners. The number bounds how deep they nest. -/
def replies : Nat → Runner
  | 0, _ => pure ()
  | depth + 1, c => do let _ ← obey (replies depth) c

mutual

/-- How many commands of listeners a command can bring in. -/
def weight : Command → Nat
  | .withBatch steps => weights steps
  | .subscribe _ reaction => reactionWeight reaction
  | _ => 0

/-- How many commands of listeners commands can bring in. -/
def weights : List Command → Nat
  | [] => 0
  | c :: cs => weight c + weights cs

/-- How many commands a reaction can have run. -/
def reactionWeight : Reaction Command → Nat
  | .act c => weight c + 1
  | _ => 0

end

/-- How many commands of listeners are still to be run. -/
def due (e : Editor) : Nat :=
  (e.known.filter fun l => !l.spent).foldr (fun l n => reactionWeight l.reaction + n) 0

/-- An action during which all commands of listeners are run. -/
def attended {α : Type} (action : Runner → Action Editor α) : Action Editor α := do
  action (replies (← get).due)

/-- Carries out a command. -/
def run (c : Command) : Action Editor Answer := do
  obey (replies ((← get).due + weight c)) c

/-- The editor with another diagram and a fresh board. All listeners are gone. -/
def reopened (e : Editor) (diagram : Diagram) : Editor :=
  { e with content := { diagram }, subscribed := [] }

end Editor
end Flowchart
