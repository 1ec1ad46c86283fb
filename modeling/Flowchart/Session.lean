import Flowchart.Debounce
import Flowchart.Editor
import Flowchart.Graph
import Flowchart.History
import Flowchart.Source.Reading

/-! A session keeps text and diagram in step. Text that comes in is read into a new diagram;
an edit of the diagram is recorded, so that it can be undone, and after a pause the diagram
is written and handed to a receiver. The notation has no words for places, so a session keeps
a table of them beside the diagram and applies it to what it reads. Moving a node is no edit:
it is not recorded and nothing is written for it. -/
namespace Flowchart

/-- What becomes of text that is handed out. -/
inductive Receiver where
  /-- Nobody wants it, and it is not written at all. -/
  | absent
  /-- It is taken. -/
  | takes
  /-- It is taken, and then the receiver fails. -/
  | fails
  deriving DecidableEq, Repr

/-- Places by node. -/
abbrev Places := List (Value × Position)

/-- What an undo brings back. -/
structure Snapshot where
  diagram : Diagram
  places : Places
  deriving DecidableEq, Repr

/-- A session. -/
structure Session where
  editor : Editor := .ofDiagram .empty
  places : Places := []
  history : History Snapshot
  timer : Timer := {}
  receiver : Receiver := .takes
  layout : Layout := {}
  /-- The texts handed out so far. -/
  codes : List Text := []
  /-- The notes made so far. -/
  notes : List Note := []

instance : Debounced Session where
  timer s := s.timer
  setTimer timer s := { s with timer }
  addNote note s := { s with notes := s.notes ++ [note] }

namespace Session

/-- The diagram of a session. -/
def diagram (s : Session) : Diagram := s.editor.diagram

/-- What an undo back to now would bring back. -/
def snapshot (s : Session) : Snapshot := ⟨s.diagram, s.places⟩

/-- The result of a reading or a writing, or its failure. -/
def ofExcept {α : Type} (r : Except Error α) : Action Session α := ExceptT.mk (pure r)

/-- Makes a note. -/
def note (n : Note) : Action Session Unit := modify (Debounced.addNote n)

/-- An action of the editor within the session. -/
def onEditor {α : Type} (action : Action Editor α) : Action Session α :=
  ExceptT.mk fun s =>
    let (result, editor) := action.run s.editor
    (result, { s with editor })

/-- A command of the editor within the session. -/
def command {α : Type} (action : Editor.Runner → Action Editor α) : Action Session α :=
  onEditor (Editor.attended action)

/-! ### Text -/

/-- The text of the diagram. -/
def code : Action Session Text := do
  let s ← get
  ofExcept (s.diagram.write s.layout)

/-- Hands the text of the diagram to the receiver. -/
def handOut : Action Session Unit := do
  match (← get).receiver with
  | .absent => pure ()
  | .takes =>
    let text ← code
    modify fun s => { s with codes := s.codes ++ [text] }
  | .fails =>
    let text ← code
    modify fun s => { s with codes := s.codes ++ [text] }
    throw .receiverFailed

/-- Hands waiting text out at once. Was it waiting? -/
def flush : Action Session Bool := do
  let waiting ← Debounced.flush handOut
  if waiting then note .flushed
  return waiting

/-- The pause after the last edit is over. Was text waiting? -/
def elapse : Action Session Bool := Debounced.elapse handOut

/-- Puts a node at a place, if it exists. -/
def place (id : Value) (p : Position) : Action Session Unit := do
  if (← get).diagram.hasNode id then
    let _ ← command fun run => Editor.updateNode run id [("position".toList, p.toData)]

/-- Puts all nodes of the table at their places. -/
def placeAll : Action Session Unit := do
  (← get).places.forM fun (id, p) => place id p

/-- Reads text into a new diagram. If that fails, all stays as it was. -/
def load (text : Text) : Action Session Diagram := do
  match Diagram.read text with
  | .error e =>
    note .unreadableText
    throw e
  | .ok d =>
    modify fun s => { s with editor := s.editor.reopened d }
    placeAll
    let _ ← Debounced.cancel (σ := Session)
    return (← get).diagram

/-! ### Places -/

/-- Moves a node. The place is kept even if there is no such node yet. -/
def moveNode (id : Value) (p : Position) : Action Session Unit := do
  let id ← ofExcept id.simple
  modify fun s => { s with places := Keyed.put (id, p) s.places }
  place id p

/-- The place of a node in the table. -/
def placeOf (s : Session) (id : Value) : Option Position :=
  (Keyed.find? id s.places).map (·.2)

/-- The place of a node in the table, unless nothing can be looked up by its id. -/
def placeOf? (s : Session) (id : Value) : Except Error (Option Position) := do
  return s.placeOf (← id.simple)

/-- A table of places from plain data. Of several places for one node only the last counts,
and that it is no place is noticed only then. -/
def placesOfData (table : List (Value × Value)) : Except Error Places := do
  table.forM fun entry => (fun _ => ()) <$> entry.1.simple
  (table.foldl (fun found entry => Keyed.put entry found) []).mapM fun (id, v) => do
    match ← Position.ofData? v with
    | some p => return (id, p)
    | none => .error .noRecord

/-- Replaces the table by one in plain data. If it cannot be read, all stays as it was. -/
def setPlaces (table : List (Value × Value)) : Action Session Unit := do
  let places ← ofExcept (placesOfData table)
  modify fun s => { s with places }
  placeAll

/-! ### Edits -/

/-- An edit. If it changes something, it can be undone and text will be handed out. -/
def edit {α : Type} (changes : α → Bool) (action : Action Session α) : Action Session α := do
  let before := (← get).snapshot
  let result ← action
  if changes result then
    modify fun s => { s with history := s.history.record before }
    Debounced.schedule
  return result

/-- The place that a node is added at: further fields come before the argument, and what they
hold is no place. -/
def placeFor (position : Option Position) (fields : Fields) : Except Error (Option Position) :=
  match fields.get? "position" with
  | none => .ok position
  | some .null => .ok none
  | some _ => .error .noRecord

/-- The node that is added. Further fields come before the other arguments; without a text the
node shows the id in the arguments, also if the fields give it another one. -/
def nodeFor (id text shape : Value) (fields : Fields) : Except Error Node := do
  if fields.any fun f => (Edit.reserved .node).contains f.1 then throw .wrongForm
  let text := (fields.get? "text").getD text
  let others : Fields := Keyed.remove "position".toList (Keyed.remove "text".toList fields)
  Node.ofData <| .record <| others.otherwise [
    ("id", id), ("text", if text.isSome then text else id), ("shape", shape)]

/-- Adds a node. A place is looked at only after the node has been added. -/
def addNode (id text shape : Value) (position : Option Position) (fields : Fields) :
    Action Session Node :=
  edit (fun _ => true) do
    let n ← ofExcept (nodeFor id text shape fields)
    let n ← command fun run => Editor.addNode run n
    match ← ofExcept (placeFor position fields) with
    | none => return n
    | some p =>
      let id ← ofExcept id.simple
      modify fun s => { s with places := Keyed.put (id, p) s.places }
      let moved ← command fun run => Editor.updateNode run id [("position".toList, p.toData)]
      return moved.getD n

/-- Changes fields of a node, if there is one with the id. -/
def updateNode (id : Value) (changes : Fields) : Action Session (Option Node) :=
  edit Option.isSome <| command fun run => Editor.updateNode run id changes

/-- Removes a node, its place and all edges that touch it. -/
def removeNode (id : Value) : Action Session Bool :=
  edit (fun removed => removed) do
    let removed ← command fun run => Editor.removeNode run id
    if removed then modify fun s => { s with places := Keyed.remove id s.places }
    return removed

/-- The edge that is added. Further fields must not name its ends, nor the session itself. -/
def edgeFor (source target : Value) (fields : Fields) : Except Error Edge := do
  if fields.any fun f => ["self".toList, "source", "target"].contains f.1 then throw .wrongForm
  Edge.ofDraft <| .record <| fields.otherwise [("source", source), ("target", target)]

/-- Adds an edge. -/
def addEdge (source target : Value) (fields : Fields) : Action Session Edge :=
  edit (fun _ => true) do
    let e ← ofExcept (edgeFor source target fields)
    command fun run => Editor.addEdge run e

/-- Changes fields of an edge, if there is one with the id. -/
def updateEdge (id : Value) (changes : Fields) : Action Session (Option Edge) :=
  edit Option.isSome <| command fun run => Editor.updateEdge run id changes

/-- Removes an edge. -/
def removeEdge (id : Value) : Action Session Bool :=
  edit (fun removed => removed) <| command fun run => Editor.removeEdge run id

/-- The id `N` with a number. -/
def numberedId (n : Nat) : Text := 'N' :: Text.ofNat n

/-- The first free id of this form from a number on. The first argument bounds how many are
tried; one more than there are nodes suffices. -/
def freeId (d : Diagram) : Nat → Nat → Text
  | 0, n => numberedId n
  | tries + 1, n => if d.hasNode (numberedId n) then freeId d tries (n + 1) else numberedId n

/-- The id of the next node that comes without one. -/
def nextId (d : Diagram) : Text := freeId d (d.nodes.length + 1) (d.nodes.length + 1)

/-- The place halfway between two nodes, if both have one. -/
def halfway (s : Session) (source target : Value) : Except Error (Option Position) :=
  match s.placeOf source, s.placeOf target with
  | some p, some q => (p.middle q).map some
  | _, _ => .ok none

/-- Puts a new node on the first edge from one node to another, if there is one. Without an
id the node gets a free one, without a text it shows its id, and it is placed halfway. -/
def splitEdge (source target shape id text : Value) : Action Session (Option Node) := do
  let s ← get
  let ids ← ofExcept do (← Graph.ofDiagram? s.diagram).between? source target
  match ids.head?.bind fun id => s.diagram.edge? id with
  | none => return none
  | some e =>
    let id := id.orElse (.text (nextId s.diagram))
    edit Option.isSome do
      let n ← ofExcept <| Node.ofData <| .record [
        ("id", id), ("text", text.orElse id), ("shape", shape)]
      let position := s.halfway source target
      let (result, progress) ← onEditor (Editor.enact (Edit.splitEdge e n position))
      match result, position with
      | .ok _, .ok (some p) => modify fun s => { s with places := Keyed.put (id, p) s.places }
      | _, _ => pure ()
      command fun run => Editor.publish run progress.changes progress.grouped
      return some (← ofExcept result)

/-! ### Undo and redo -/

/-- One step through the history. The new present is written and handed out at once. -/
def step (there : Option (Snapshot × History Snapshot)) (told : History Snapshot → Note) :
    Action Session Bool := do
  match there with
  | none => return false
  | some (snapshot, history) =>
    modify fun s => { s with
      history, places := snapshot.places
      editor := s.editor.reopened snapshot.diagram.settle }
    note (told history)
    let _ ← Debounced.cancel (σ := Session)
    handOut
    return true

/-- Takes the last edit back. Was there one? -/
def undo : Action Session Bool := do
  let s ← get
  step (s.history.back? s.snapshot) fun h => .undone h.past.length

/-- Makes the edit again that was taken back last. Was there one? -/
def redo : Action Session Bool := do
  let s ← get
  step (s.history.forth? s.snapshot) fun h => .redone h.future.length

/-! ### Beginning and end -/

/-- A session. -/
def start (limit : Value) (layout : Layout) : Except Error Session := do
  return { history := ← History.ofData limit, layout }

/-- Empties the session. Nothing is handed out. -/
def clear : Action Session Unit := do
  let _ ← Debounced.cancel (σ := Session)
  modify fun s => { s with
    editor := s.editor.reopened .empty, places := [], history := s.history.cleared }

/-- Ends the session: nothing is handed out any more, and nobody listens. -/
def close : Action Session Unit := do
  let _ ← Debounced.cancel (σ := Session)
  modify fun s => { s with
    editor := s.editor.unsubscribeAll, places := [], history := s.history.cleared
    receiver := .absent }

end Session
end Flowchart
