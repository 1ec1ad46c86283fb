import Flowchart.Proofs.Atomicity
import Flowchart.Proofs.Settling
import Flowchart.Proofs.Timeline
import Flowchart.Session

/-! Undo and redo of a session. A session that follows a timeline through edits, undos and redos
always stands where the timeline stands. Going back restores the diagram as it comes back from
plain data; that is the diagram itself as long as it lasts. -/
namespace Flowchart
open Action

/-! ### Edits that report no change -/

namespace Edit
variable {p : Progress}

theorem updateNode_idle (id : Value) (changes : Fields) :
    Ends (updateNode id changes) p (fun x q => x.isSome = false → q = p) fun _ _ => True := by
  simp only [updateNode, ends_bind, ends_diagram]
  refine (checkNames_guards ..).pass (fun _ _ => ?_) fun _ => trivial
  refine (checkId_guards id).pass (fun _ _ => ?_) fun _ => trivial
  split
  · exact fun _ => rfl
  · rename_i n _
    simp only [ends_bind]
    refine (checkFields_guards ..).pass (fun _ _ => ?_) fun _ => trivial
    refine (ofExcept_guards _).pass (fun set _ => ?_) fun _ => trivial
    refine (checkParent_guards _).pass (fun _ _ => ?_) fun _ => trivial
    have reports : ∀ q : Progress, Ends (do
        change (.nodeUpdated n (set n))
        return some (set n)) q (fun x r => x.isSome = false → r = p) fun _ _ => True := by simp
    split
    · exact reports p
    · simp only [ends_bind, ends_group]
      refine ends_always (fun _ q => ends_always (fun _ r => ?_) fun _ _ => trivial)
        fun _ _ => trivial
      exact reports r

theorem updateEdge_idle (id : Value) (changes : Fields) :
    Ends (updateEdge id changes) p (fun x q => x.isSome = false → q = p) fun _ _ => True := by
  simp only [updateEdge, ends_bind, ends_diagram]
  refine (checkNames_guards ..).pass (fun _ _ => ?_) fun _ => trivial
  refine (checkId_guards id).pass (fun _ _ => ?_) fun _ => trivial
  split
  · exact fun _ => rfl
  · simp only [ends_bind]
    refine (checkFields_guards ..).pass (fun _ _ => ?_) fun _ => trivial
    refine (checkChangedEnd_guards ..).pass (fun _ _ => ?_) fun _ => trivial
    refine (checkChangedEnd_guards ..).pass (fun _ _ => ?_) fun _ => trivial
    refine (ofExcept_guards _).pass (fun set _ => ?_) fun _ => trivial
    simp

theorem removeNode_idle (id : Value) :
    Ends (removeNode id) p (fun x q => x = false → q = p) fun _ _ => True := by
  simp only [removeNode, ends_bind, ends_diagram]
  refine (checkId_guards id).pass (fun _ _ => ?_) fun _ => trivial
  split
  · exact fun _ => rfl
  · simp only [ends_bind, ends_group, ends_change, ends_pure]
    refine ends_always (fun _ q => ends_always (fun _ r => ?_) fun _ _ => trivial) fun _ _ => trivial
    simp

theorem removeEdge_idle (id : Value) :
    Ends (removeEdge id) p (fun x q => x = false → q = p) fun _ _ => True := by
  simp only [removeEdge, ends_bind, ends_diagram]
  refine (checkId_guards id).pass (fun _ _ => ?_) fun _ => trivial
  split
  · exact fun _ => rfl
  · simp

end Edit

namespace Editor

theorem perform_idle {α : Type} {edit : Edit α} {silent : α → Prop} {run : Runner} {e : Editor}
    (idle : Ends edit e.opening (fun x q => silent x → q = e.opening) fun _ _ => True) :
    Ends (perform run edit) e (fun x t => silent x.1 → t = e) fun _ _ => True := by
  simp only [perform, ends_bind, ends_enact, ends_get]
  unfold Ends at idle
  cases result : (edit.run.run e.opening).1 with
  | error failure =>
    refine ends_always (fun _ t => ?_) fun _ _ => trivial
    exact trivial
  | ok x =>
    simp only [result] at idle
    by_cases quiet : silent x
    · rw [idle quiet, afterEdit_opening]
      refine (publish_nothing _).imp (fun _ t ht => ?_) fun _ _ ht => ht
      exact fun _ => ht
    · refine ends_always (fun _ t => ?_) fun _ _ => trivial
      exact fun still => absurd still quiet

end Editor

namespace Session
open Editor (Lasts)

theorem run_onEditor {α : Type} (a : Action Editor α) (s : Session) :
    (onEditor a).run.run s =
      ((a.run.run s.editor).1, { s with editor := (a.run.run s.editor).2 }) := rfl

@[simp] theorem ends_onEditor {α : Type} {a : Action Editor α} {s : Session}
    {ok : α → Session → Prop} {err : Error → Session → Prop} :
    Ends (onEditor a) s ok err ↔
      Ends a s.editor (fun x e => ok x { s with editor := e }) fun x e =>
        err x { s with editor := e } := by
  unfold Ends
  rw [run_onEditor]

@[simp] theorem ends_ofExcept {α : Type} {r : Except Error α} {s : Session}
    {ok : α → Session → Prop} {err : Error → Session → Prop} :
    Ends (ofExcept r) s ok err ↔ (∀ x, r = .ok x → ok x s) ∧ ∀ e, r = .error e → err e s :=
  ends_except

/-! ### Actions of edits -/

section Edits
variable {s : Session} {α : Type}

theorem lasts_replies (depth : Nat) : Editor.Upholds Lasts (Editor.replies depth)
    (fun _ edit => Edit.Spreads .lasting edit) Command.IsTyped :=
  Editor.upholds_lasts _ (Editor.replies_keeps Editor.upholds_lasts depth)

/-- What the action of an edit keeps: the diagram lasts, and nothing is recorded or handed out. -/
structure Steady (s t : Session) : Prop where
  lasts : Lasts t.editor
  history : t.history = s.history
  receiver : t.receiver = s.receiver
  layout : t.layout = s.layout

theorem onEditor_steady {action : Action Editor α} (h : Keeps Lasts action) :
    Keeps (Steady s) (onEditor action) := by
  intro t ht
  rw [ends_onEditor]
  exact (h t.editor ht.lasts).imp (fun _ _ he => ⟨he, ht.history, ht.receiver, ht.layout⟩)
    fun _ _ he => ⟨he, ht.history, ht.receiver, ht.layout⟩

theorem command_steady {f : Editor.Runner → Action Editor α}
    (h : ∀ depth, Keeps Lasts (f (Editor.replies depth))) : Keeps (Steady s) (command f) := by
  refine onEditor_steady fun e he => ?_
  simp only [Editor.attended, ends_bind, ends_get]
  exact h e.due e he

theorem command_idle {f : Editor.Runner → Action Editor α} {silent : α → Prop}
    (h : ∀ depth e, Ends (f (Editor.replies depth)) e (fun x t => silent x → t = e)
      fun _ _ => True) :
    Ends (command f) s (fun x t => silent x → t = s) fun _ _ => True := by
  simp only [command, ends_onEditor, Editor.attended, ends_bind, ends_get]
  refine (h _ s.editor).imp (fun x t ht quiet => ?_) fun _ _ ht => ht
  rw [ht quiet]

theorem updateNode_steady (id : Value) {changes : Fields} (typed : changes.NameShapes) :
    Keeps (Steady s) (command fun run => Editor.updateNode run id changes) := by
  refine command_steady fun depth => ?_
  have h := lasts_replies depth
  have typed : (Command.updateNode id changes).IsTyped := typed
  exact keeps_bind (h.perform _ (h.makes.updateNode typed)) fun _ _ he => he

/-- How an edit leaves a session: with the state before it recorded, or as it was. -/
structure Edited (s : Session) (changed : Bool) (t : Session) : Prop where
  lasts : Lasts t.editor
  receiver : t.receiver = s.receiver
  layout : t.layout = s.layout
  recorded : changed = true → t.history = s.history.record s.snapshot
  idle : changed = false → t = s

theorem edit_edited {changes : α → Bool} {action : Action Session α} (lasts : Lasts s.editor)
    (keeps : Keeps (Steady s) action)
    (idle : Ends action s (fun x t => changes x = false → t = s) fun _ _ => True) :
    Ends (edit changes action) s (fun x t => Edited s (changes x) t) fun _ _ => True := by
  simp only [edit, ends_bind, ends_get]
  refine ((keeps s ⟨lasts, rfl, rfl, rfl⟩).and idle).imp ?_ fun _ _ _ => trivial
  rintro x t ⟨steady, idle⟩
  split
  · rename_i changed
    refine ⟨steady.lasts, steady.receiver, steady.layout, fun _ => ?_, fun same => ?_⟩
    · exact congrArg (fun h => h.record s.snapshot) steady.history
    · exact absurd (changed.symm.trans same) (by decide)
  · rename_i same
    refine ⟨steady.lasts, steady.receiver, steady.layout, fun changed => absurd changed same,
      fun h => ?_⟩
    exact idle h

end Edits

/-! ### Steps -/

/-- What is done to a session: edits, undo and redo. Listeners come, and pauses pass. -/
inductive Step where
  | addNode (id text shape : Value) (position : Option Position) (fields : Fields)
  | updateNode (id : Value) (changes : Fields)
  | removeNode (id : Value)
  | addEdge (source target : Value) (fields : Fields)
  | updateEdge (id : Value) (changes : Fields)
  | removeEdge (id : Value)
  | splitEdge (source target shape id text : Value)
  | undo
  | redo
  | listen (name : Text) (reaction : Reaction Command)
  | elapse

namespace Step

/-- Does the step edit the diagram? -/
def IsEdit : Step → Prop
  | .undo | .redo | .listen .. | .elapse => False
  | _ => True

/-- Does the step give fields the values that they are meant for? A listener that comes is asked
about the command that it has run. -/
def IsTyped : Step → Prop
  | .addNode _ _ shape _ fields =>
    Fields.NameShapes [("shape".toList, shape)] ∧ fields.NameShapes
  | .updateNode _ changes => changes.NameShapes
  | .updateEdge _ changes => changes.TellTruth
  | .splitEdge _ _ shape _ _ => Fields.NameShapes [("shape".toList, shape)]
  | .listen _ reaction => Command.reactsTyped reaction
  | _ => True

/-- Carries out the step. An edit answers whether it changed anything. -/
def run : Step → Action Session Bool
  | .addNode id text shape position fields =>
    (fun _ => true) <$> Session.addNode id text shape position fields
  | .updateNode id changes => Option.isSome <$> Session.updateNode id changes
  | .removeNode id => Session.removeNode id
  | .addEdge source target fields => (fun _ => true) <$> Session.addEdge source target fields
  | .updateEdge id changes => Option.isSome <$> Session.updateEdge id changes
  | .removeEdge id => Session.removeEdge id
  | .splitEdge source target shape id text =>
    Option.isSome <$> Session.splitEdge source target shape id text
  | .undo => Session.undo
  | .redo => Session.redo
  | .listen name reaction => do
    onEditor (modify fun e => e.subscribe name reaction)
    return true
  | .elapse => Session.elapse

end Step

/-! ### Each edit -/

section EachEdit
variable {s : Session}

theorem updateNode_idle (id : Value) (changes : Fields) :
    Ends (command fun run => Editor.updateNode run id changes) s
      (fun x t => x.isSome = false → t = s) fun _ _ => True := by
  refine command_idle fun depth e => ?_
  simp only [Editor.updateNode, ends_bind, ends_pure, Option.isSome_map]
  exact Editor.perform_idle (Edit.updateNode_idle id changes)

theorem updateEdge_idle (id : Value) (changes : Fields) :
    Ends (command fun run => Editor.updateEdge run id changes) s
      (fun x t => x.isSome = false → t = s) fun _ _ => True := by
  refine command_idle fun depth e => ?_
  simp only [Editor.updateEdge, ends_bind, ends_pure, Option.isSome_map]
  exact Editor.perform_idle (Edit.updateEdge_idle id changes)

theorem removeEdge_idle (id : Value) :
    Ends (command fun run => Editor.removeEdge run id) s (fun x t => x = false → t = s)
      fun _ _ => True := by
  refine command_idle fun depth e => ?_
  simp only [Editor.removeEdge, ends_bind, ends_pure]
  exact Editor.perform_idle (Edit.removeEdge_idle id)

/-- Where no node is removed, no place is forgotten either. -/
theorem removeNode_idle (id : Value) :
    Ends (do
      let removed ← command fun run => Editor.removeNode run id
      if removed then modify fun s => { s with places := Keyed.remove id s.places }
      return removed) s (fun x t => x = false → t = s) fun _ _ => True := by
  have idle : Ends (command fun run => Editor.removeNode run id) s
      (fun x t => x = false → t = s) fun _ _ => True := by
    refine command_idle fun depth e => ?_
    simp only [Editor.removeNode, ends_bind, ends_pure]
    exact Editor.perform_idle (Edit.removeNode_idle id)
  rw [ends_bind]
  refine idle.imp (fun removed t ht => ?_) fun _ _ ht => ht
  cases removed
  · exact ht
  · exact fun h => absurd h (by decide)

theorem updateNode_edited (lasts : Lasts s.editor) (id : Value) {changes : Fields}
    (typed : changes.NameShapes) :
    Ends (updateNode id changes) s (fun x t => Edited s x.isSome t) fun _ _ => True := by
  exact edit_edited lasts (updateNode_steady id typed) (updateNode_idle id changes)

theorem updateEdge_edited (lasts : Lasts s.editor) (id : Value) {changes : Fields}
    (typed : changes.TellTruth) :
    Ends (updateEdge id changes) s (fun x t => Edited s x.isSome t) fun _ _ => True := by
  refine edit_edited lasts (command_steady fun depth => ?_) (updateEdge_idle id changes)
  have h := lasts_replies depth
  have typed : (Command.updateEdge id changes).IsTyped := typed
  exact keeps_bind (h.perform _ (h.makes.updateEdge typed)) fun _ _ he => he

theorem removeEdge_edited (lasts : Lasts s.editor) (id : Value) :
    Ends (removeEdge id) s (fun x t => Edited s x t) fun _ _ => True := by
  refine edit_edited lasts (command_steady fun depth => ?_) (removeEdge_idle id)
  have h := lasts_replies depth
  have fine : (Command.removeEdge id).IsTyped := trivial
  exact keeps_bind (h.perform _ (h.makes.removeEdge fine)) fun _ _ he => he

theorem removeNode_edited (lasts : Lasts s.editor) (id : Value) :
    Ends (removeNode id) s (fun x t => Edited s x t) fun _ _ => True := by
  refine edit_edited lasts (keeps_bind (command_steady fun depth => ?_) fun removed t ht => ?_)
    (removeNode_idle id)
  · have h := lasts_replies depth
    have fine : (Command.removeNode id).IsTyped := trivial
    exact keeps_bind (h.perform _ (h.makes.removeNode fine)) fun _ _ he => he
  · cases removed
    · exact ht
    · exact ⟨ht.lasts, ht.history, ht.receiver, ht.layout⟩

theorem name_shape_nodeFor {id text shape : Value} {fields : Fields}
    (shaped : Fields.NameShapes [("shape".toList, shape)]) (named : fields.NameShapes) {n : Node}
    (read : nodeFor id text shape fields = .ok n) : n.shape.name ≠ [] := by
  unfold nodeFor at read
  split at read
  · cases read
  · refine Node.name_shape_ofData (fun t given => ?_) read
    rcases List.mem_append.mp given with given | given
    · exact named t (Keyed.mem_remove.mp (Keyed.mem_remove.mp given).1).1
    · refine shaped t ?_
      simpa using given

theorem addNode_edited (lasts : Lasts s.editor) (id text : Value) {shape : Value}
    (position : Option Position) {fields : Fields}
    (shaped : Fields.NameShapes [("shape".toList, shape)]) (named : fields.NameShapes) :
    Ends (addNode id text shape position fields) s (fun _ t => Edited s true t)
      fun _ _ => True := by
  refine edit_edited lasts ?_
    (ends_always (fun _ _ h => absurd h (by decide)) fun _ _ => trivial)
  intro t ht
  simp only [ends_bind, ends_ofExcept]
  refine ⟨fun n read => ?_, fun _ _ => ht⟩
  have typed : (Command.addNode n).IsTyped := name_shape_nodeFor shaped named read
  have added : Keeps (Steady s) (command fun run => Editor.addNode run n) := by
    refine command_steady fun depth => ?_
    have h := lasts_replies depth
    exact keeps_bind (h.perform _ (h.makes.addNode typed)) fun _ _ he => he
  refine (added t ht).imp (fun n u hu => ⟨fun place _ => ?_, fun _ _ => hu⟩) fun _ _ hu => hu
  cases place with
  | none => exact hu
  | some place =>
    simp only [ends_bind, ends_ofExcept, ends_modify, ends_pure]
    refine ⟨fun key _ => ?_, fun _ _ => hu⟩
    have moved : Steady s { u with places := Keyed.put (key, place) u.places } :=
      ⟨hu.lasts, hu.history, hu.receiver, hu.layout⟩
    refine updateNode_steady key (fun t given => ?_) _ moved
    simp at given

theorem settle_edgeFor {source target : Value} {fields : Fields} {e : Edge}
    (read : edgeFor source target fields = .ok e) : Diagram.settleEdge e = e := by
  unfold edgeFor at read
  split at read
  · cases read
  · simp only [Edge.ofDraft, bind_eq_ok] at read
    obtain ⟨_, _, read⟩ := read
    exact Edge.settle_ofData read

theorem addEdge_edited (lasts : Lasts s.editor) (source target : Value) (fields : Fields) :
    Ends (addEdge source target fields) s (fun _ t => Edited s true t) fun _ _ => True := by
  refine edit_edited lasts ?_
    (ends_always (fun _ _ h => absurd h (by decide)) fun _ _ => trivial)
  intro t ht
  simp only [ends_bind, ends_ofExcept]
  refine ⟨fun e read => ?_, fun _ _ => ht⟩
  have typed : (Command.addEdge e).IsTyped := settle_edgeFor read
  refine command_steady (fun depth => ?_) t ht
  have h := lasts_replies depth
  exact keeps_bind (h.perform _ (h.makes.addEdge typed)) fun _ _ he => he

theorem splitEdge_lasting (e : Edge) {n : Node} (named : n.shape.name ≠ [])
    (position : Except Error (Option Position)) :
    Edit.Spreads .lasting (Edit.splitEdge e n position) := by
  refine Edit.splitEdge_spreads (fun _ => named) (fun _ _ _ _ _ => rfl) fun p => ?_
  exact Edit.lets_shapes fun t given => by simp at given

theorem enact_lasts {α : Type} {edit : Edit α} (spreads : Edit.Spreads .lasting edit) :
    Keeps Lasts (Editor.enact edit) := fun e he =>
  ⟨(spreads e.opening he.diagram).state, he.fine⟩

theorem publish_lasts (depth : Nat) (changes : List Change) (grouped : Bool) :
    Keeps Lasts (Editor.publish (Editor.replies depth) changes grouped) :=
  Editor.publish_keeps_hosts (Editor.replies_keeps Editor.upholds_lasts depth) changes grouped

theorem splitEdge_edited (lasts : Lasts s.editor) (source target : Value) {shape : Value}
    (id text : Value) (shaped : Fields.NameShapes [("shape".toList, shape)]) :
    Ends (splitEdge source target shape id text) s (fun x t => Edited s x.isSome t)
      fun _ _ => True := by
  simp only [splitEdge, ends_bind, ends_get, ends_ofExcept]
  refine ⟨fun ids _ => ?_, fun _ _ => trivial⟩
  split
  · exact ⟨lasts, rfl, rfl, fun h => absurd h (by decide), fun _ => rfl⟩
  · rename_i e _
    refine edit_edited lasts ?_ ?_
    · intro t ht
      simp only [ends_bind, ends_ofExcept]
      refine ⟨fun n read => ?_, fun _ _ => ht⟩
      have named : n.shape.name ≠ [] := by
        refine Node.name_shape_ofData (fun t given => shaped t ?_) read
        simpa using given
      have made := enact_lasts (splitEdge_lasting e named (s.halfway source target))
      refine (onEditor_steady made t ht).imp (fun ended u hu => ?_) fun _ _ hu => hu
      -- whether a place is kept or not, the changes are told
      have told : Keeps (Steady s) (do
          command fun run => Editor.publish run ended.2.changes ended.2.grouped
          return some (← ofExcept ended.1)) := by
        refine keeps_bind (command_steady fun depth => publish_lasts depth _ _) fun _ v hv => ?_
        simp only [ends_bind, ends_ofExcept, ends_pure]
        exact ⟨fun _ _ => hv, fun _ _ => hv⟩
      split
      · exact told _ ⟨hu.lasts, hu.history, hu.receiver, hu.layout⟩
      · exact told _ hu
    · simp only [ends_bind, ends_ofExcept]
      refine ⟨fun n _ => ends_always (fun ended u => ?_) fun _ _ => trivial, fun _ _ => trivial⟩
      have answers : ∀ v, Ends (do
          command fun run => Editor.publish run ended.2.changes ended.2.grouped
          return some (← ofExcept ended.1)) v
          (fun x t => x.isSome = false → t = s) fun _ _ => True := by
        intro v
        simp only [ends_bind, ends_ofExcept, ends_pure]
        exact ends_always (fun _ w => ⟨fun _ _ => by simp, fun _ _ => trivial⟩) fun _ _ => trivial
      split
      · exact answers _
      · exact answers u

/-- Every edit either records the state before it or leaves the session as it was. -/
theorem Step.edited {step : Step} (isEdit : step.IsEdit) (typed : step.IsTyped)
    (lasts : Lasts s.editor) : Ends step.run s (fun b t => Edited s b t) fun _ _ => True := by
  cases step with
  | addNode id text shape position fields =>
    rw [Step.run, ends_map]
    exact addNode_edited lasts id text position typed.1 typed.2
  | updateNode id changes =>
    rw [Step.run, ends_map]
    exact updateNode_edited lasts id typed
  | removeNode id => exact removeNode_edited lasts id
  | addEdge source target fields =>
    rw [Step.run, ends_map]
    exact addEdge_edited lasts source target fields
  | updateEdge id changes =>
    rw [Step.run, ends_map]
    exact updateEdge_edited lasts id typed
  | removeEdge id => exact removeEdge_edited lasts id
  | splitEdge source target shape id text =>
    rw [Step.run, ends_map]
    exact splitEdge_edited lasts source target id text typed
  | undo | redo | listen _ _ | elapse => exact isEdit.elim

end EachEdit

/-! ### Undo, redo and what is handed out -/

/-- Sessions that differ only in what was handed out and noted, and in the timer. -/
structure Alike (s t : Session) : Prop where
  editor : t.editor = s.editor
  places : t.places = s.places
  history : t.history = s.history
  receiver : t.receiver = s.receiver
  layout : t.layout = s.layout

theorem Alike.refl (s : Session) : Alike s s := ⟨rfl, rfl, rfl, rfl, rfl⟩

/-- What comes of handing out the text of a diagram: nothing if nobody wants it, and otherwise
perhaps a failure to write it. -/
def handedOut (s : Session) (d : Diagram) : Except Error Bool :=
  if s.receiver = .absent then .ok true else (d.write s.layout).map fun _ => true

section Restore
variable {s : Session}

theorem handOut_ends (calm : s.receiver ≠ .fails) :
    Ends handOut s (fun _ t => Alike s t ∧ s.handedOut s.diagram = .ok true)
      fun e t => Alike s t ∧ s.handedOut s.diagram = .error e := by
  simp only [handOut, ends_bind, ends_get]
  split
  · rename_i absent
    exact ⟨.refl s, if_pos absent⟩
  · rename_i takes
    have wanted : s.receiver ≠ .absent := by
      rw [takes]
      decide
    simp only [code, ends_bind, ends_get, ends_ofExcept, ends_modify, handedOut, if_neg wanted]
    refine ⟨fun text written => ⟨⟨rfl, rfl, rfl, rfl, rfl⟩, ?_⟩, fun e failed => ⟨.refl s, ?_⟩⟩
    · rw [written]
      rfl
    · rw [failed]
      rfl
  · rename_i fails
    exact absurd fails calm

theorem handOut_alike : Ends handOut s (fun _ t => Alike s t) fun _ t => Alike s t := by
  simp only [handOut, code, ends_bind, ends_get]
  split <;> simp only [ends_bind, ends_get, ends_ofExcept, ends_modify, ends_pure, ends_throw]
  · exact .refl s
  · exact ⟨fun _ _ => ⟨rfl, rfl, rfl, rfl, rfl⟩, fun _ _ => .refl s⟩
  · exact ⟨fun _ _ => ⟨rfl, rfl, rfl, rfl, rfl⟩, fun _ _ => .refl s⟩

theorem elapse_alike : Ends elapse s (fun _ t => Alike s t) fun _ t => Alike s t := by
  simp only [elapse, Debounced.elapse, ends_bind, ends_get]
  split
  · exact .refl s
  · rename_i number running
    simp only [Debounced.runOut, Debounced.cancel, ends_bind, ends_get, ends_modify, ends_pure,
      ends_tryCatch, running, if_true]
    refine handOut_alike.imp (fun _ t ht => ?_) fun _ t ht => ?_
    · exact ⟨ht.editor, ht.places, ht.history, ht.receiver, ht.layout⟩
    · exact ⟨ht.editor, ht.places, ht.history, ht.receiver, ht.layout⟩

/-- How a session is left that has gone to another state. -/
structure Restored (s : Session) (there : Snapshot) (history : History Snapshot) (t : Session) :
    Prop where
  lasts : Lasts t.editor
  snapshot : t.snapshot = there
  history : t.history = history
  receiver : t.receiver = s.receiver
  layout : t.layout = s.layout

theorem step_ends (calm : s.receiver ≠ .fails) (lasts : Lasts s.editor) {there : Snapshot}
    (still : there.diagram.Has .lasting) (history : History Snapshot)
    (told : History Snapshot → Note) :
    Ends (step (some (there, history)) told) s
      (fun b t => Restored s there history t ∧ s.handedOut there.diagram = .ok b)
      fun e t => Restored s there history t ∧ s.handedOut there.diagram = .error e := by
  simp only [step, note, Debounced.cancel, ends_bind, ends_modify, ends_get, ends_pure,
    still.settle_eq]
  -- what is handed out is the diagram that has been gone to
  have restored : ∀ u t : Session, Alike u t → u.editor = s.editor.reopened there.diagram →
      u.places = there.places → u.history = history → u.receiver = s.receiver →
      u.layout = s.layout → Restored s there history t := by
    intro u t alike editor places history receiver layout
    refine ⟨?_, ?_, alike.history.trans history, alike.receiver.trans receiver,
      alike.layout.trans layout⟩
    · rw [alike.editor, editor]
      exact ⟨still, lasts.fine⟩
    · rw [snapshot, diagram, alike.editor, editor, alike.places, places]
      rfl
  refine Ends.imp (handOut_ends ?_) ?_ ?_
  · exact calm
  · exact fun _ t ht => ⟨restored _ t ht.1 rfl rfl rfl rfl rfl, ht.2⟩
  · exact fun _ t ht => ⟨restored _ t ht.1 rfl rfl rfl rfl rfl, ht.2⟩

end Restore

/-! ### Runs -/

/-- Is the answer of an edit that something was changed? -/
def changed : Except Error Bool → Bool
  | .ok b => b
  | .error _ => false

/-- The timeline after a step. Undo and redo only move its cursor. An edit that has changed
something adds the state that there is now. -/
def Step.mark (limit : Nat) (answer : Except Error Bool) (now : Snapshot)
    (t : Timeline Snapshot) : Step → Timeline Snapshot
  | .undo => t.back
  | .redo => t.forth
  | .listen .. | .elapse => t
  | _ => if changed answer then t.record limit now else t

/-- A session and a timeline beside it, taken from step to step. -/
def follow (limit : Nat) (s : Session) (t : Timeline Snapshot) :
    List Step → Session × Timeline Snapshot
  | [] => (s, t)
  | step :: steps =>
    let r := step.run.run.run s
    follow limit r.2 (step.mark limit r.1 r.2.snapshot t) steps

/-- No edit on the way fails. -/
def Smooth (s : Session) : List Step → Prop
  | [] => True
  | step :: steps =>
    (step.IsEdit → (step.run.run.run s).1.isOk) ∧ Smooth (step.run.run.run s).2 steps

/-- The session stands where the timeline does, and can go where the timeline goes. -/
structure Mirrors (limit : Nat) (s : Session) (t : Timeline Snapshot) : Prop where
  history : s.history.Mirrors s.snapshot t
  limit : s.history.limit = limit
  lasts : Lasts s.editor
  states : ∀ x ∈ t.states, x.diagram.Has .lasting
  calm : s.receiver ≠ .fails

section Runs
variable {limit : Nat} {s : Session} {t : Timeline Snapshot}

theorem Mirrors.present_lasts (m : Mirrors limit s t) (u : Timeline Snapshot)
    (same : u.states = t.states) : u.present.diagram.Has .lasting :=
  m.states _ (same ▸ List.get_mem ..)

theorem Mirrors.restored (m : Mirrors limit s t) (u : Timeline Snapshot)
    (same : u.states = t.states) {h : History Snapshot} (history : h.Mirrors u.present u)
    (bound : h.limit = s.history.limit) {r : Session} (restored : Restored s u.present h r) :
    Mirrors limit r u where
  history := by
    rw [restored.history, restored.snapshot]
    exact history
  limit := by rw [restored.history, bound, m.limit]
  lasts := restored.lasts
  states := same ▸ m.states
  calm := restored.receiver ▸ m.calm

theorem Mirrors.undo_first (m : Mirrors limit s t) (first : t.cursor = 0) :
    undo.run.run s = (.ok false, s) := by
  show (step (s.history.back? s.snapshot) _).run.run s = _
  rw [m.history.back_none first]
  rfl

theorem Mirrors.redo_last (m : Mirrors limit s t) (last : t.cursor + 1 = t.states.length) :
    redo.run.run s = (.ok false, s) := by
  show (step (s.history.forth? s.snapshot) _).run.run s = _
  rw [m.history.forth_none last]
  rfl

theorem Mirrors.undo_ends (m : Mirrors limit s t) (later : 0 < t.cursor) :
    Ends undo s (fun b r => Mirrors limit r t.back ∧ s.handedOut t.back.present.diagram = .ok b)
      fun e r => Mirrors limit r t.back ∧ s.handedOut t.back.present.diagram = .error e := by
  obtain ⟨h, back, mirrors, bound⟩ := m.history.back later
  simp only [undo, ends_bind, ends_get, back]
  refine (step_ends m.calm m.lasts (m.present_lasts t.back rfl) h _).imp ?_ ?_
  · exact fun _ _ hr => ⟨m.restored t.back rfl mirrors bound hr.1, hr.2⟩
  · exact fun _ _ hr => ⟨m.restored t.back rfl mirrors bound hr.1, hr.2⟩

theorem Mirrors.redo_ends (m : Mirrors limit s t) (sooner : t.cursor + 1 < t.states.length) :
    Ends redo s (fun b r => Mirrors limit r t.forth ∧ s.handedOut t.forth.present.diagram = .ok b)
      fun e r => Mirrors limit r t.forth ∧ s.handedOut t.forth.present.diagram = .error e := by
  obtain ⟨h, forth, mirrors, bound⟩ := m.history.forth sooner
  simp only [redo, ends_bind, ends_get, forth]
  refine (step_ends m.calm m.lasts (m.present_lasts t.forth t.states_forth) h _).imp ?_ ?_
  · exact fun _ _ hr => ⟨m.restored t.forth t.states_forth mirrors bound hr.1, hr.2⟩
  · exact fun _ _ hr => ⟨m.restored t.forth t.states_forth mirrors bound hr.1, hr.2⟩

/-- An edit that changed something has added a state to the timeline, and what was before it is
one step back. -/
theorem Mirrors.edited (m : Mirrors limit s t) {changed : Bool} {r : Session}
    (edited : Edited s changed r) :
    Mirrors limit r (if changed then t.record limit r.snapshot else t) := by
  cases changed with
  | false =>
    rw [edited.idle rfl]
    exact m
  | true =>
    have history := edited.recorded rfl
    have recorded := m.history.record r.snapshot
    rw [m.limit] at recorded
    refine ⟨?_, ?_, edited.lasts, ?_, edited.receiver ▸ m.calm⟩
    · rw [history]
      exact recorded
    · rw [history]
      exact m.limit
    · intro x hx
      rcases List.mem_append.mp hx with hx | hx
      · exact m.states x (List.mem_of_mem_take (List.mem_of_mem_drop hx))
      · rw [List.mem_singleton.mp hx]
        exact edited.lasts.diagram

theorem Mirrors.listen (m : Mirrors limit s t) (name : Text) {reaction : Reaction Command}
    (typed : Command.reactsTyped reaction) :
    Mirrors limit { s with editor := s.editor.subscribe name reaction } t where
  history := m.history
  limit := m.limit
  lasts := by
    have fine : (Command.subscribe name reaction).IsTyped := typed
    exact (lasts_replies 0).subscribe fine s.editor m.lasts
  states := m.states
  calm := m.calm

theorem Mirrors.alike (m : Mirrors limit s t) {r : Session} (alike : Alike s r) :
    Mirrors limit r t where
  history := by
    rw [alike.history, snapshot, diagram, alike.editor, alike.places]
    exact m.history
  limit := by rw [alike.history, m.limit]
  lasts := alike.editor ▸ m.lasts
  states := m.states
  calm := alike.receiver ▸ m.calm

/-- A step takes the session where it takes the timeline. -/
theorem Mirrors.step (m : Mirrors limit s t) {step : Step} (typed : step.IsTyped)
    (smooth : step.IsEdit → (step.run.run.run s).1.isOk) :
    Mirrors limit (step.run.run.run s).2
      (step.mark limit (step.run.run.run s).1 (step.run.run.run s).2.snapshot t) := by
  -- every step but the four below is an edit
  have edited : step.IsEdit → Mirrors limit (step.run.run.run s).2
      (if changed (step.run.run.run s).1 then t.record limit (step.run.run.run s).2.snapshot
        else t) := by
    intro isEdit
    have ends := Step.edited isEdit typed m.lasts
    have succeeds := smooth isEdit
    unfold Ends at ends
    cases answer : (step.run.run.run s).1 with
    | ok b =>
      rw [answer] at ends
      exact m.edited ends
    | error e =>
      rw [answer] at succeeds
      cases succeeds
  cases step with
  | undo =>
    by_cases first : t.cursor = 0
    · rw [Step.run, m.undo_first first, Step.mark, Timeline.back_first first]
      exact m
    · have := (m.undo_ends (Nat.pos_of_ne_zero first)).imp (fun _ _ hr => hr.1) fun _ _ hr => hr.1
      exact this.state
  | redo =>
    by_cases sooner : t.cursor + 1 < t.states.length
    · have := (m.redo_ends sooner).imp (fun _ _ hr => hr.1) fun _ _ hr => hr.1
      exact this.state
    · have last : t.cursor + 1 = t.states.length :=
        Nat.le_antisymm t.inside (Nat.le_of_not_lt sooner)
      rw [Step.run, m.redo_last last, Step.mark, Timeline.forth_last last]
      exact m
  | listen name reaction => exact m.listen name typed
  | elapse =>
    have := elapse_alike.imp (fun _ _ hr => m.alike hr) fun _ _ hr => m.alike hr
    exact this.state
  | _ => exact edited trivial

theorem Mirrors.follow (m : Mirrors limit s t) {steps : List Step}
    (typed : ∀ step ∈ steps, step.IsTyped) (smooth : Smooth s steps) :
    Mirrors limit (follow limit s t steps).1 (follow limit s t steps).2 := by
  induction steps generalizing s t with
  | nil => exact m
  | cons step steps ih =>
    refine ih (m.step (typed step List.mem_cons_self) smooth.1) (fun x hx => ?_) smooth.2
    exact typed x (List.mem_cons_of_mem step hx)

/-- The session that a text has been read into. -/
def opened (s : Session) (text : Text) : Session := ((load text).run.run s).2

theorem opened_eq {s : Session} {text : Text} {d : Diagram} (read : Diagram.read text = .ok d)
    (unplaced : s.places = []) :
    opened s text = { s with editor := s.editor.reopened d, timer := s.timer.stop } := by
  cases s
  subst unplaced
  unfold opened load
  rw [read]
  rfl

theorem mirrors_opened {L : Int} {layout : Layout} {s₀ : Session}
    (started : start (.number (.int L)) layout = .ok s₀) {receiver : Receiver}
    (calm : receiver ≠ .fails) {text : Text} {d : Diagram} (read : Diagram.read text = .ok d) :
    Mirrors L.toNat (opened { s₀ with receiver } text) (.start ⟨d, []⟩) := by
  obtain ⟨h, bounded, ⟨⟩⟩ := bind_eq_ok.mp started
  have fresh : h.past = [] ∧ h.future = [] ∧ h.limit = L.toNat := by
    simp only [History.ofData, History.ofLimit] at bounded
    repeat' split at bounded
    all_goals cases bounded
    exact ⟨rfl, rfl, rfl⟩
  obtain ⟨r, _, settled⟩ := Diagram.read_sound read
  have lasting : d.Has .lasting := settled ▸ r.diagram.has_settle
  rw [opened_eq read rfl]
  refine ⟨History.mirrors_start fresh.1 fresh.2.1, fresh.2.2, Editor.hosts_ofDiagram lasting, ?_,
    calm⟩
  intro x hx
  rw [List.mem_singleton.mp hx]
  exact lasting

/-- What it is for a session to follow a timeline: it stands where the timeline does, and undo and
redo lead where the timeline's cursor leads. -/
structure Tracks (s : Session) (t : Timeline Snapshot) : Prop where
  present : s.snapshot = t.present
  undo_first : t.cursor = 0 → undo.run.run s = (.ok false, s)
  undo_later : 0 < t.cursor → (undo.run.run s).1 = s.handedOut t.back.present.diagram ∧
    (undo.run.run s).2.snapshot = t.back.present
  redo_last : t.cursor + 1 = t.states.length → redo.run.run s = (.ok false, s)
  redo_sooner : t.cursor + 1 < t.states.length →
    (redo.run.run s).1 = s.handedOut t.forth.present.diagram ∧
      (redo.run.run s).2.snapshot = t.forth.present
  redo_undo : 0 < t.cursor → (redo.run.run (undo.run.run s).2).2.snapshot = s.snapshot
  undo_edit : ∀ step : Step, step.IsEdit → step.IsTyped → (step.run.run.run s).1 = .ok true →
    (undo.run.run (step.run.run.run s).2).2.snapshot = s.snapshot

theorem Mirrors.tracks (m : Mirrors limit s t) : Tracks s t where
  present := m.history.present.symm
  undo_first := m.undo_first
  undo_later later := by
    have ends := (m.undo_ends later).result
    exact ⟨ends.1, ends.2.history.present.symm⟩
  redo_last := m.redo_last
  redo_sooner sooner := by
    have ends := (m.redo_ends sooner).result
    exact ⟨ends.1, ends.2.history.present.symm⟩
  redo_undo later := by
    have back := (m.undo_ends later).result.2
    have sooner : t.back.cursor + 1 < t.back.states.length := by
      rw [Timeline.cursor_back, Nat.sub_add_cancel later]
      exact t.inside
    have forth := (back.redo_ends sooner).result.2
    rw [Timeline.forth_back later] at forth
    exact forth.history.present.symm.trans m.history.present
  undo_edit step isEdit typed answer := by
    have ends := Step.edited isEdit typed m.lasts
    unfold Ends at ends
    rw [answer] at ends
    have edited := m.edited ends
    obtain ⟨later, before⟩ := m.history.back_record (step.run.run.run s).2.snapshot
    rw [m.limit] at later before
    have back := (edited.undo_ends later).result.2
    exact back.history.present.symm.trans before

/-- A session that starts with a text and goes on through edits that succeed, undos and redos
follows the timeline of its states, whose past is as long as the limit allows. -/
theorem session_follows_timeline {L : Int} {layout : Layout} {s₀ : Session}
    (started : start (.number (.int L)) layout = .ok s₀) {receiver : Receiver}
    (calm : receiver ≠ .fails) {text : Text} {d : Diagram} (read : Diagram.read text = .ok d)
    {steps : List Step} (typed : ∀ step ∈ steps, step.IsTyped)
    (smooth : Smooth (opened { s₀ with receiver } text) steps) :
    Tracks (follow L.toNat (opened { s₀ with receiver } text) (.start ⟨d, []⟩) steps).1
      (follow L.toNat (opened { s₀ with receiver } text) (.start ⟨d, []⟩) steps).2 :=
  ((mirrors_opened started calm read).follow typed smooth).tracks

end Runs

/-- A session that remembers two states. -/
def brief : Session := { history := { limit := 2, limit_pos := Nat.zero_lt_two } }

/-- Two nodes and an edge with an id of the author's. -/
def pairText : Text := "flowchart TB\n    A e@--> B"

/-- What the text describes. -/
def pair : Diagram := {
  nodes := [.bare (.text "A"), .bare (.text "B")]
  edges := [{ id := .text "e", source := .text "A", target := .text "B", named := .bool true }] }

theorem read_pair : Diagram.read pairText = .ok pair := by decide +kernel

/-- The edge goes, then both nodes go, and then two steps are taken back and one is taken again. -/
def dismantling : List Step :=
  [.removeEdge (.text "e"), .removeNode (.text "A"), .removeNode (.text "B"), .undo, .undo, .redo]

theorem dismantling_follows_timeline :
    start (.number (.int 2)) {} = .ok brief ∧ Diagram.read pairText = .ok pair ∧
      Tracks (follow 2 (opened brief pairText) (.start ⟨pair, []⟩) dismantling).1
        (follow 2 (opened brief pairText) (.start ⟨pair, []⟩) dismantling).2 := by
  have started : start (.number (.int 2)) {} = .ok brief := rfl
  have smooth : Smooth (opened { brief with receiver := .takes } pairText) dismantling := by
    rw [opened_eq read_pair rfl]
    refine ⟨fun _ => ?_, fun _ => ?_, fun _ => ?_, False.elim, False.elim, False.elim, trivial⟩
    all_goals decide +kernel
  have typed : ∀ step ∈ dismantling, step.IsTyped := by simp [dismantling, Step.IsTyped]
  exact ⟨started, read_pair, session_follows_timeline started (by decide) read_pair typed smooth⟩

/-- A second edge comes that is longer than any machine could write, and then a node. -/
def overlong : List Step := [
  .addEdge (.text "A") (.text "B")
    [("id", .text "f"), ("length", .number (.int 100000000000000000000))],
  .addNode (.text "C") .null (.text "rect") none []]

/-- An empty subgraph. -/
def emptyGroupText : Text := "flowchart TB\n    subgraph g\n    end"

/-- What the text describes. -/
def emptyGroup : Diagram := { subgraphs := [{ id := .text "g", title := .text "g" }] }

theorem read_emptyGroup : Diagram.read emptyGroupText = .ok emptyGroup := by decide +kernel

/-- Two nodes come, and a listener takes the title of the subgraph away when it hears of the
first. -/
def untitling : List Step := [
  .listen "listener" (.act (.updateSubgraph (.text "g") [("title", .text [])])),
  .addNode (.text "A") .null (.text "rect") none [],
  .addNode (.text "B") .null (.text "rect") none []]

/-- No edit, receiver or listener fails, and still undo does not answer that it went back, where the
text cannot be written; and it goes back to something else, where a title has become empty. -/
theorem undo_leaves_timeline :
    (let there := follow 2 (opened brief pairText) (.start ⟨pair, []⟩) overlong;
      Smooth (opened brief pairText) overlong ∧ there.2.cursor = 2 ∧
        (undo.run.run there.1).1 = .error .uncountable) ∧
    (let there := follow 2 (opened brief emptyGroupText) (.start ⟨emptyGroup, []⟩) untitling;
      Smooth (opened brief emptyGroupText) untitling ∧ there.2.cursor = 2 ∧
        (undo.run.run there.1).2.snapshot ≠ there.2.back.present) := by
  rw [opened_eq read_pair rfl, opened_eq read_emptyGroup rfl]
  refine ⟨⟨⟨fun _ => ?_, fun _ => ?_, trivial⟩, ?_, ?_⟩,
    ⟨False.elim, fun _ => ?_, fun _ => ?_, trivial⟩, ?_, ?_⟩
  all_goals decide +kernel

end Session
end Flowchart
