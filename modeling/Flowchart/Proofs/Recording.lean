import Flowchart.Proofs.Requests

/-! What an edit leaves beside the diagram. Until the edit answers, nothing but the editor and the
table of places is touched. Only then is the state before it recorded and output asked for; so an
edit that answers can be undone, and one that fails is not recorded, even if it has come so far that
listeners were told. -/
namespace Flowchart
open Action

namespace Session
variable {s t u : Session}

/-- Nothing has been touched but the editor and the table of places. -/
def Confined (s t : Session) : Prop := t = { s with editor := t.editor, places := t.places }

theorem Confined.refl (s : Session) : Confined s s := rfl

theorem Confined.editor (h : Confined s t) (editor : Editor) :
    Confined s { t with editor } := by
  unfold Confined at *
  rw [h]

theorem Confined.places (h : Confined s t) (places : Places) :
    Confined s { t with places } := by
  unfold Confined at *
  rw [h]

theorem onEditor_confined {α : Type} (action : Action Editor α) :
    Keeps (Confined s) (onEditor action) := by
  intro t ht
  rw [ends_onEditor]
  exact ends_always (fun _ e => ht.editor e) fun _ e => ht.editor e

theorem ofExcept_confined {α : Type} (r : Except Error α) : Keeps (Confined s) (ofExcept r) := by
  intro t ht
  rw [ends_ofExcept]
  exact ⟨fun _ _ => ht, fun _ _ => ht⟩

/-- An edit has been made. The state before it is recorded, and output is asked for. -/
def Recorded (s t : Session) : Prop :=
  t = { s with
    editor := t.editor, places := t.places, history := s.history.record s.snapshot
    timer := s.timer.restart }

theorem edit_recorded {α : Type} {changes : α → Bool} {action : Action Session α}
    (confined : Keeps (Confined s) action)
    (idle : Ends action s (fun x t => changes x = false → t = s) fun _ _ => True) :
    Ends (edit changes action) s (fun x t => if changes x then Recorded s t else t = s)
      fun _ t => Confined s t := by
  simp only [edit, ends_bind, ends_get]
  refine ((confined s (.refl s)).and idle).imp ?_ fun _ _ ht => ht.1
  rintro x t ⟨confined, idle⟩
  split
  · rename_i changed
    simp only [Debounced.schedule, ends_bind, ends_modify, ends_pure, if_pos changed]
    unfold Recorded
    rw [confined]
    rfl
  · rename_i unchanged
    rw [ends_pure, if_neg unchanged]
    exact idle (Bool.eq_false_iff.mpr unchanged)

/-- An edit that always answers that it has changed something. -/
theorem edit_recorded_always {α : Type} {action : Action Session α}
    (confined : Keeps (Confined s) action) :
    Ends (edit (fun _ => true) action) s (fun _ t => Recorded s t) fun _ t => Confined s t :=
  edit_recorded confined (ends_always (fun _ _ h => absurd h (by decide)) fun _ _ => trivial)

/-- An edit that changes something is recorded; that touches neither the editor nor the table. -/
theorem edit_records {α : Type} {changes : α → Bool} {action : Action Session α}
    {err : Error → Session → Prop} (ok : α → Editor → Places → Prop)
    (confined : Keeps (Confined s) action)
    (ends : Ends action s (fun x t => changes x ∧ ok x t.editor t.places) err) :
    Ends (edit changes action) s (fun x t => Recorded s t ∧ ok x t.editor t.places) err := by
  simp only [edit, ends_bind, ends_get]
  refine ((confined s (.refl s)).and ends).imp ?_ fun _ _ ht => ht.2
  rintro x t ⟨confined, changed, ht⟩
  simp only [Debounced.schedule, ends_bind, ends_modify, ends_pure, if_pos changed]
  refine ⟨?_, ht⟩
  unfold Recorded
  rw [confined]
  rfl

theorem splitOn_confined (e : Edge) (n : Node) (id : Value)
    (position : Except Error (Option Position)) :
    Keeps (Confined s) (splitOn e n id position) := by
  refine keeps_bind (onEditor_confined _) fun ended => ?_
  have told : Keeps (Confined s) (do
      command fun run => Editor.publish run ended.2.changes ended.2.grouped
      return some (← ofExcept ended.1)) :=
    keeps_bind (onEditor_confined _) fun _ => keeps_bind (ofExcept_confined _) fun _ _ ht => ht
  dsimp only
  split
  · rename_i p _
    exact keeps_bind (fun _ ht => ht.places _) fun _ => told
  · exact told

/-- What is put on an edge is never nothing. -/
theorem splitOn_answers (e : Edge) (n : Node) (id : Value)
    (position : Except Error (Option Position)) :
    Ends (splitOn e n id position) s (fun x _ => x.isSome) fun _ _ => True := by
  simp only [splitOn, ends_bind]
  refine ends_always (fun ended v => ?_) fun _ _ => trivial
  have answers : ∀ v, Ends (do
      command fun run => Editor.publish run ended.2.changes ended.2.grouped
      return some (← ofExcept ended.1)) v (fun x _ => x.isSome) fun _ _ => True := by
    intro v
    simp only [ends_bind, ends_ofExcept, ends_pure]
    exact ends_always (fun _ _ => ⟨fun _ _ => rfl, fun _ _ => trivial⟩) fun _ _ => trivial
  split <;> exact answers _

/-- Every edit that answers is recorded, unless it answers that it has changed nothing and has
touched nothing. One that fails is not recorded. -/
theorem Step.recorded {step : Step} (isEdit : step.IsEdit) :
    Ends step.run s (fun changed t => if changed then Recorded s t else t = s)
      fun _ t => Confined s t := by
  cases step with
  | addNode id text shape position fields =>
    rw [Step.run, ends_map, addNode_eq]
    refine edit_recorded_always (keeps_bind (ofExcept_confined _) fun n =>
      keeps_bind (onEditor_confined _) fun n => keeps_bind (ofExcept_confined _) fun place => ?_)
    cases place with
    | none => exact fun _ ht => ht
    | some p =>
      refine keeps_bind (ofExcept_confined _) fun key => keeps_bind (fun _ ht => ht.places _) ?_
      exact fun _ => keeps_bind (onEditor_confined _) fun _ _ ht => ht
  | updateNode id changes =>
    rw [Step.run, ends_map]
    exact edit_recorded (onEditor_confined _) (updateNode_idle id changes)
  | removeNode id =>
    refine edit_recorded (keeps_bind (onEditor_confined _) fun removed t ht => ?_)
      (removeNode_idle id)
    cases removed
    · exact ht
    · exact ht.places _
  | addEdge source target fields =>
    rw [Step.run, ends_map]
    exact edit_recorded_always (keeps_bind (ofExcept_confined _) fun _ => onEditor_confined _)
  | updateEdge id changes =>
    rw [Step.run, ends_map]
    exact edit_recorded (onEditor_confined _) (updateEdge_idle id changes)
  | removeEdge id =>
    exact edit_recorded (onEditor_confined _) (removeEdge_idle id)
  | splitEdge source target shape id text =>
    simp only [Step.run, ends_map, splitEdge_eq, ends_bind, ends_get, ends_ofExcept]
    refine ⟨fun ids _ => ?_, fun _ _ => .refl s⟩
    split
    · rfl
    · rename_i e _
      refine edit_recorded (keeps_bind (ofExcept_confined _) fun n => splitOn_confined e n _ _) ?_
      simp only [ends_bind, ends_ofExcept]
      refine ⟨fun n _ => (splitOn_answers e n _ _).imp (fun x t answer silent => ?_)
        fun _ _ _ => trivial, fun _ _ => trivial⟩
      exact absurd (silent.symm.trans answer) (by decide)
  | undo | redo | listen _ _ | elapse => exact isEdit.elim

/-! ### Taking a recorded edit back -/

theorem Recorded.gone (h : Recorded s t) :
    ∃ history, undo.run.run t = (step (some (s.snapshot, history))
      fun h => .undone h.past.length).run.run t := by
  have same : t.history = s.history.record s.snapshot := by rw [h]
  obtain ⟨history, back⟩ := History.back?_record s.history s.snapshot t.snapshot
  refine ⟨history, ?_⟩
  show (step (t.history.back? t.snapshot) _).run.run t = _
  rw [same, back]

/-- Where an edit has been recorded, an undo brings back what was before, as it comes back from
plain data. -/
theorem Recorded.undo_snapshot (h : Recorded s t) :
    (undo.run.run t).2.snapshot = ⟨s.diagram.settle, s.places⟩ := by
  obtain ⟨history, gone⟩ := h.gone
  have alike := (step_alike (s := t) s.snapshot history fun h => .undone h.past.length).state
  rw [gone, snapshot, diagram, alike.editor, alike.places]
  rfl

/-- The undo succeeds if nobody wants the text of what was before, or if it can be had and is
taken. -/
theorem Recorded.undo_answer (h : Recorded s t)
    (ready : s.receiver = .absent ∨
      s.receiver = .takes ∧ (s.diagram.settle.write s.layout).isOk) :
    (undo.run.run t).1 = .ok true := by
  obtain ⟨history, gone⟩ := h.gone
  have same : t.receiver = s.receiver ∧ t.layout = s.layout := by
    rw [h]
    exact ⟨rfl, rfl⟩
  have calm : t.receiver ≠ .fails := by
    rw [same.1]
    rcases ready with absent | ⟨takes, _⟩
    · rw [absent]
      decide
    · rw [takes]
      decide
  have handed : t.handedOut s.diagram.settle = .ok true := by
    rw [handedOut, same.1, same.2]
    rcases ready with absent | ⟨takes, written⟩
    · rw [if_pos absent]
    · obtain ⟨text, written⟩ := isOk_iff.mp written
      rw [if_neg (by rw [takes]; decide), written]
      rfl
  have ends : Ends (step (some (s.snapshot, history)) fun h => .undone h.past.length) t
      (fun b _ => b = true) fun e _ => t.handedOut s.diagram.settle = .error e := by
    simp only [step, note, Debounced.cancel, ends_bind, ends_modify, ends_get, ends_pure]
    refine (handOut_ends ?_).imp (fun _ _ _ => trivial) fun _ _ hu => hu.2
    exact calm
  rw [gone]
  unfold Ends at ends
  split at ends
  · rename_i answer
    rw [answer, ends]
  · rw [handed] at ends
    cases ends

/-! ### Wherever a session gets -/

/-- Does the request give fields the values that they are meant for? -/
def Request.IsTyped : Request → Prop
  | .call (.step x) => x.IsTyped
  | .tell c => c.IsTyped
  | _ => True

theorem outlives_lasting : Outlives (Diagram.Has .lasting) Command.IsTyped
    fun _ edit => Edit.Spreads .lasting edit where
  upholds := Editor.upholds_lasts
  made spreads d hd := (spreads { diagram := d } hd).state
  moves id p := Edit.updateNode_spreads id fun set hset n _ =>
    Edit.lets_shapes (fun t given => by simp [Position.change] at given) set hset n
  empty := Diagram.has_empty
  read read := by
    obtain ⟨r, _, settled⟩ := Diagram.read_sound read
    exact settled ▸ r.diagram.has_settle
  settle _ := Diagram.has_settle _

/-- Edits with typed values leave diagrams that last. -/
theorem Request.IsTyped.uses {request : Request} (typed : request.IsTyped) :
    request.Uses Command.IsTyped fun _ edit => Edit.Spreads .lasting edit := by
  have makes := (lasts_replies 0).makes
  cases request with
  | call c =>
    cases c with
    | step x =>
      cases x with
      | addNode id text shape position fields =>
        exact fun n made => makes.addNode (name_shape_nodeFor typed.1 typed.2 made)
      | updateNode id changes => exact makes.updateNode typed
      | removeNode id => exact Edit.removeNode_spreads id
      | addEdge source target fields =>
        exact fun e made => makes.addEdge (settle_edgeFor made)
      | updateEdge id changes => exact makes.updateEdge typed
      | removeEdge id => exact Edit.removeEdge_spreads id
      | splitEdge source target shape id text =>
        intro s n made e position
        refine splitEdge_lasting e (Node.name_shape_ofData (fun t given => typed t ?_) made) position
        simpa using given
      | listen name reaction => exact typed
      | undo | redo | elapse => trivial
    | _ => trivial
  | tell c => exact typed
  | _ => trivial

/-- An edit has been made that can be taken back: output is pending, nothing has been handed out
yet, and an undo brings back the diagram and the places that were there before. It succeeds if
nobody wants the text of that, or if the text can be had and is taken. -/
structure Undoable (s t : Session) : Prop where
  pending : t.timer.isRunning
  codes : t.codes = s.codes
  restores : (undo.run.run t).2.snapshot = s.snapshot
  answers : (s.receiver = .absent ∨ s.receiver = .takes ∧ (s.diagram.write s.layout).isOk) →
    (undo.run.run t).1 = .ok true

/-- Whatever edits are made, whoever listens and whatever listeners do: wherever a session gets by
requests with typed values, an edit that answers either has changed nothing or can be taken back.
An edit that fails has left the history, the timer and all but the editor and the places alone. -/
theorem edits_undoable {limit : Value} {layout : Layout} {s₀ : Session}
    (started : Session.start limit layout = .ok s₀) (attained : Attains Request.IsTyped s₀ s)
    {step : Step} (isEdit : step.IsEdit) :
    Ends step.run s (fun changed t => if changed then Undoable s t else t = s)
      fun _ t => Confined s t := by
  have lasts : s.diagram.Has .lasting :=
    (attained.abides outlives_lasting started fun _ typed => typed.uses).present.diagram
  refine (Step.recorded isEdit).imp (fun changed t ht => ?_) fun _ _ ht => ht
  split at ht
  · rw [if_pos ‹_›]
    refine ⟨?_, ?_, ?_, fun ready => ht.undo_answer ?_⟩
    · rw [ht]
      rfl
    · rw [ht]
    · rw [ht.undo_snapshot, lasts.settle_eq]
      rfl
    · rw [lasts.settle_eq]
      exact ready
  · rw [if_neg ‹_›]
    exact ht

/-- There are two nodes, and somebody listens who gives the second another text when a change is
told. -/
def eavesdropping : List Request := [
  .tell (.addNode (.bare (.text "A"))),
  .tell (.addNode (.bare (.text "B"))),
  .tell (.subscribe "echo" (.act (.updateNode (.text "B") [("text", .text "second")])))]

/-- The first node gets another text. -/
def rewording : Step := .updateNode (.text "A") [("text", .text "first")]

theorem rewording_undoable :
    start (.number (.int 2)) {} = .ok brief ∧
      Attains Request.IsTyped brief (brief.asked eavesdropping) ∧ rewording.IsEdit ∧
      (rewording.run.run.run (brief.asked eavesdropping)).1 = .ok true ∧
      Undoable (brief.asked eavesdropping) (rewording.run.run.run (brief.asked eavesdropping)).2 := by
  have started : start (.number (.int 2)) {} = .ok brief := rfl
  have attained : Attains Request.IsTyped brief (brief.asked eavesdropping) := by
    refine attains_asked .start ?_
    simp only [eavesdropping, List.forall_mem_cons]
    refine ⟨?_, ?_, fun t given => ?_, by simp⟩
    · exact List.cons_ne_nil _ _
    · exact List.cons_ne_nil _ _
    · simp at given
  have answer : (rewording.run.run.run (brief.asked eavesdropping)).1 = .ok true := by
    decide +kernel
  have ends := edits_undoable started attained (show rewording.IsEdit from trivial)
  unfold Ends at ends
  rw [answer] at ends
  exact ⟨started, attained, trivial, answer, ends⟩

/-- Somebody listens who fails. -/
def objecting : List Request := [.tell (.subscribe "listener" .fail)]

/-- A node comes. -/
def joining : Step := .addNode (.text "A") .null (.text "rect") none []

/-- Where a listener fails, the node has come, but no output is asked for, and there is nothing to
take back. -/
theorem told_edit_not_undoable :
    let s := brief.asked objecting
    let t := (joining.run.run.run s).2
    (joining.run.run.run s).1 = .error .listenerFailed ∧
      s.diagram.hasNode (.text "A") = false ∧ t.diagram.hasNode (.text "A") ∧
      t.timer.isRunning = false ∧ (undo.run.run t).1 = .ok false ∧
      (undo.run.run t).2.diagram.hasNode (.text "A") := by
  decide +kernel

end Session
end Flowchart
