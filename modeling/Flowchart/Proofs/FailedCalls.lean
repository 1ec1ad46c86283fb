import Flowchart.Proofs.PlacesAgree
import Flowchart.Proofs.Requests

/-! Calls that fail. An edit checks before it changes, so where no listener fails it fails only
before it has done anything, and then the whole session is as it was. Only an edit that makes
several edits one after the other can fail half way. A text that cannot be read leaves nothing but a
note; one that can be read takes the place of the diagram, and the nodes that are in the table are
put at their places before anybody listens. -/
namespace Flowchart
open Action Progress

namespace Diagram
variable {d : Diagram} {ps : Places}

/-- The diagram with each node that is in the table at its place. -/
def placedBy (ps : Places) (d : Diagram) : Diagram :=
  { d with nodes := d.nodes.map fun n => match Keyed.find? n.id ps with
      | some q => { n with position := some q.2 }
      | none => n }

/-- Where no node is in the table twice, moving the nodes one after another puts each at its
place. -/
theorem positionedAll_eq (once : (Keyed.keys ps).Nodup) : d.positionedAll ps = d.placedBy ps := by
  induction ps generalizing d with
  | nil =>
    show d = { d with nodes := d.nodes.map fun n => n }
    rw [List.map_id']
  | cons q ps ih =>
    obtain ⟨fresh, once⟩ := List.nodup_cons.mp once
    refine (ih once (d := d.positioned q.1 q.2)).trans ?_
    simp only [placedBy, positioned, List.map_map]
    refine congrArg (fun nodes => { d with nodes }) (List.map_congr_left fun n _ => ?_)
    have key : Keyed.key q = q.1 := rfl
    simp only [Function.comp_apply, Keyed.find?_cons, key]
    by_cases here : n.id = q.1
    · have absent : Keyed.find? q.1 ps = none := Keyed.find?_eq_none_iff.mpr fresh
      simp [here, absent]
    · simp [here, Ne.symm here]

end Diagram

namespace Editor
variable {e : Editor}

/-- Where the edit cannot fail and no listener does, the command cannot fail. -/
theorem perform_succeeds {α : Type} {edit : Edit α}
    (succeeds : Ends edit e.opening (fun _ _ => True) fun _ _ => False)
    (tells : e.Tells edit fun _ _ => True) :
    Ends (perform (replies e.due) edit) e (fun _ _ => True) fun _ _ => False := by
  simp only [perform, ends_bind, ends_enact, ends_get, ends_except]
  unfold Ends at succeeds
  unfold Tells at tells
  refine tells.imp (fun _ t _ => ⟨fun _ _ => trivial, fun f failed => ?_⟩) fun _ _ => False.elim
  rw [failed] at succeeds
  exact succeeds

/-- Where nobody listens and no batch has begun, nothing comes of telling something. -/
theorem publish_deaf {run : Runner} (deaf : e.subscribed = []) (shallow : e.content.depth = 0)
    (changes : List Change) (grouped : Bool) {err : Error → Editor → Prop} :
    Ends (publish run changes grouped) e (fun _ t => t = e) err := by
  have emits : ∀ event, Ends (Emitter.emit run event) e (fun _ t => t = e) fun _ _ => False := by
    intro event
    simp only [Emitter.emit, ends_bind, ends_get, deaf, Emitter.deliver, ends_pure]
  simp only [publish, ends_bind, ends_get, shallow]
  split
  · contradiction
  · split
    · split
      · rfl
      · exact (emits _).imp (fun _ _ ht => ht) fun _ _ => False.elim
    · refine (ends_forM (fun _ t => t = e) _ (fun _ _ => False) ?_ changes rfl).imp
        (fun _ _ ht => ht) fun _ _ => False.elim
      rintro c _ _ rfl
      exact emits _

/-- An edit that cannot fail is made, and nobody hears of it. -/
theorem perform_deaf {α : Type} {edit : Edit α} {run : Runner} (deaf : e.subscribed = [])
    (shallow : e.content.depth = 0) {ok : α → Progress → Prop}
    (ends : Ends edit e.opening ok fun _ _ => False) :
    Ends (perform run edit) e (fun x t => ∃ q, ok x.1 q ∧ t = e.afterEdit q)
      fun _ _ => False := by
  simp only [perform, ends_bind, ends_enact, ends_get, ends_except]
  unfold Ends at ends
  have told : Ends (publish run (edit.run.run e.opening).2.changes
      (edit.run.run e.opening).2.grouped) (e.afterEdit (edit.run.run e.opening).2)
      (fun _ t => t = e.afterEdit (edit.run.run e.opening).2) fun _ _ => False :=
    publish_deaf (e := e.afterEdit _) deaf shallow _ _
  refine told.imp (fun _ t same => ⟨fun x answer => ?_, fun f failure => ?_⟩) fun _ _ => False.elim
  · rw [answer] at ends
    exact ⟨_, ends, same⟩
  · rw [failure] at ends
    exact ends

end Editor

namespace Session
variable {s : Session}

/-! ### Edits -/

/-- What a sturdy diagram asks of edits. -/
abbrev KeepsSturdy (α : Type) (edit : Edit α) : Prop :=
  (∀ d, Keeps (Sound True d) edit) ∧ Edit.Spreads .lookedUp edit

/-- Fields of a node that are changed do not change its id. -/
theorem lets_lookedUp (changes : Fields) : Edit.Lets Node.setters Trait.lookedUp.node changes := by
  intro set hset n simple
  have same : (set n).id = n.id := Edit.setAll_spares Edit.spares_node_id hset n
  exact (congrArg Value.isSimple same).trans simple

theorem makes_sturdy : Editor.Makes KeepsSturdy Command.IsProper where
  addNode _ := ⟨fun _ => Edit.addNode_keeps _, Edit.addNode_spreads fun simple => simple⟩
  addEdge _ := ⟨fun _ => Edit.addEdge_keeps _, Edit.addEdge_spreads fun _ _ _ _ => trivial⟩
  addSubgraph hc := ⟨fun _ => Edit.addSubgraph_keeps fun _ => hc,
    Edit.addSubgraph_spreads fun _ => trivial⟩
  updateNode _ := ⟨fun _ => Edit.updateNode_keeps _ _,
    Edit.updateNode_spreads _ fun set hset n _ => lets_lookedUp _ set hset n⟩
  updateEdge hc := ⟨fun _ => Edit.updateEdge_keeps _ fun _ => hc,
    Edit.updateEdge_spreads _ fun _ _ _ _ => trivial⟩
  updateSubgraph hc := ⟨fun _ => Edit.updateSubgraph_keeps _ fun _ => hc,
    Edit.updateSubgraph_spreads _ fun _ _ _ _ => trivial⟩
  removeNode _ := ⟨fun _ => Edit.removeNode_keeps _, Edit.removeNode_spreads _⟩
  removeEdge _ := ⟨fun _ => Edit.removeEdge_keeps _, Edit.removeEdge_spreads _⟩
  removeSubgraph _ := ⟨fun _ => Edit.removeSubgraph_keeps _, Edit.removeSubgraph_spreads _⟩
  setDirection _ := ⟨fun _ => Edit.setDirection_keeps _, Edit.setDirection_spreads _⟩
  clear _ := ⟨fun _ => Edit.clear_keeps, Edit.clear_spreads⟩

theorem sturdy_turned {d : Diagram} (h : d.Sturdy) (classes : List StyleClass) :
    Diagram.Sturdy { d with classes } :=
  ⟨h.integral.turned d.direction classes, h.simple.nodes, fun _ _ => trivial, fun _ _ => trivial,
    trivial⟩

theorem once_change (p : Position) : (Keyed.keys p.change).Nodup := List.nodup_singleton _

theorem outlives_sturdy : Outlives Diagram.Sturdy Command.IsProper KeepsSturdy where
  upholds run h := Editor.upholds_hosts makes_sturdy
    (fun _ kind d hd => ⟨(Editor.made_sound kind.1 hd.integral.distinct fun _ => hd.integral).integral
      trivial, (kind.2 { diagram := d } hd.simple).state⟩)
    (fun _ _ hd => sturdy_turned hd _) (fun _ _ hd => sturdy_turned hd _)
    (fun hc => Editor.areProper_iff.mp hc) id run h
  made kind d hd := ⟨(Editor.made_sound kind.1 hd.integral.distinct fun _ => hd.integral).integral
    trivial, (kind.2 { diagram := d } hd.simple).state⟩
  moves _ p := makes_sturdy.updateNode (once_change p)
  empty := ⟨Diagram.integral_empty, Diagram.has_empty⟩
  read := sturdy_read
  settle := Diagram.Sturdy.settle

/-- Does the step name each changed field once? Whoever comes to listen is asked that as well, and
that no subgraph is called by the null value. -/
def Step.IsProper : Step → Prop
  | .updateNode _ changes | .updateEdge _ changes => (Keyed.keys changes).Nodup
  | .listen _ reaction => Command.reactsProperly reaction
  | _ => True

/-- Is what is asked proper? -/
def Request.IsProper : Request → Prop
  | .call (.step x) => x.IsProper
  | .tell c => c.IsProper
  | _ => True

theorem Request.IsProper.uses {request : Request} (proper : request.IsProper) :
    request.Uses Command.IsProper KeepsSturdy := by
  cases request with
  | call c =>
    cases c with
    | step x =>
      cases x with
      | addNode id text shape position fields => exact fun n _ => makes_sturdy.addNode trivial
      | updateNode id changes => exact makes_sturdy.updateNode proper
      | removeNode id => exact makes_sturdy.removeNode trivial
      | addEdge source target fields => exact fun e _ => makes_sturdy.addEdge trivial
      | updateEdge id changes => exact makes_sturdy.updateEdge proper
      | removeEdge id => exact makes_sturdy.removeEdge trivial
      | splitEdge source target shape _ text =>
        intro s n made e position
        refine ⟨fun _ => Edit.splitEdge_keeps e n position, Edit.splitEdge_spreads (fun simple => simple)
          (fun _ _ _ _ _ => trivial) fun p => lets_lookedUp _⟩
      | listen _ reaction => exact proper
      | undo | redo | elapse => trivial
    | _ => trivial
  | tell c => exact proper
  | _ => trivial

/-! ### Failures of edits -/

theorem edit_atomic {α : Type} {changes : α → Bool} {action : Action Session α}
    (atomic : Ends action s (fun _ _ => True) fun _ u => u = s) :
    Ends (edit changes action) s (fun _ _ => True) fun _ u => u = s := by
  simp only [edit, ends_bind, ends_get]
  refine atomic.imp (fun x t _ => ?_) fun _ _ hu => hu
  split <;> trivial

/-- The edge that a node would be put on. -/
def edgeBetween? (s : Session) (source target : Value) : Except Error (Option Edge) := do
  let ids ← (← Graph.ofDiagram? s.diagram).between? source target
  return ids.head?.bind fun id => s.diagram.edge? id

/-- No listener fails at what the edit tells, nor at the move of a node that has just come. -/
def Step.Heard (s : Session) : Step → Prop
  | .addNode id text shape position fields => ∀ n, nodeFor id text shape fields = .ok n →
      s.editor.Tells (Edit.addNode n) fun _ e => ∀ p, placeFor position fields = .ok (some p) →
        e.Tells (Edit.updateNode id p.change) fun _ _ => True
  | .updateNode id changes => s.editor.Tells (Edit.updateNode id changes) fun _ _ => True
  | .removeNode id => s.editor.Tells (Edit.removeNode id) fun _ _ => True
  | .addEdge source target fields => ∀ e, edgeFor source target fields = .ok e →
      s.editor.Tells (Edit.addEdge e) fun _ _ => True
  | .updateEdge id changes => s.editor.Tells (Edit.updateEdge id changes) fun _ _ => True
  | .removeEdge id => s.editor.Tells (Edit.removeEdge id) fun _ _ => True
  | .splitEdge source target shape id text => ∀ e n,
      s.edgeBetween? source target = .ok (some e) → s.nodeBetween shape id text = .ok n →
      s.editor.Tells (Edit.splitEdge e n (s.halfway source target)) fun _ _ => True
  | .undo | .redo | .listen .. | .elapse => True

/-- Nothing is in the way of the second half of an edit. A position is one, and where the further
fields give a new node another id, the first can be looked up by as well. Of two nodes with an edge
between them the middle can be computed, and both edges in its place get ids. -/
def Step.Finishes (s : Session) : Step → Prop
  | .addNode id _ _ position fields =>
      (placeFor position fields).isOk ∧ (id.isSimple ∨ fields.get? "id" = none)
  | .splitEdge source target shape id text => (s.halfway source target).isOk ∧
      ∀ e n, s.edgeBetween? source target = .ok (some e) → s.nodeBetween shape id text = .ok n →
        ¬ Edit.Unsplittable e n.id
  | _ => True

/-- Calm listeners do not fail at any edit. -/
theorem Step.heard_of_calm (calm : ∀ l ∈ s.editor.known, l.reaction.IsCalm) (step : Step) :
    step.Heard s := by
  cases step with
  | addNode id text shape position fields =>
    refine fun n _ => Editor.tells_of_calm calm _ _ fun d e _ known p _ => ?_
    exact Editor.tells_of_calm (known ▸ calm) _ _ fun _ _ _ _ => trivial
  | addEdge source target fields =>
    exact fun e _ => Editor.tells_of_calm calm _ _ fun _ _ _ _ => trivial
  | splitEdge source target shape id text =>
    exact fun e n _ _ => Editor.tells_of_calm calm _ _ fun _ _ _ _ => trivial
  | updateNode _ _ | removeNode _ | updateEdge _ _ | removeEdge _ =>
    exact Editor.tells_of_calm calm _ _ fun _ _ _ _ => trivial
  | undo | redo | listen _ _ | elapse => trivial

section Edits

/-- An edit that has done nothing has nothing to tell before it fails. -/
theorem tell_nothing {α : Type} (f : Error) :
    Ends (do
      command fun run => Editor.publish run [] true
      return some (← ofExcept (.error f : Except Error α)))
      { s with editor := s.editor.afterEdit { s.editor.opening with grouped := true } }
      (fun _ _ => False) fun g u => g = f ∧ u = s := by
  simp only [command, ends_bind, ends_onEditor, Editor.attended, ends_get, ends_ofExcept, ends_pure]
  refine (Editor.publish_nothing true).imp (fun _ e he => ⟨by simp, ?_⟩) fun _ _ => False.elim
  rintro _ ⟨⟩
  refine ⟨rfl, ?_⟩
  rw [he]
  exact congrArg (fun editor => { s with editor }) (Editor.afterEdit_opening s.editor)

/-- Where the further fields give no id, the node has the one in the arguments. -/
theorem id_nodeFor {id text shape : Value} {fields : Fields} {n : Node}
    (made : nodeFor id text shape fields = .ok n) (unnamed : fields.get? "id" = none) :
    n.id = id := by
  unfold nodeFor at made
  split at made
  · cases made
  · have given := (Node.ofData_eq_ok.mp made).id
    rw [Fields.otherwise, Fields.get?_append, Fields.get?_remove_of_ne (by decide),
      Fields.get?_remove_of_ne (by decide), unnamed] at given
    exact (Option.some.inj given).symm

variable (h : s.Abides Diagram.Sturdy Command.IsProper)
include h

theorem command_atomic {α β : Type} {edit : Edit α} (f : α × List Change → β)
    (atomic : Edit.Atomic edit) (heard : s.editor.Tells edit fun _ _ => True) :
    Ends (command fun run => f <$> Editor.perform run edit) s (fun _ _ => True)
      fun _ u => u = s := by
  simp only [command, ends_onEditor, Editor.attended, ends_bind, ends_get, ends_map]
  refine (Editor.perform_atomic h.present.diagram atomic heard).imp (fun _ _ _ => trivial) ?_
  rintro _ _ rfl
  rfl

/-- A node that has come gets its place, if there is one for it. -/
theorem settleAdded_succeeds {id : Value} {position : Option Position} {fields : Fields}
    (n : Node) (place : (placeFor position fields).isOk) (simple : id.isSimple)
    (heard : ∀ p, placeFor position fields = .ok (some p) →
      s.editor.Tells (Edit.updateNode id p.change) fun _ _ => True) :
    Ends (settleAdded id position fields n) s (fun _ _ => True) fun _ _ => False := by
  simp only [settleAdded, ends_bind, ends_ofExcept]
  refine ⟨fun found given => ?_, fun f failed => ?_⟩
  · cases found with
    | none => trivial
    | some p =>
      simp only [ends_bind, ends_ofExcept, ends_modify, ends_pure, Value.simple, if_pos simple]
      refine ⟨?_, by simp⟩
      rintro _ ⟨⟩
      simp only [command, ends_onEditor, Editor.attended, Editor.updateNode, ends_bind, ends_get,
        ends_pure]
      refine (Editor.perform_succeeds ?_ (heard p given)).imp (fun _ _ _ => trivial)
        fun _ _ => False.elim
      exact (Edit.updateNode_positions (q := s.editor.opening) h.present.diagram simple p).imp
        (fun _ _ _ => trivial) fun _ _ => False.elim
  · rw [failed] at place
    cases place

theorem addNode_atomic {id text shape : Value} {position : Option Position} {fields : Fields}
    (heard : Step.Heard s (.addNode id text shape position fields))
    (finishes : Step.Finishes s (.addNode id text shape position fields)) :
    Ends (addNode id text shape position fields) s (fun _ _ => True) fun _ u => u = s := by
  rw [addNode_eq]
  refine edit_atomic ?_
  simp only [ends_bind, ends_ofExcept]
  refine ⟨fun n made => ?_, fun _ _ => trivial⟩
  simp only [command, ends_onEditor, Editor.attended, Editor.addNode, ends_bind, ends_get,
    ends_pure]
  have sturdy : s.diagram.Sturdy := h.present.diagram
  have ends := Editor.perform_ends (e := s.editor) (fun _ => n.id.isSimple)
    ((Edit.addNode_places (p := s.editor.opening) sturdy.integral n).imp (fun _ _ hq => hq.2.1)
      fun _ _ same => same) (heard n made)
  have kept := perform_hosts outlives_sturdy (makes_sturdy.addNode (n := n) trivial) s.editor.due
    s.editor h.present
  refine (ends.and kept).imp ?_ ?_
  · rintro x e ⟨⟨_, simple, told⟩, hosts⟩
    have named : id.isSimple := by
      rcases finishes.2 with simple | unnamed
      · exact simple
      · exact id_nodeFor made unnamed ▸ simple
    have abides : Abides Diagram.Sturdy Command.IsProper { s with editor := e } :=
      ⟨hosts, h.once, h.history⟩
    exact (settleAdded_succeeds abides _ finishes.1 named told).imp (fun _ _ _ => trivial)
      fun _ _ => False.elim
  · rintro _ _ ⟨rfl, _⟩
    rfl

theorem splitOn_atomic {e : Edge} (there : e ∈ s.diagram.edges) {n : Node}
    {position : Except Error (Option Position)} (placed : position.isOk)
    (splittable : ¬ Edit.Unsplittable e n.id)
    (heard : s.editor.Tells (Edit.splitEdge e n position) fun _ _ => True) (id : Value) :
    Ends (splitOn e n id position) s (fun _ _ => True) fun _ u => u = s := by
  have sturdy : s.diagram.Sturdy := h.present.diagram
  -- half way nothing can fail
  have ends : Ends (Edit.splitEdge e n position) s.editor.opening (fun _ _ => True)
      fun _ q => q = { s.editor.opening with grouped := true } := by
    by_cases free : n.id.isSimple ∧ s.diagram.hasNode n.id = false
    · refine (Edit.splitEdge_ends (.start sturdy sturdy.simple) there (n := n) free.1
        (fun _ => ⟨trivial, trivial⟩) position).imp (fun _ _ _ => trivial) ?_
      rintro _ q ⟨_, _, same | ⟨f, failed⟩ | ⟨_, halted⟩⟩
      · exact same
      · rw [failed] at placed
        cases placed
      · exact absurd halted splittable
    · refine (Edit.splitEdge_refuses e position fun simple => ?_).imp (fun _ _ => False.elim)
        fun _ _ same => same
      exact Bool.eq_false_iff.not_left.mp fun absent => free ⟨simple, absent⟩
  unfold Ends at ends
  unfold Editor.Tells at heard
  simp only [splitOn, ends_bind, ends_onEditor, Editor.ends_enact]
  generalize (Edit.splitEdge e n position).run.run s.editor.opening = made at ends heard ⊢
  obtain ⟨_ | m, progress⟩ := made
  · obtain rfl : progress = { s.editor.opening with grouped := true } := ends
    exact (tell_nothing _).imp (fun _ _ => False.elim) fun _ _ hu => hu.2
  · have answers : ∀ places, Ends (do
        command fun run => Editor.publish run progress.changes progress.grouped
        return some (← ofExcept (Except.ok m)))
        { s with editor := s.editor.afterEdit progress, places } (fun _ _ => True)
        fun _ u => u = s := by
      intro places
      simp only [command, ends_bind, ends_onEditor, Editor.attended, ends_get, ends_ofExcept,
        ends_pure]
      exact heard.imp (fun _ _ _ => ⟨fun _ _ => trivial, by simp⟩) fun _ _ => False.elim
    split <;> exact answers _

theorem splitEdge_atomic {source target shape id text : Value}
    (heard : Step.Heard s (.splitEdge source target shape id text))
    (finishes : Step.Finishes s (.splitEdge source target shape id text)) :
    Ends (splitEdge source target shape id text) s (fun _ _ => True) fun _ u => u = s := by
  simp only [splitEdge_eq, ends_bind, ends_get, ends_ofExcept]
  refine ⟨fun ids found => ?_, fun _ _ => trivial⟩
  split
  · trivial
  · rename_i e chosen
    have between : s.edgeBetween? source target = .ok (some e) := by
      obtain ⟨g, graph, between⟩ := bind_eq_ok.mp found
      exact bind_eq_ok.mpr ⟨g, graph, bind_eq_ok.mpr ⟨ids, between, congrArg Except.ok chosen⟩⟩
    have there : e ∈ s.diagram.edges := by
      obtain ⟨_, _, found⟩ := Option.bind_eq_some_iff.mp chosen
      exact Keyed.mem_of_find? found
    refine edit_atomic ?_
    simp only [ends_bind, ends_ofExcept]
    refine ⟨fun n made => ?_, fun _ _ => trivial⟩
    exact splitOn_atomic h there finishes.1 (finishes.2 e n between made) (heard e n between made) _

/-- An edit that nothing is in the way of fails only before it does anything. -/
theorem Step.atomic {step : Step} (isEdit : step.IsEdit) (heard : step.Heard s)
    (finishes : step.Finishes s) : Ends step.run s (fun _ _ => True) fun _ u => u = s := by
  cases step with
  | addNode id text shape position fields =>
    rw [Step.run, ends_map]
    exact addNode_atomic h heard finishes
  | updateNode id changes =>
    rw [Step.run, ends_map]
    exact edit_atomic (command_atomic h _ (Edit.updateNode_atomic id changes) heard)
  | removeNode id =>
    refine edit_atomic ?_
    rw [ends_bind]
    refine (command_atomic h _ (Edit.removeNode_atomic id) heard).imp (fun removed t _ => ?_)
      fun _ _ hu => hu
    cases removed <;> trivial
  | addEdge source target fields =>
    rw [Step.run, ends_map]
    refine edit_atomic ?_
    simp only [ends_bind, ends_ofExcept]
    exact ⟨fun e made => command_atomic h _ (Edit.addEdge_atomic e) (heard e made), fun _ _ => trivial⟩
  | updateEdge id changes =>
    rw [Step.run, ends_map]
    exact edit_atomic (command_atomic h _ (Edit.updateEdge_atomic id changes) heard)
  | removeEdge id =>
    exact edit_atomic (command_atomic h _ (Edit.removeEdge_atomic id) heard)
  | splitEdge source target shape id text =>
    rw [Step.run, ends_map]
    exact splitEdge_atomic h heard finishes
  | undo | redo | listen _ _ | elapse => exact isEdit.elim

end Edits

/-! ### Texts that come in -/

/-- Another diagram has been opened, and nobody listens to it yet. -/
structure Opened (s u : Session) : Prop where
  sturdy : u.diagram.Sturdy
  shallow : u.editor.content.depth = 0
  editor : u.editor = { s.editor with content := u.editor.content, subscribed := [] }
  only : u = { s with editor := u.editor }

theorem Opened.place {u : Session} (h : Opened s u) (id : Value) (p : Position) :
    Ends (place id p) u (fun _ v => Opened s v ∧ v.diagram = u.diagram.positioned id p)
      fun _ _ => False := by
  simp only [Session.place, ends_bind, ends_get]
  split
  · rename_i there
    have made := Edit.updateNode_positions (q := u.editor.opening) h.sturdy
      (h.sturdy.simple_of_hasNode there) p
    have deaf : u.editor.subscribed = [] := by rw [h.editor]
    simp only [command, ends_bind, ends_onEditor, Editor.attended, Editor.updateNode, ends_get,
      ends_pure]
    refine (Editor.perform_deaf deaf h.shallow made).imp ?_ fun _ _ => False.elim
    rintro x _ ⟨q, ⟨_, diagram⟩, rfl⟩
    have same : Session.diagram { u with editor := u.editor.afterEdit q } =
        u.diagram.positioned id p := diagram
    refine ⟨⟨same ▸ h.sturdy.positioned id p, h.shallow, ?_, ?_⟩, same⟩
    · rw [Editor.afterEdit, h.editor]
    · rw [h.only]
  · rename_i absent
    rw [Diagram.positioned_absent (Bool.eq_false_iff.mpr absent)]
    exact ⟨h, rfl⟩

theorem Opened.placeAll {u : Session} (h : Opened s u) :
    Ends placeAll u (fun _ v => Opened s v ∧ v.diagram = u.diagram.positionedAll u.places)
      fun _ _ => False := by
  simp only [Session.placeAll, ends_bind, ends_get]
  -- what is left to be done makes the same diagram of what there is now
  refine (ends_forM (fun rest v => Opened s v ∧
      v.diagram.positionedAll rest = u.diagram.positionedAll u.places) _ (fun _ _ => False) ?_
      u.places ⟨h, rfl⟩).imp (fun _ _ hv => hv) fun _ _ => False.elim
  rintro ⟨id, p⟩ rest v ⟨opened, diagram⟩
  refine (opened.place id p).imp (fun _ w hw => ⟨hw.1, ?_⟩) fun _ _ => False.elim
  rw [hw.2]
  exact diagram

/-- A text has been read. Its diagram takes the place of the old one, with the nodes that are in the
table at their places. Nothing is pending and nobody listens any more; nobody has heard of anything,
and the history, the table and what has been handed out are as before. -/
structure Loaded (s : Session) (d : Diagram) (u : Session) : Prop where
  diagram : u.diagram = d.placedBy s.places
  editor : u.editor = { s.editor with content := u.editor.content, subscribed := [] }
  only : u = { s with editor := u.editor, timer := s.timer.stop }

theorem load_loads (once : (Keyed.keys s.places).Nodup) (text : Text) :
    Ends (load text) s
      (fun x u => ∃ d, Diagram.read text = .ok d ∧ x = u.diagram ∧ Loaded s d u)
      fun f u => Diagram.read text = .error f ∧ u = { s with notes := s.notes ++ [.unreadableText] } := by
  simp only [load]
  split
  · rename_i f failed
    simp only [note, ends_bind, ends_modify, ends_throw]
    exact ⟨failed, rfl⟩
  · rename_i d read
    simp only [ends_bind, ends_modify, ends_get, ends_pure, Debounced.cancel]
    have opened : Opened s { s with editor := s.editor.reopened d } :=
      ⟨sturdy_read read, rfl, rfl, rfl⟩
    refine opened.placeAll.imp (fun _ u hu => ?_) fun _ _ => False.elim
    obtain ⟨opened, diagram⟩ := hu
    have same : u.diagram = d.placedBy s.places := diagram.trans (Diagram.positionedAll_eq once)
    refine ⟨d, read, trivial, same, opened.editor, ?_⟩
    rw [opened.only]
    rfl

/-- Wherever proper requests lead: an edit that fails, though no listener does and nothing is in the
way of its second half, leaves the whole session as it was, and a text that cannot be read leaves
only a note. What is read has the nodes that are in the table at their places, and that is all that
happens. -/
theorem failed_calls_change_nothing {limit : Value} {layout : Layout} {s₀ : Session}
    (started : Session.start limit layout = .ok s₀) (attained : Attains Request.IsProper s₀ s) :
    (∀ step : Step, step.IsEdit → step.Heard s → step.Finishes s →
        Ends step.run s (fun _ _ => True) fun _ u => u = s) ∧
      ∀ text, Ends (load text) s
        (fun x u => ∃ d, Diagram.read text = .ok d ∧ x = u.diagram ∧ Loaded s d u)
        fun _ u => u = { s with notes := s.notes ++ [.unreadableText] } := by
  have abides := attained.abides outlives_sturdy started fun _ proper => proper.uses
  refine ⟨fun step isEdit heard finishes => Step.atomic abides isEdit heard finishes, fun text => ?_⟩
  exact (load_loads abides.once text).imp (fun _ _ hu => hu) fun _ _ hu => hu.2

/-- Two nodes with an edge between them, and somebody who listens from then on. -/
def bridging : List Request := [
  .call (.step (.addNode (.text "A") .null (.text "rect") (some (diagonal 0)) [])),
  .call (.step (.addNode (.text "B") .null (.text "rect") (some (diagonal 2)) [])),
  .call (.step (.addEdge (.text "A") (.text "B") [("id", .text "e")])),
  .tell (.subscribe "listener" .watch)]

/-- A node is put on the edge whose id is taken. -/
def crowding : Step := .splitEdge (.text "A") (.text "B") (.text "rect") (.text "B") .null

theorem crowding_changes_nothing :
    start (.number (.int 2)) {} = .ok brief ∧ Attains Request.IsProper brief (brief.asked bridging) ∧
      crowding.IsEdit ∧ crowding.Heard (brief.asked bridging) ∧
      crowding.Finishes (brief.asked bridging) ∧
      (crowding.run.run.run (brief.asked bridging)).1 = .error (.duplicateId .node "B") ∧
      (crowding.run.run.run (brief.asked bridging)).2 = brief.asked bridging := by
  have started : start (.number (.int 2)) {} = .ok brief := rfl
  have attained : Attains Request.IsProper brief (brief.asked bridging) := by
    refine attains_asked .start ?_
    simp [bridging, Request.IsProper, Step.IsProper, Command.IsProper, Command.reactsProperly]
  have heard : crowding.Heard (brief.asked bridging) :=
    Step.heard_of_calm (by decide +kernel) crowding
  have edge : (brief.asked bridging).edgeBetween? (.text "A") (.text "B") = .ok (some
      { id := .text "e", source := .text "A", target := .text "B" }) := by decide +kernel
  have finishes : crowding.Finishes (brief.asked bridging) := by
    refine ⟨by decide +kernel, fun e n found made => ?_⟩
    cases edge.symm.trans found
    have named : n.id = .text "B" := (Option.some.inj (Node.ofData_eq_ok.mp made).id).symm
    -- the operator of an edge of the usual length can be written
    have drawn : ∀ d, (Edit.generatedId d (Edge.before
        { id := .text "e", source := .text "A", target := .text "B" } (.text "B"))).isOk ∧
        (Edit.generatedId d (Edge.beyond
          { id := .text "e", source := .text "A", target := .text "B" } (.text "B"))).isOk :=
      fun d => ⟨rfl, rfl⟩
    rw [named]
    rintro (complex | ⟨d, f, failed | failed⟩)
    · cases complex
    · have made := (drawn d).1
      rw [failed] at made
      cases made
    · have made := (drawn d).2
      rw [failed] at made
      cases made
  have fails : (crowding.run.run.run (brief.asked bridging)).1 =
      .error (.duplicateId .node "B") := by decide +kernel
  -- nothing is to be computed from here on
  generalize brief.asked bridging = s at attained heard finishes fails ⊢
  have ends := (failed_calls_change_nothing started attained).1 crowding trivial heard finishes
  unfold Ends at ends
  rw [fails] at ends
  exact ⟨started, attained, trivial, heard, finishes, fails, ends⟩

/-- Two nodes with an edge between them that is longer than any machine could write, and somebody
who listens from then on. -/
def stretching : List Request := [
  .call (.step (.addNode (.text "A") .null (.text "rect") none [])),
  .call (.step (.addNode (.text "B") .null (.text "rect") none [])),
  .call (.step (.addEdge (.text "A") (.text "B")
    [("id", .text "e"), ("length", .number (.int 100000000000000000000))])),
  .tell (.subscribe "listener" .watch)]

/-- A node is put on the edge. -/
def splitting : Step := .splitEdge (.text "A") (.text "B") (.text "rect") .null .null

/-- The new edges get no ids, but the node has come, and the listener has heard of it. -/
theorem splitting_leaves_node :
    let s := brief.asked stretching
    let u := (splitting.run.run.run s).2
    (splitting.run.run.run s).1 = .error .uncountable ∧
      s.diagram.hasNode (.text "N3") = false ∧ u.diagram.hasNode (.text "N3") ∧
      s.editor.delivered.length = 0 ∧ u.editor.delivered.length = 1 := by
  decide +kernel

end Session
end Flowchart
