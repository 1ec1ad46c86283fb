import Flowchart.Proofs.Atomicity

/-! Listeners that change nothing. They look things up, begin and end batches, let others of
their kind come and go, or leave. Telling them something never fails, and the diagram is
afterwards what it was before; so a command leaves what its edit has made, or nothing at all. -/
namespace Flowchart
open Action

mutual

/-- Does the command leave the diagram as it is, and does it never fail? This is asked of commands
inside batches and of listeners as well. -/
def Command.IsQuiet : Command → Prop
  | .hasNode id | .hasEdge id | .hasSubgraph id => id.isSimple
  | .getNode id | .getEdge id | .getSubgraph id => id.isSimple
  | .edgesAt _ | .getClass _ | .getDirection | .inBatch | .nodeCount | .edgeCount => True
  | .listNodes | .listEdges | .listSubgraphs | .settled | .listenerCount => True
  | .beginBatch | .endBatch | .unsubscribe _ | .unsubscribeAll => True
  | .withBatch steps => Command.areQuiet steps
  | .subscribe _ reaction => Command.reactsQuietly reaction
  | _ => False

/-- Are all commands quiet? -/
def Command.areQuiet : List Command → Prop
  | [] => True
  | c :: cs => c.IsQuiet ∧ Command.areQuiet cs

/-- Does a reaction never fail, and is the command that it has run a quiet one? -/
def Command.reactsQuietly : Reaction Command → Prop
  | .act c => c.IsQuiet
  | .fail => False
  | _ => True

end

namespace Editor

/-- All listeners are quiet, those included that are not subscribed any more. -/
def IsQuiet (e : Editor) : Prop := ∀ l ∈ e.known, Command.reactsQuietly l.reaction

theorem quiet_ofDiagram (d : Diagram) : (ofDiagram d).IsQuiet := by simp [IsQuiet, ofDiagram]

theorem quiet_of_calm {e : Editor} (calm : ∀ l ∈ e.known, l.reaction.IsCalm) : e.IsQuiet := by
  intro l hl
  have still := calm l hl
  cases reaction : l.reaction with
  | watch | leave => trivial
  | fail | act c =>
    rw [reaction] at still
    exact still.elim

theorem IsQuiet.subscribe {e : Editor} (h : e.IsQuiet) (name : Text)
    {reaction : Reaction Command} (quiet : Command.reactsQuietly reaction) :
    IsQuiet (e.subscribe name reaction) := by
  intro l hl
  simp only [Emitter.subscribe] at hl
  split at hl
  · exact h l hl
  · rcases List.mem_append.mp hl with hl | hl
    · exact h l hl
    · rw [List.mem_singleton.mp hl]
      exact quiet

theorem IsQuiet.spend {e : Editor} (h : e.IsQuiet) (name : Text) : IsQuiet (e.spend name) := by
  intro l hl
  obtain ⟨k, old, rfl⟩ := List.mem_map.mp hl
  split <;> exact h k old

/-- The editor has this diagram, and its listeners are quiet. -/
structure Rests (d : Diagram) (e : Editor) : Prop where
  diagram : e.diagram = d
  quiet : e.IsQuiet

variable {d : Diagram} {run : Runner}

theorem deliver_passes (answers : ∀ c : Command, c.IsQuiet → Passes (Rests d) (run c))
    (event : Event) (names : List Text) :
    Passes (Rests d) (Emitter.deliver run event names) := by
  induction names with
  | nil => exact fun _ he => he
  | cons name names ih =>
    intro e he
    simp only [Emitter.deliver, ends_bind, ends_modify, ends_get]
    have told : Rests d (e.heard name event) := ⟨he.diagram, he.quiet⟩
    have quiet : ∀ l, (e.heard name event).listener? name = some l →
        Command.reactsQuietly l.reaction := fun l found => he.quiet l (List.mem_of_find?_eq_some found)
    split
    · simp only [ends_bind, ends_modify]
      exact ih _ ⟨told.diagram, told.quiet⟩
    · rename_i found
      exact (quiet _ found).elim
    · rename_i command found
      simp only [ends_bind, ends_modify]
      have spent : Rests d ((e.heard name event).spend name) :=
        ⟨told.diagram, IsQuiet.spend told.quiet name⟩
      exact (answers command (quiet _ found) _ spent).imp (fun _ t ht => ih t ht) fun _ _ => id
    · exact ih _ told

theorem emit_passes (answers : ∀ c : Command, c.IsQuiet → Passes (Rests d) (run c))
    (event : Event) : Passes (Rests d) (Emitter.emit run event) := by
  intro e he
  simp only [Emitter.emit, ends_bind, ends_get]
  exact deliver_passes answers event _ e he

theorem publish_passes (answers : ∀ c : Command, c.IsQuiet → Passes (Rests d) (run c))
    (changes : List Change) (grouped : Bool) :
    Passes (Rests d) (publish run changes grouped) := by
  intro e he
  simp only [publish, ends_bind, ends_get]
  split
  · exact ⟨he.diagram, he.quiet⟩
  · split
    · split
      · exact he
      · exact emit_passes answers _ e he
    · exact passes_forM (fun c _ => emit_passes answers (.single c)) e he

theorem endBatch_passes (answers : ∀ c : Command, c.IsQuiet → Passes (Rests d) (run c)) :
    Passes (Rests d) (endBatch run) := by
  intro e he
  simp only [endBatch, ends_bind, ends_get, ends_onBoard]
  split
  · simp only [ends_bind, ends_onBoard]
    exact emit_passes answers _ _ ⟨he.diagram, he.quiet⟩
  · exact ⟨he.diagram, he.quiet⟩

theorem within_passes {α : Type} {action : Action Editor α}
    (answers : ∀ c : Command, c.IsQuiet → Passes (Rests d) (run c))
    (passes : Passes (Rests d) action) : Passes (Rests d) (within run action) := by
  intro e he
  simp only [within, beginBatch, ends_bind, ends_onBoard, ends_lift_run]
  have begun : Rests d { e with content := { e.content with depth := e.content.depth + 1 } } :=
    ⟨he.diagram, he.quiet⟩
  refine (passes _ begun).imp (fun x t ht => ?_) fun _ _ => False.elim
  exact (endBatch_passes answers t ht).imp (fun _ _ hu => hu) fun _ _ => id

theorem askOf_passes {α : Type} {id : Value} (simple : id.isSimple) (f : Diagram → α) :
    Passes (Rests d) (askOf id f) := by
  intro e he
  rw [askOf, ends_bind, ends_except, Value.simple, if_pos simple]
  exact ⟨fun _ _ => he, by simp⟩

mutual

theorem obey_passes (answers : ∀ c : Command, c.IsQuiet → Passes (Rests d) (run c)) :
    (c : Command) → c.IsQuiet → Passes (Rests d) (obey run c)
  | .hasNode _, simple => passes_bind (askOf_passes simple _) fun _ _ he => he
  | .hasEdge _, simple => passes_bind (askOf_passes simple _) fun _ _ he => he
  | .hasSubgraph _, simple => passes_bind (askOf_passes simple _) fun _ _ he => he
  | .getNode _, simple => passes_bind (askOf_passes simple _) fun _ _ he => he
  | .getEdge _, simple => passes_bind (askOf_passes simple _) fun _ _ he => he
  | .getSubgraph _, simple => passes_bind (askOf_passes simple _) fun _ _ he => he
  | .edgesAt _, _ | .getClass _, _ | .getDirection, _ | .inBatch, _ | .nodeCount, _
  | .edgeCount, _ | .listNodes, _ | .listEdges, _ | .listSubgraphs, _ | .settled, _
  | .listenerCount, _ => fun _ he => he
  | .beginBatch, _ => fun _ he => ⟨he.diagram, he.quiet⟩
  | .endBatch, _ => passes_map (endBatch_passes answers) _
  | .unsubscribe _, _ | .unsubscribeAll, _ => fun _ he => ⟨he.diagram, he.quiet⟩
  | .subscribe name _, quiet => fun _ he => ⟨he.diagram, he.quiet.subscribe name quiet⟩
  | .withBatch steps, quiet => passes_bind
      (within_passes answers (obeyAll_passes answers steps quiet)) fun _ _ he => he

theorem obeyAll_passes (answers : ∀ c : Command, c.IsQuiet → Passes (Rests d) (run c)) :
    (cs : List Command) → Command.areQuiet cs → Passes (Rests d) (obeyAll run cs)
  | [], _ => fun _ he => he
  | c :: cs, quiet => passes_bind (obey_passes answers c quiet.1) fun _ =>
      passes_bind (obeyAll_passes answers cs quiet.2) fun _ _ he => he

end

theorem replies_passes (depth : Nat) (c : Command) (quiet : c.IsQuiet) :
    Passes (Rests d) (replies depth c) := by
  induction depth generalizing c with
  | zero => exact fun _ he => he
  | succ depth ih => exact passes_bind (obey_passes ih c quiet) fun _ _ he => he

/-- Among quiet listeners a command leaves what its edit has made. Where the edit fails only
before it does anything, a command that fails leaves everything as it was. -/
theorem perform_passes {α : Type} {edit : Edit α} {e : Editor} (quiet : e.IsQuiet) (depth : Nat)
    (ok : α → Diagram → Prop) (err : Error → Prop)
    (ends : Ends edit e.opening (fun x q => ok x q.diagram) fun f q => q = e.opening ∧ err f) :
    Ends (perform (replies depth) edit) e (fun x t => ok x.1 t.diagram ∧ t.IsQuiet)
      fun f t => t = e ∧ err f := by
  simp only [perform, ends_bind, ends_enact, ends_get]
  unfold Ends at ends
  cases result : (edit.run.run e.opening).1 with
  | ok x =>
    simp only [result] at ends
    have made : Rests (edit.run.run e.opening).2.diagram (e.afterEdit (edit.run.run e.opening).2) :=
      ⟨rfl, quiet⟩
    refine (publish_passes (replies_passes depth) _ _ _ made).imp (fun _ t ht => ?_)
      fun _ _ => False.elim
    exact ⟨ht.diagram ▸ ends, ht.quiet⟩
  | error failure =>
    simp only [result] at ends
    rw [ends.1, afterEdit_opening]
    refine (publish_nothing _).imp (fun _ t ht => ?_) fun _ _ ht => ht
    exact ⟨ht, ends.2⟩

end Editor
end Flowchart
