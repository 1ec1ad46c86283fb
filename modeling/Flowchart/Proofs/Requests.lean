import Flowchart.Proofs.Runs

/-! What can be asked of a session. Besides calls there are others who take the texts, the end of
the session, and commands that go past the session to the diagram that it holds. Whatever all edits
of a kind keep of a diagram holds of the present one and of all that can be gone back to, wherever
such requests lead, whoever listens and whatever fails. -/
namespace Flowchart
open Action

/-- The diagram has the property, and no node is in the table twice. -/
def Snapshot.Carries (D : Diagram → Prop) (x : Snapshot) : Prop :=
  D x.diagram ∧ (Keyed.keys x.places).Nodup

namespace Session

/-- What is asked of a session, or of the diagram that it holds. -/
inductive Request where
  | call (c : Call)
  /-- Somebody else takes the texts from now on, or nobody. -/
  | receive (receiver : Receiver)
  /-- A command goes to the diagram, past the session. -/
  | tell (c : Command)
  | close

/-- Does what is asked. -/
def Request.run : Request → Action Session Unit
  | .call c => c.run
  | .receive receiver => modify fun s => { s with receiver }
  | .tell c => (fun _ => ()) <$> onEditor (Editor.run c)
  | .close => Session.close

/-- The states that a session attains by requests that fit. -/
inductive Attains (fits : Request → Prop) (s₀ : Session) : Session → Prop
  | start : Attains fits s₀ s₀
  | request {s : Session} {r : Request} (before : Attains fits s₀ s) (fit : fits r) :
    Attains fits s₀ (r.run.run.run s).2

/-- A session after requests, whether they succeeded or failed. -/
def asked (s : Session) (requests : List Request) : Session :=
  requests.foldl (fun s r => (r.run.run.run s).2) s

theorem attains_asked {fits : Request → Prop} {s₀ s : Session} (attained : Attains fits s₀ s)
    {requests : List Request} (fit : ∀ r ∈ requests, fits r) :
    Attains fits s₀ (s.asked requests) := by
  induction requests generalizing s with
  | nil => exact attained
  | cons r rs ih =>
    exact ih (attained.request (fit r List.mem_cons_self)) fun q hq =>
      fit q (List.mem_cons_of_mem r hq)

/-! ### Properties that outlive requests -/

section Outlive
variable {D : Diagram → Prop} {fine : Command → Prop} {Q : ∀ α : Type, Edit α → Prop}

/-- Edits and commands of a kind keep the property, and the diagrams that come in have it. -/
structure Outlives (D : Diagram → Prop) (fine : Command → Prop) (Q : ∀ α : Type, Edit α → Prop) :
    Prop where
  upholds : ∀ run : Editor.Runner, (∀ c, fine c → Keeps (Editor.Hosts D fine) (run c)) →
    Editor.Upholds (Editor.Hosts D fine) run Q fine
  made : ∀ {α : Type} {edit : Edit α}, Q α edit → ∀ d, D d →
    D (edit.run.run { diagram := d }).2.diagram
  moves : ∀ (id : Value) (p : Position), Q _ (Edit.updateNode id p.change)
  empty : D .empty
  read : ∀ {text : Text} {d : Diagram}, Diagram.read text = .ok d → D d
  settle : ∀ {d : Diagram}, D d → D d.settle

/-- The edits of the step are of the kind, and so is what a listener that comes has run. -/
def Step.Uses (fine : Command → Prop) (Q : ∀ α : Type, Edit α → Prop) : Step → Prop
  | .addNode id text shape _ fields => ∀ n, nodeFor id text shape fields = .ok n →
      Q _ (Edit.addNode n)
  | .updateNode id changes => Q _ (Edit.updateNode id changes)
  | .removeNode id => Q _ (Edit.removeNode id)
  | .addEdge source target fields => ∀ e, edgeFor source target fields = .ok e →
      Q _ (Edit.addEdge e)
  | .updateEdge id changes => Q _ (Edit.updateEdge id changes)
  | .removeEdge id => Q _ (Edit.removeEdge id)
  | .splitEdge _ _ shape id text => ∀ (s : Session) (n : Node),
      s.nodeBetween shape id text = .ok n → ∀ e position, Q _ (Edit.splitEdge e n position)
  | .listen name reaction => fine (.subscribe name reaction)
  | .undo | .redo | .elapse => True

/-- What is asked is of the kind. -/
def Request.Uses (fine : Command → Prop) (Q : ∀ α : Type, Edit α → Prop) : Request → Prop
  | .call (.step x) => x.Uses fine Q
  | .tell c => fine c
  | _ => True

/-- The property holds now and of all that can be gone back to, and what listeners have run is of
the kind. -/
structure Abides (D : Diagram → Prop) (fine : Command → Prop) (s : Session) : Prop where
  present : Editor.Hosts D fine s.editor
  once : (Keyed.keys s.places).Nodup
  history : s.history.All (Snapshot.Carries D)

variable {s : Session}

theorem Abides.snapshot (h : s.Abides D fine) : s.snapshot.Carries D := ⟨h.present.diagram, h.once⟩

theorem Abides.alike (h : s.Abides D fine) {u : Session} (alike : Alike s u) :
    u.Abides D fine := by
  refine ⟨?_, ?_, ?_⟩
  · rw [alike.editor]
    exact h.present
  · rw [alike.places]
    exact h.once
  · rw [alike.history]
    exact h.history

theorem Abides.reopened (h : s.Abides D fine) {d : Diagram} (hd : D d) {places : Places}
    (once : (Keyed.keys places).Nodup) {history : History Snapshot}
    (all : history.All (Snapshot.Carries D)) :
    Abides D fine { s with editor := s.editor.reopened d, places, history } :=
  ⟨⟨hd, h.present.fine⟩, once, all⟩

theorem ofExcept_abides {α : Type} (r : Except Error α) :
    Keeps (Abides D fine) (ofExcept r) := by
  intro s hs
  rw [ends_ofExcept]
  exact ⟨fun _ _ => hs, fun _ _ => hs⟩

theorem onEditor_abides {α : Type} {action : Action Editor α}
    (h : Keeps (Editor.Hosts D fine) action) : Keeps (Abides D fine) (onEditor action) := by
  intro s hs
  rw [ends_onEditor]
  exact (h s.editor hs.present).imp (fun _ _ he => ⟨he, hs.once, hs.history⟩)
    fun _ _ he => ⟨he, hs.once, hs.history⟩

theorem command_abides {α : Type} {f : Editor.Runner → Action Editor α}
    (h : ∀ depth, Keeps (Editor.Hosts D fine) (f (Editor.replies depth))) :
    Keeps (Abides D fine) (command f) := by
  refine onEditor_abides fun e he => ?_
  simp only [Editor.attended, ends_bind, ends_get]
  exact h e.due e he

theorem places_abides {f : Places → Places}
    (once : ∀ ps, (Keyed.keys ps).Nodup → (Keyed.keys (f ps)).Nodup) :
    Keeps (Abides D fine)
      (modify fun s => { s with places := f s.places } : Action Session PUnit) :=
  fun s hs => ⟨hs.present, once s.places hs.once, hs.history⟩

theorem edit_abides {α : Type} {changes : α → Bool} {action : Action Session α}
    (h : Keeps (Abides D fine) action) : Keeps (Abides D fine) (edit changes action) := by
  intro s hs
  simp only [edit, ends_bind, ends_get]
  refine (h s hs).imp (fun x t ht => ?_) fun _ _ ht => ht
  split
  · simp only [Debounced.schedule, ends_bind, ends_modify, ends_pure]
    exact ⟨ht.present, ht.once, ht.history.record hs.snapshot⟩
  · exact ht

theorem cancel_abides : Keeps (Abides D fine) (Debounced.cancel (σ := Session)) := fun _ hs =>
  ⟨hs.present, hs.once, hs.history⟩

theorem alike_abides {α : Type} {action : Action Session α}
    (h : ∀ s, Ends action s (fun _ u => Alike s u) fun _ u => Alike s u) :
    Keeps (Abides D fine) action := fun s hs =>
  (h s).imp (fun _ _ hu => hs.alike hu) fun _ _ hu => hs.alike hu

/-! ### Requests -/

section Requests
variable (outlives : Outlives D fine Q)
include outlives

theorem perform_hosts {α : Type} {edit : Edit α} (kind : Q α edit) (depth : Nat) :
    Keeps (Editor.Hosts D fine) (Editor.perform (Editor.replies depth) edit) :=
  (outlives.upholds _ (Editor.replies_keeps outlives.upholds depth)).perform edit kind

theorem place_abides (id : Value) (p : Position) : Keeps (Abides D fine) (place id p) := by
  intro s hs
  simp only [place, ends_bind, ends_get]
  split
  · simp only [ends_bind, ends_pure]
    refine command_abides (fun depth => ?_) s hs
    exact keeps_bind (perform_hosts outlives (outlives.moves id p) depth) fun _ _ he => he
  · exact hs

theorem placeAll_abides : Keeps (Abides D fine) placeAll := by
  intro s hs
  simp only [placeAll, ends_bind, ends_get]
  exact keeps_forM (fun q _ => place_abides outlives q.1 q.2) s hs

theorem addNode_abides {id text shape : Value} {position : Option Position} {fields : Fields}
    (uses : Step.Uses fine Q (.addNode id text shape position fields)) :
    Keeps (Abides D fine) (addNode id text shape position fields) := by
  rw [addNode_eq]
  refine edit_abides fun s hs => ?_
  simp only [ends_bind, ends_ofExcept]
  refine ⟨fun n made => ?_, fun _ _ => hs⟩
  have added : Keeps (Abides D fine) (command fun run => Editor.addNode run n) :=
    command_abides fun depth =>
      keeps_bind (perform_hosts outlives (uses n made) depth) fun _ _ he => he
  refine (added s hs).imp (fun n t ht => ?_) fun _ _ ht => ht
  have settled : Keeps (Abides D fine) (settleAdded id position fields n) := by
    refine keeps_bind (ofExcept_abides _) fun place => ?_
    cases place with
    | none => exact fun _ ht => ht
    | some p =>
      refine keeps_bind (ofExcept_abides _) fun key => ?_
      refine keeps_bind (places_abides fun _ once => Keyed.nodup_keys_put once (key, p))
        fun _ => keeps_bind (command_abides fun depth => ?_) fun _ _ ht => ht
      exact keeps_bind (perform_hosts outlives (outlives.moves key p) depth) fun _ _ he => he
  exact settled t ht

theorem splitOn_abides {e : Edge} {n : Node} {position : Except Error (Option Position)}
    (kind : Q _ (Edit.splitEdge e n position)) (id : Value) :
    Keeps (Abides D fine) (splitOn e n id position) := by
  have made : Keeps (Editor.Hosts D fine) (Editor.enact (Edit.splitEdge e n position)) :=
    fun e he => ⟨outlives.made kind e.diagram he.diagram, he.fine⟩
  refine keeps_bind (onEditor_abides made) fun ended => ?_
  have told : Keeps (Abides D fine) (do
      command fun run => Editor.publish run ended.2.changes ended.2.grouped
      return some (← ofExcept ended.1)) := by
    refine keeps_bind (command_abides fun depth => ?_) fun _ =>
      keeps_bind (ofExcept_abides _) fun _ _ ht => ht
    exact Editor.publish_keeps_hosts (Editor.replies_keeps outlives.upholds depth) _ _
  -- a place is kept only where the node has come
  dsimp only
  split
  · rename_i p _
    exact keeps_bind (places_abides fun _ once => Keyed.nodup_keys_put once (id, p)) fun _ => told
  · exact told

theorem splitEdge_abides {source target shape id text : Value}
    (uses : Step.Uses fine Q (.splitEdge source target shape id text)) :
    Keeps (Abides D fine) (splitEdge source target shape id text) := by
  intro s hs
  simp only [splitEdge_eq, ends_bind, ends_get, ends_ofExcept]
  refine ⟨fun ids _ => ?_, fun _ _ => hs⟩
  split
  · exact hs
  · rename_i e _
    refine edit_abides (fun t ht => ?_) s hs
    rw [ends_bind, ends_ofExcept]
    exact ⟨fun n made => splitOn_abides outlives (uses s n made e _) _ t ht, fun _ _ => ht⟩

theorem step_abides {there : Option (Snapshot × History Snapshot)}
    (told : History Snapshot → Note) (hs : s.Abides D fine)
    (all : ∀ x, there = some x → x.1.Carries D ∧ x.2.All (Snapshot.Carries D)) :
    Ends (step there told) s (fun _ u => u.Abides D fine) fun _ u => u.Abides D fine := by
  cases there with
  | none => exact hs
  | some x =>
    obtain ⟨state, rest⟩ := all x rfl
    have gone : Abides D fine (s.gone x.1 x.2) :=
      hs.reopened (outlives.settle state.1) state.2 rest
    exact (step_alike x.1 x.2 told).imp (fun _ _ hu => gone.alike hu) fun _ _ hu => gone.alike hu

theorem Step.abides {step : Step} (uses : step.Uses fine Q) :
    Keeps (Abides D fine) step.run := by
  cases step with
  | addNode id text shape position fields => exact keeps_map (addNode_abides outlives uses) _
  | updateNode id changes =>
    refine keeps_map (edit_abides (command_abides fun depth => ?_)) _
    exact keeps_bind (perform_hosts outlives uses depth) fun _ _ he => he
  | removeNode id =>
    refine edit_abides (keeps_bind (command_abides fun depth => ?_) fun removed => ?_)
    · exact keeps_bind (perform_hosts outlives uses depth) fun _ _ he => he
    · intro t ht
      split
      · exact ⟨ht.present, Keyed.nodup_keys_remove ht.once id, ht.history⟩
      · exact ht
  | addEdge source target fields =>
    refine keeps_map (edit_abides fun s hs => ?_) _
    simp only [ends_bind, ends_ofExcept]
    refine ⟨fun e made => command_abides (fun depth => ?_) s hs, fun _ _ => hs⟩
    exact keeps_bind (perform_hosts outlives (uses e made) depth) fun _ _ he => he
  | updateEdge id changes =>
    refine keeps_map (edit_abides (command_abides fun depth => ?_)) _
    exact keeps_bind (perform_hosts outlives uses depth) fun _ _ he => he
  | removeEdge id =>
    refine edit_abides (command_abides fun depth => ?_)
    exact keeps_bind (perform_hosts outlives uses depth) fun _ _ he => he
  | splitEdge source target shape id text => exact keeps_map (splitEdge_abides outlives uses) _
  | undo =>
    intro s hs
    simp only [Step.run, Session.undo, ends_bind, ends_get]
    exact step_abides outlives _ hs fun _ back => hs.history.back hs.snapshot back
  | redo =>
    intro s hs
    simp only [Step.run, Session.redo, ends_bind, ends_get]
    exact step_abides outlives _ hs fun _ forth => hs.history.forth hs.snapshot forth
  | listen name reaction =>
    refine keeps_bind (onEditor_abides fun e he => ?_) fun _ _ ht => ht
    have upholds := outlives.upholds _ (Editor.replies_keeps outlives.upholds 0)
    exact upholds.subscribe uses e he
  | elapse => exact alike_abides fun _ => elapse_alike

theorem Request.abides {request : Request} (uses : request.Uses fine Q) :
    Keeps (Abides D fine) request.run := by
  have cleared : ∀ {h : History Snapshot}, h.cleared.All (Snapshot.Carries D) :=
    ⟨by simp [History.cleared], by simp [History.cleared]⟩
  cases request with
  | call c =>
    cases c with
    | step x => exact keeps_map (Step.abides outlives uses) _
    | load text =>
      refine keeps_map (fun s hs => ?_) _
      simp only [load]
      split
      · exact ⟨hs.present, hs.once, hs.history⟩
      · rename_i d read
        simp only [ends_bind, ends_modify]
        have opened := hs.reopened (outlives.read read) hs.once hs.history
        refine (placeAll_abides outlives _ opened).imp (fun _ t ht => ?_) fun _ _ ht => ht
        exact (cancel_abides t ht).imp (fun _ _ hu => hu) fun _ _ hu => hu
    | moveNode id p =>
      refine keeps_bind (ofExcept_abides _) fun key => ?_
      refine keeps_bind (places_abides fun _ once => Keyed.nodup_keys_put once (key, p)) fun _ => ?_
      exact place_abides outlives key p
    | setPlaces table =>
      intro s hs
      simp only [Request.run, Call.run, Session.setPlaces, ends_bind, ends_ofExcept, ends_modify]
      refine ⟨fun ps read => placeAll_abides outlives _ ?_, fun _ _ => hs⟩
      exact ⟨hs.present, nodup_placesOfData read, hs.history⟩
    | flush => exact keeps_map (alike_abides fun _ => flush_alike) _
    | clear =>
      refine keeps_bind cancel_abides fun _ s hs => ?_
      have nowhere : (Keyed.keys ([] : Places)).Nodup := List.nodup_nil
      exact hs.reopened outlives.empty nowhere cleared
  | receive receiver => exact fun _ hs => ⟨hs.present, hs.once, hs.history⟩
  | tell c => exact keeps_map (onEditor_abides (Editor.run_keeps outlives.upholds uses)) _
  | close =>
    refine keeps_bind cancel_abides fun _ s hs => ?_
    exact ⟨⟨hs.present.diagram, hs.present.fine⟩, List.nodup_nil, cleared⟩

/-- What outlives requests of a kind holds wherever they lead from the start. -/
theorem Attains.abides {limit : Value} {layout : Layout} {s₀ : Session}
    (started : Session.start limit layout = .ok s₀) {fits : Request → Prop}
    (uses : ∀ r, fits r → r.Uses fine Q) (attained : Attains fits s₀ s) : s.Abides D fine := by
  induction attained with
  | start =>
    obtain ⟨h, bounded, ⟨⟩⟩ := bind_eq_ok.mp started
    have fresh := History.ofData_fresh bounded
    refine ⟨Editor.hosts_ofDiagram outlives.empty, List.nodup_nil, ?_, ?_⟩
    · simp [fresh.1]
    · simp [fresh.2]
  | request _ fit ih => exact (Request.abides outlives (uses _ fit) _ ih).state

end Requests
end Outlive
end Session
end Flowchart
