import Flowchart.Proofs.Calls

/-! Runs of sessions. Traits that go along with the table of places are kept by every call that
admits them, in the present state and in all that can be gone back to, so they hold wherever a
session gets to. -/
namespace Flowchart
open Action

namespace Diagram
variable {tr : Places → Trait} {d : Diagram}

theorem Sturdy.settle (h : d.Sturdy) : d.settle.Sturdy := by
  refine ⟨h.integral.settle, ?_, fun _ _ => trivial, fun _ _ => trivial, trivial⟩
  intro n hn
  obtain ⟨m, hm, rfl⟩ := List.mem_map.mp hn
  rw [m.settle_rest]
  exact h.simple.nodes m hm

theorem Sturdy.positionedAll (h : d.Sturdy) (ps : Places) : (d.positionedAll ps).Sturdy :=
  List.foldlRecOn (motive := Sturdy) ps _ h fun _ hd q _ => hd.positioned q.1 q.2

/-- Nodes that are put at their places one after another have the traits of the whole table. -/
theorem Has.positionedAll (tabled : Tabled tr) {ps : Places} (once : (Keyed.keys ps).Nodup)
    (h : d.Has (tr [])) : (d.positionedAll ps).Has (tr ps) := by
  -- those at the front of the table are there already
  suffices walk : ∀ front rest : Places, (Keyed.keys (front ++ rest)).Nodup → ∀ d : Diagram,
      d.Has (tr front) → (d.positionedAll rest).Has (tr (front ++ rest)) from walk [] ps once d h
  intro front rest
  induction rest generalizing front with
  | nil =>
    intro _ d h
    rw [List.append_nil]
    exact h
  | cons q rest ih =>
    intro once d h
    have fresh : q.1 ∉ Keyed.keys front := by
      rw [Keyed.keys_append, Keyed.keys_cons] at once
      exact fun taken => List.disjoint_of_nodup_append once taken List.mem_cons_self
    have forgotten : d.Has (tr (Keyed.remove q.1 front)) :=
      tabled.forgets (fun _ _ => Keyed.find?_of_remove) h
    have moved := tabled.moves q.1 q.2 forgotten
    rw [Keyed.put_of_not_mem (x := q) fresh] at moved
    rw [List.append_cons] at once ⊢
    exact ih (front ++ [q]) once (d.positioned q.1 q.2) moved

end Diagram

namespace Session
variable {tr : Places → Trait} {s u : Session}

/-- What is asked of a session: steps, texts that come in, places, and output at once. It can also
be emptied. -/
inductive Call where
  | step (step : Step)
  | load (text : Text)
  | moveNode (id : Value) (p : Position)
  | setPlaces (table : List (Value × Value))
  | flush
  | clear

/-- Does what is asked. -/
def Call.run : Call → Action Session Unit
  | .step x => (fun _ => ()) <$> x.run
  | .load text => (fun _ => ()) <$> Session.load text
  | .moveNode id p => Session.moveNode id p
  | .setPlaces table => Session.setPlaces table
  | .flush => (fun _ => ()) <$> Session.flush
  | .clear => Session.clear

/-- The step gives the diagram nothing without the traits, and a listener that comes is quiet. -/
def Step.Admits (tr : Places → Trait) (s : Session) : Step → Prop
  | .addNode id text shape position fields => ∀ n, nodeFor id text shape fields = .ok n →
      s.Welcomes tr n (n.id = id ∧ ∃ p, placeFor position fields = .ok (some p))
  | .updateNode id changes => ∀ set, Edit.setAll Node.setters changes = .ok set →
      ∀ n : Node, n.id = id → (tr s.places).node n → (tr s.places).node (set n)
  | .addEdge source target fields => ∀ e, edgeFor source target fields = .ok e →
      ∀ id : Value, id.holds → (id = e.id ∨ ∃ t, id = .text t) →
        (tr s.places).edge { e with id }
  | .updateEdge _ changes => (Keyed.keys changes).Nodup ∧
      Edit.Lets Edge.setters (tr s.places).edge changes
  | .splitEdge source target shape id text => ∀ n, s.nodeBetween shape id text = .ok n →
      s.Welcomes tr n ((∃ p, s.halfway source target = .ok (some p)) ∧
        ((Session.splitEdge source target shape id text).run.run s).1.isOk)
  | .listen _ reaction => Command.reactsQuietly reaction
  | .removeNode _ | .removeEdge _ | .undo | .redo | .elapse => True

/-- The call gives the diagram nothing without the traits. Of a text that comes in the traits of an
empty table are asked, since the nodes are put at their places afterwards. -/
def Call.Admits (tr : Places → Trait) (s : Session) : Call → Prop
  | .step x => x.Admits tr s
  | .load text => ∀ d, Diagram.read text = .ok d → d.Has (tr [])
  | .moveNode .. | .setPlaces _ | .flush | .clear => True

/-- The traits hold in the present state and in all that can be gone to. -/
structure Holds (tr : Places → Trait) (s : Session) : Prop where
  present : s.Bears tr
  history : s.history.All (Snapshot.Bears tr)

theorem Holds.acts (h : s.Holds tr) (acts : Acts tr s u) : u.Holds tr := by
  refine ⟨acts.bears, ?_⟩
  rw [acts.same]
  exact h.history

theorem Holds.altered (h : s.Holds tr) {changed : Bool} (altered : Altered tr s changed u) :
    u.Holds tr := by
  refine ⟨altered.bears, ?_⟩
  rw [altered.history]
  split
  · exact h.history.record h.present.present
  · exact h.history

theorem Holds.alike (h : s.Holds tr) (alike : Alike s u) : u.Holds tr := by
  refine ⟨⟨?_, ?_⟩, ?_⟩
  · rw [alike.editor]
    exact h.present.quiet
  · rw [snapshot, diagram, alike.editor, alike.places]
    exact h.present.present
  · rw [alike.history]
    exact h.history

/-- The nodes have been put at the places of a new table. -/
theorem Holds.shows (h : s.Holds tr) {t : Session} {d : Diagram} (shows : Shows t d u)
    (history : t.history = s.history) (sturdy : d.Sturdy) (has : d.Has (tr t.places))
    (once : (Keyed.keys t.places).Nodup) : u.Holds tr := by
  have places : u.places = t.places := by rw [shows.same]
  have same : u.history = t.history := by rw [shows.same]
  refine ⟨⟨shows.quiet, ?_⟩, ?_⟩
  · rw [snapshot, shows.diagram, places]
    exact ⟨sturdy, has, once⟩
  · rw [same, history]
    exact h.history

theorem Holds.gone (tabled : Tabled tr) (h : s.Holds tr) {there : Snapshot}
    {history : History Snapshot} (bears : there.Bears tr)
    (all : history.All (Snapshot.Bears tr)) : (s.gone there history).Holds tr :=
  ⟨⟨h.present.quiet, bears.sturdy.settle, tabled.settles bears.has, bears.once⟩, all⟩

theorem Step.holds (tabled : Tabled tr) (h : s.Holds tr) {step : Step} (admits : step.Admits tr s) :
    Ends step.run s (fun _ u => u.Holds tr) fun _ u => u.Holds tr := by
  have b := h.present
  have still : ∀ u, u = s → u.Holds tr := fun _ same => same ▸ h
  -- going through the history
  have travels : ∀ (there : Option (Snapshot × History Snapshot)) (told : History Snapshot → Note),
      (∀ x, there = some x → x.1.Bears tr ∧ x.2.All (Snapshot.Bears tr)) →
      Ends (Session.step there told) s (fun _ u => u.Holds tr) fun _ u => u.Holds tr := by
    intro there told all
    cases there with
    | none => exact h
    | some x =>
      have gone := h.gone tabled (all x rfl).1 (all x rfl).2
      exact (step_alike x.1 x.2 told).imp (fun _ _ hu => gone.alike hu) fun _ _ hu => gone.alike hu
  cases step with
  | addNode id text shape position fields =>
    rw [Step.run, ends_map]
    exact (addNode_altered tabled b id text shape position fields admits).imp
      (fun _ _ hu => h.altered hu) fun _ _ hu => h.acts hu.1
  | updateNode id changes =>
    rw [Step.run, ends_map]
    exact (updateNode_altered b id admits).imp (fun _ _ hu => h.altered hu) fun _ u hu => still u hu
  | removeNode id =>
    exact (removeNode_altered tabled b id).imp (fun _ _ hu => h.altered hu) fun _ u hu => still u hu
  | addEdge source target fields =>
    rw [Step.run, ends_map]
    exact (addEdge_altered b source target fields admits).imp (fun _ _ hu => h.altered hu)
      fun _ u hu => still u hu
  | updateEdge id changes =>
    rw [Step.run, ends_map]
    exact (updateEdge_altered b id admits.1 admits.2).imp (fun _ _ hu => h.altered hu)
      fun _ u hu => still u hu
  | removeEdge id =>
    exact (removeEdge_altered b id).imp (fun _ _ hu => h.altered hu) fun _ u hu => still u hu
  | splitEdge source target shape id text =>
    rw [Step.run, ends_map]
    exact (splitEdge_altered tabled b source target shape id text admits).imp
      (fun _ _ hu => h.altered hu) fun _ _ hu => h.acts hu.1
  | undo =>
    simp only [Step.run, Session.undo, ends_bind, ends_get]
    exact travels _ _ fun _ back => h.history.back b.present back
  | redo =>
    simp only [Step.run, Session.redo, ends_bind, ends_get]
    exact travels _ _ fun _ forth => h.history.forth b.present forth
  | listen name reaction =>
    simp only [Step.run, ends_bind, ends_onEditor, ends_modify, ends_pure]
    exact ⟨⟨b.quiet.subscribe name admits, b.present⟩, h.history⟩
  | elapse => exact elapse_alike.imp (fun _ _ hu => h.alike hu) fun _ _ hu => h.alike hu

/-- A call keeps the traits, whether it succeeds or fails. -/
theorem Call.holds (tabled : Tabled tr) (h : s.Holds tr) {call : Call} (admits : call.Admits tr s) :
    Ends call.run s (fun _ u => u.Holds tr) fun _ u => u.Holds tr := by
  have once := h.present.present.once
  have sturdy : s.diagram.Sturdy := h.present.present.sturdy
  have has : s.diagram.Has (tr s.places) := h.present.present.has
  cases call with
  | step x =>
    rw [Call.run, ends_map]
    exact Step.holds tabled h admits
  | load text =>
    rw [Call.run, ends_map]
    refine (load_shows h.present.quiet text).imp ?_ ?_
    · rintro _ u ⟨d, read, shows⟩
      exact h.shows shows rfl ((sturdy_read read).positionedAll _)
        ((admits d read).positionedAll tabled once) once
    · rintro _ u ⟨_, same⟩
      rw [same]
      exact ⟨⟨h.present.quiet, h.present.present⟩, h.history⟩
  | moveNode id p =>
    refine (moveNode_shows h.present.steadfast id p).imp (fun _ u shows => ?_)
      fun _ u same => same ▸ h
    have forgotten : s.diagram.Has (tr (Keyed.remove id s.places)) :=
      tabled.forgets (fun _ _ => Keyed.find?_of_remove) has
    exact h.shows shows rfl (sturdy.positioned id p) (tabled.moves id p forgotten)
      (Keyed.nodup_keys_put once _)
  | setPlaces table =>
    refine (setPlaces_shows h.present.steadfast table).imp ?_ fun _ u same => same ▸ h
    rintro _ u ⟨ps, read, shows⟩
    have once := nodup_placesOfData read
    have forgotten : s.diagram.Has (tr []) := tabled.forgets (by simp) has
    exact h.shows shows rfl (sturdy.positionedAll ps) (forgotten.positionedAll tabled once) once
  | flush =>
    rw [Call.run, ends_map]
    exact flush_alike.imp (fun _ _ hu => h.alike hu) fun _ _ hu => h.alike hu
  | clear =>
    simp only [Call.run, Session.clear, Debounced.cancel, ends_bind, ends_get, ends_modify, ends_pure]
    refine ⟨⟨h.present.quiet, ⟨Diagram.integral_empty, Diagram.has_empty⟩, Diagram.has_empty,
      List.nodup_nil⟩, ?_⟩
    exact ⟨by simp [History.cleared], by simp [History.cleared]⟩

/-- The states that a session gets to by calls that fit. -/
inductive Reaches (fits : Session → Call → Prop) (s₀ : Session) : Session → Prop
  | start : Reaches fits s₀ s₀
  | call {s : Session} {call : Call} (before : Reaches fits s₀ s) (fit : fits s call) :
    Reaches fits s₀ (call.run.run.run s).2

/-- What a session holds to it holds to wherever it gets. -/
theorem Reaches.holds (tabled : Tabled tr) {fits : Session → Call → Prop} {s₀ : Session}
    (admits : ∀ {s : Session} {call : Call}, s.Holds tr → fits s call → call.Admits tr s)
    (start : s₀.Holds tr) (reached : Reaches fits s₀ s) : s.Holds tr := by
  induction reached with
  | start => exact start
  | call _ fit ih => exact (Call.holds tabled ih (admits ih fit)).state

/-- A session that has only been started holds to any traits. -/
theorem holds_start {limit : Value} {layout : Layout} {s₀ : Session}
    (started : Session.start limit layout = .ok s₀) (receiver : Receiver) :
    Holds tr { s₀ with receiver } := by
  obtain ⟨h, bounded, ⟨⟩⟩ := bind_eq_ok.mp started
  have fresh := History.ofData_fresh bounded
  refine ⟨⟨Editor.quiet_ofDiagram .empty, ⟨Diagram.integral_empty, Diagram.has_empty⟩,
    Diagram.has_empty, List.nodup_nil⟩, ?_, ?_⟩
  · simp [fresh.1]
  · simp [fresh.2]

end Session
end Flowchart
