import Flowchart.Proofs.ChangeLog
import Flowchart.Proofs.EditorIntegrity
import Flowchart.Proofs.Traits

/-! Commands that fail change nothing. An edit checks before it changes, and where all names in
the diagram lead somewhere, nothing after the checks can fail. So a failure comes either before
everything else or from a listener; and where no listener fails, nobody hears of a command that
does. -/
namespace Flowchart
open Action Progress

/-- The node can be looked up by its id. -/
def Trait.lookedUp : Trait where
  node n := n.id.isSimple
  edge _ := True
  subgraph _ := True
  moved _ _ h := h
  regrouped _ _ _ _ := trivial

namespace Diagram

/-- Nothing is held twice, and the nodes can be looked up. -/
structure Indexed (d : Diagram) : Prop where
  distinct : d.Distinct
  simple : d.Has .lookedUp

theorem Indexed.canMove {d : Diagram} (h : d.Indexed) {node : Value} (there : d.hasNode node) :
    Edit.CanMove d node := by
  obtain ⟨n, hn, rfl⟩ := hasNode_iff.mp there
  exact ⟨h.simple.nodes n hn, there⟩

/-- The diagram is integral, and its nodes can be looked up. -/
structure Sturdy (d : Diagram) : Prop where
  integral : d.Integral
  simple : d.Has .lookedUp

theorem Sturdy.indexed {d : Diagram} (h : d.Sturdy) : d.Indexed := ⟨h.integral.distinct, h.simple⟩

theorem Sturdy.canMove {d : Diagram} (h : d.Sturdy) {node : Value} (there : d.hasNode node) :
    Edit.CanMove d node := h.indexed.canMove there

theorem Sturdy.canMove_members {d : Diagram} (h : d.Sturdy) {g : Subgraph} (hg : g ∈ d.subgraphs) :
    ∀ m ∈ g.members, Edit.CanMove d m := by
  intro m hm
  obtain ⟨n, hn, rfl, _⟩ := (h.integral.members g hg m).mp hm
  exact h.canMove (hasNode_iff.mpr ⟨n, hn, rfl⟩)

end Diagram

namespace Edit

/-- The edit fails only before it does anything. -/
def Atomic {α : Type} (edit : Edit α) : Prop :=
  ∀ p : Progress, p.diagram.Sturdy → Ends edit p (fun _ _ => True) fun _ q => q = p

section Tails
variable {p : Progress} {err : Error → Progress → Prop}

theorem changes_succeed {α : Type} {f : α → Change} (xs : List α) :
    Ends (xs.forM fun x => change (f x)) p (fun _ _ => True) err := by
  refine (ends_forM (fun _ _ => True) _ (fun _ _ => False) ?_ xs trivial).imp (fun _ _ ht => ht)
    fun _ _ => False.elim
  exact fun _ _ _ _ => trivial

theorem detach_succeeds (node : Value) : Ends (detach node) p (fun _ _ => True) err := by
  simp only [detach, ends_bind, ends_diagram]
  exact changes_succeed _

theorem turn_succeeds (direction : Direction) :
    Ends (turn direction) p (fun _ _ => True) err := by
  simp only [turn, ends_bind, ends_diagram]
  split <;> trivial

theorem moves_succeed {xs : List Value} {parent : Value} (distinct : p.diagram.Distinct)
    (can : CanJoin p.diagram parent) (all : ∀ m ∈ xs, CanMove p.diagram m) :
    Ends (xs.forM fun m => move m parent) p
      (fun _ q => q.diagram.Distinct ∧ q.diagram.nesting = p.diagram.nesting ∧
        ∀ m, CanMove p.diagram m → CanMove q.diagram m) fun _ _ => False := by
  have walk := ends_forM (s := p) (fun ys q => q.diagram.Distinct ∧
      q.diagram.nesting = p.diagram.nesting ∧ (∀ m, CanMove p.diagram m → CanMove q.diagram m) ∧
      ∀ m ∈ ys, CanMove p.diagram m)
    (fun m => move m parent) (fun _ _ => False) ?_ xs ⟨distinct, rfl, fun _ => id, all⟩
  · exact walk.imp (fun _ _ ht => ⟨ht.1, ht.2.1, ht.2.2.1⟩) fun _ _ ht => ht
  · rintro m ys q ⟨distinct, nesting, still, rest⟩
    obtain ⟨simple, there⟩ := still m (rest m List.mem_cons_self)
    refine (move_ends distinct).imp ?_ ?_
    · rintro _ r ⟨leads, n, known, placed⟩
      refine ⟨leads.distinct, ?_, fun k hk => ⟨hk.1, ?_⟩,
        fun k hk => rest k (List.mem_cons_of_mem m hk)⟩
      · rw [placed, Diagram.nesting_place, nesting]
      · rw [placed, Diagram.hasNode, Diagram.nodes_place distinct known]
        refine (Keyed.has_eq_keys (Keyed.keys_map (fun k => ?_) _)).trans (still k hk).2
        split <;> rfl
    · rintro _ r ⟨_, ⟨_, cannot⟩ | cannot⟩
      · exact cannot (still m (rest m List.mem_cons_self))
      · exact cannot (can.congr nesting)

end Tails

/-! ### Nodes and edges -/

theorem addNode_atomic (n : Node) : Atomic (addNode n) := by
  intro p h
  simp only [addNode, ends_bind, ends_diagram]
  refine (checkId_guards n.id).pass (fun _ _ => ?_) fun _ => rfl
  refine (check_guards ..).pass (fun _ _ => ?_) fun _ => rfl
  refine (checkParent_guards n.parent).pass (fun _ can => ?_) fun _ => rfl
  split
  · exact trivial
  · rename_i some_parent
    simp only [ends_bind, ends_group, ends_change, ends_pure, ← attachIfAny_eq some_parent]
    refine (attachIfAny_ends (h.integral.distinct.apply (.nodeAdded n))).imp
      (fun _ _ _ => trivial) ?_
    rintro _ q ⟨_, cannot⟩
    exact absurd can cannot

theorem updateNode_atomic (id : Value) (changes : Fields) : Atomic (updateNode id changes) := by
  intro p h
  simp only [updateNode, ends_bind, ends_diagram]
  refine (checkNames_guards ..).pass (fun _ _ => ?_) fun _ => rfl
  refine (checkId_guards id).pass (fun _ _ => ?_) fun _ => rfl
  split
  · exact trivial
  · rename_i n _
    simp only [ends_bind]
    refine (checkFields_guards ..).pass (fun _ _ => ?_) fun _ => rfl
    refine (ofExcept_guards _).pass (fun set _ => ?_) fun _ => rfl
    refine (checkParent_guards _).pass (fun _ can => ?_) fun _ => rfl
    split
    · exact trivial
    · simp only [ends_bind, ends_group, ends_change, ends_pure]
      have seat := seat_ends (p := { p with grouped := true }) id (set n).parent
        h.integral.distinct
      simp only [ends_bind] at seat
      exact seat.imp (fun _ q hq => hq.imp (fun _ _ _ => trivial) fun _ _ h => absurd can h.2)
        fun _ _ h => absurd can h.2

theorem removeNode_atomic (id : Value) : Atomic (removeNode id) := by
  intro p h
  simp only [removeNode, ends_bind, ends_diagram]
  refine (checkId_guards id).pass (fun _ _ => ?_) fun _ => rfl
  split
  · exact trivial
  · simp only [ends_bind, ends_group, ends_change, ends_pure]
    refine (changes_succeed _).imp (fun _ q _ => ?_) fun _ _ ht => ht
    exact detach_succeeds id

theorem addEdge_atomic (e : Edge) : Atomic (addEdge e) := by
  intro p h
  simp only [addEdge, ends_bind, ends_diagram]
  refine (checkNode_guards ..).pass (fun _ _ => ?_) fun _ => rfl
  refine (checkNode_guards ..).pass (fun _ _ => ?_) fun _ => rfl
  split
  · simp only [ends_bind]
    refine (checkId_guards e.id).pass (fun _ _ => ?_) fun _ => rfl
    exact (check_guards ..).pass (fun _ _ => trivial) fun _ => rfl
  · simp only [ends_bind]
    exact (ofExcept_guards _).pass (fun _ _ => trivial) fun _ => rfl

theorem updateEdge_atomic (id : Value) (changes : Fields) : Atomic (updateEdge id changes) := by
  intro p h
  simp only [updateEdge, ends_bind, ends_diagram]
  refine (checkNames_guards ..).pass (fun _ _ => ?_) fun _ => rfl
  refine (checkId_guards id).pass (fun _ _ => ?_) fun _ => rfl
  split
  · exact trivial
  · simp only [ends_bind]
    refine (checkFields_guards ..).pass (fun _ _ => ?_) fun _ => rfl
    refine (checkChangedEnd_guards ..).pass (fun _ _ => ?_) fun _ => rfl
    refine (checkChangedEnd_guards ..).pass (fun _ _ => ?_) fun _ => rfl
    exact (ofExcept_guards _).pass (fun _ _ => trivial) fun _ => rfl

theorem removeEdge_atomic (id : Value) : Atomic (removeEdge id) := by
  intro p h
  simp only [removeEdge, ends_bind, ends_diagram]
  refine (checkId_guards id).pass (fun _ _ => ?_) fun _ => rfl
  split <;> trivial

/-! ### Subgraphs -/

theorem addSubgraph_ends {p : Progress} (h : p.diagram.Indexed) (g : Subgraph) :
    Ends (addSubgraph g) p (fun _ q => q.diagram.hasSubgraph g.id) fun _ q => q = p := by
  simp only [addSubgraph, ends_bind, ends_diagram]
  refine (checkId_guards g.id).pass (fun _ simple => ?_) fun _ => rfl
  refine (check_guards ..).pass (fun _ _ => ?_) fun _ => rfl
  refine (check_guards ..).pass (fun _ _ => ?_) fun _ => rfl
  refine (checkParent_guards g.parent).pass (fun _ _ => ?_) fun _ => rfl
  refine (checkMembers_guards g.members).pass (fun _ there => ?_) fun _ => rfl
  simp only [ends_group, ends_change]
  have known :
      Diagram.hasSubgraph (p.diagram.apply (.subgraphAdded { g with members := [] })) g.id :=
    Keyed.has_iff.mpr (Keyed.mem_keys_put.mpr (Or.inl rfl))
  have distinct := h.distinct.apply (.subgraphAdded { g with members := [] })
  refine (moves_succeed distinct (fun _ => ⟨simple, known⟩) fun m hm => ?_).imp
    (fun _ q hq => ?_) fun _ _ => False.elim
  · exact h.canMove (there m (List.mem_eraseDups.mp hm))
  · rw [Diagram.hasSubgraph_congr hq.2.1]
    exact known

theorem addSubgraph_atomic (g : Subgraph) : Atomic (addSubgraph g) := fun _ h =>
  (addSubgraph_ends h.indexed g).imp (fun _ _ _ => trivial) fun _ _ ht => ht

/-- The second half of a change of a subgraph does not fail, whatever moves in and out. -/
theorem refill_succeeds {p : Progress} {id : Value} {others : Fields} {set : Subgraph → Subgraph}
    {outgoing incoming : List Value} (distinct : p.diagram.Distinct) (can : CanJoin p.diagram id)
    (out : ∀ m ∈ outgoing, CanMove p.diagram m) (into : ∀ m ∈ incoming, CanMove p.diagram m) :
    Ends (refill id others set outgoing incoming) p (fun _ _ => True) fun _ _ => False := by
  simp only [refill, ends_bind, ends_group, ends_diagram]
  refine (moves_succeed (p := { p with grouped := true }) distinct (fun h => absurd rfl h) out).imp
    ?_ fun _ _ => False.elim
  rintro _ q ⟨distinct, nesting, still⟩
  refine (moves_succeed distinct (can.congr nesting) fun m hm =>
    still m (into m (List.mem_eraseDups.mp hm))).imp ?_ fun _ _ => False.elim
  rintro _ r _
  split
  · exact trivial
  · split <;> trivial

theorem updateSubgraph_atomic (id : Value) (changes : Fields) :
    Atomic (updateSubgraph id changes) := by
  intro p h
  simp only [updateSubgraph, ends_bind, ends_diagram]
  refine (checkNames_guards ..).pass (fun _ _ => ?_) fun _ => rfl
  refine (checkId_guards id).pass (fun _ simple => ?_) fun _ => rfl
  split
  · exact trivial
  · rename_i g found
    simp only [ends_bind]
    refine (checkFields_guards ..).pass (fun _ _ => ?_) fun _ => rfl
    refine (checkNesting_guards ..).pass (fun _ _ => ?_) fun _ => rfl
    -- whichever members move, the rest is the same
    have rest : ∀ set outgoing incoming, (∀ m ∈ outgoing, CanMove p.diagram m) →
        (∀ m ∈ incoming, CanMove p.diagram m) →
        Ends (refill id (changes.filter fun c => c.1 != "node_ids".toList) set outgoing incoming)
          p (fun _ _ => True) fun _ q => q = p := fun set outgoing incoming out into =>
      (refill_succeeds h.integral.distinct (fun _ => ⟨simple, Keyed.has_of_find? found⟩) out into).imp
        (fun _ _ ht => ht) fun _ _ => False.elim
    split
    · simp only [ends_bind, ends_pure]
      refine (checkMembers_guards []).pass (fun _ _ => ?_) fun _ => rfl
      refine (ofExcept_guards _).pass (fun set _ => ?_) fun _ => rfl
      have := rest set [] [] (by simp) (by simp)
      simp only [refill, ends_bind] at this
      exact this
    · simp only [ends_bind]
      refine (ofExcept_guards _).pass (fun incoming _ => ?_) fun _ => rfl
      refine (checkMembers_guards incoming).pass (fun _ there => ?_) fun _ => rfl
      refine (ofExcept_guards _).pass (fun set _ => ?_) fun _ => rfl
      refine (ofExcept_guards _).pass (fun outgoing left => ?_) fun _ => rfl
      have members := h.canMove_members (Keyed.mem_of_find? found)
      have := rest set outgoing incoming (fun m hm => members m (mem_of_filterM left m hm))
        fun m hm => h.canMove (there m hm)
      simp only [refill, ends_bind] at this
      exact this

theorem removeSubgraph_atomic (id : Value) : Atomic (removeSubgraph id) := by
  intro p h
  simp only [removeSubgraph, ends_bind, ends_diagram]
  refine (checkId_guards id).pass (fun _ _ => ?_) fun _ => rfl
  split
  · exact trivial
  · rename_i g found
    simp only [ends_bind, ends_group, ends_diagram]
    have hg : g ∈ p.diagram.subgraphs := Keyed.mem_of_find? found
    have can := h.integral.canJoin (h.integral.subgraphParent g hg)
    refine (moves_succeed (p := { p with grouped := true }) h.integral.distinct can
      (h.canMove_members hg)).imp (fun _ q _ => ?_) fun _ _ => False.elim
    refine (changes_succeed _).imp (fun _ r _ => ?_) fun _ _ ht => ht
    split <;> trivial

/-! ### The rest -/

theorem setDirection_atomic (given : Value) : Atomic (setDirection given) := by
  intro p h
  simp only [setDirection, ends_bind]
  refine (ofExcept_guards _).pass (fun direction _ => ?_) fun _ => rfl
  split
  · exact turn_succeeds _
  · rfl

theorem clear_atomic : Atomic clear := by
  intro p h
  simp only [clear, ends_bind, ends_group, ends_diagram]
  refine (changes_succeed _).imp (fun _ q _ => ?_) fun _ _ ht => ht
  refine (changes_succeed _).imp (fun _ r _ => ?_) fun _ _ ht => ht
  refine (changes_succeed _).imp (fun _ s _ => ?_) fun _ _ ht => ht
  simp only [changeClasses, ends_modify]
  exact turn_succeeds .tb

end Edit

/-- Is it more than one command that the command has carried out? -/
def Command.IsSingle : Command → Prop
  | .withBatch _ => False
  | _ => True

namespace Editor

/-- No listener fails when what an edit of the diagram leaves is told, and at the end the editor
has a property that may speak of the diagram before. -/
def Tells {α : Type} (e : Editor) (edit : Edit α) (so : Diagram → Editor → Prop) : Prop :=
  let p := (edit.run.run e.opening).2
  Ends (publish (replies e.due) p.changes p.grouped) (e.afterEdit p) (fun _ => so p.diagram)
    fun _ _ => False

/-- No listener fails at what the command tells, and none takes away a subgraph that it adds. -/
def Hears (e : Editor) : Command → Prop
  | .addNode n => e.Tells (Edit.addNode n) fun _ _ => True
  | .addEdge f => e.Tells (Edit.addEdge f) fun _ _ => True
  | .addSubgraph g => e.Tells (Edit.addSubgraph g) fun d t =>
    d.hasSubgraph g.id → t.diagram.hasSubgraph g.id
  | .updateNode id changes => e.Tells (Edit.updateNode id changes) fun _ _ => True
  | .updateEdge id changes => e.Tells (Edit.updateEdge id changes) fun _ _ => True
  | .updateSubgraph id changes => e.Tells (Edit.updateSubgraph id changes) fun _ _ => True
  | .removeNode id => e.Tells (Edit.removeNode id) fun _ _ => True
  | .removeEdge id => e.Tells (Edit.removeEdge id) fun _ _ => True
  | .removeSubgraph id => e.Tells (Edit.removeSubgraph id) fun _ _ => True
  | .setDirection word => e.Tells (Edit.setDirection word) fun _ _ => True
  | .clear => e.Tells Edit.clear fun _ _ => True
  | .endBatch => Ends (endBatch (replies e.due)) e (fun _ _ => True) fun _ _ => False
  | _ => True

section Perform
variable {e : Editor} {run : Runner}

theorem publish_nothing (grouped : Bool) {err : Error → Editor → Prop} :
    Ends (publish run [] grouped) e (fun _ t => t = e) err := by
  simp only [publish, ends_bind, ends_get]
  split
  · rw [ends_onBoard, List.append_nil]
  · split <;> rfl

theorem afterEdit_opening (e : Editor) : e.afterEdit e.opening = e := by
  simp only [afterEdit, opening, diagram, List.append_nil]

/-- An edit that changes nothing if it fails is told only if it succeeds. -/
theorem perform_clean {α : Type} {edit : Edit α} (ok : Diagram → Prop)
    {so : Diagram → Editor → Prop}
    (ends : Ends edit e.opening (fun _ q => ok q.diagram)
      fun _ q => q.diagram = e.diagram ∧ q.changes = [])
    (tells : e.Tells edit so) :
    Ends (perform (replies e.due) edit) e (fun _ t => ∃ d, ok d ∧ so d t) fun _ t => t = e := by
  simp only [perform, ends_bind, ends_enact, ends_get]
  unfold Tells at tells
  unfold Ends at ends
  cases result : (edit.run.run e.opening).1 with
  | ok x =>
    simp only [result] at ends
    refine tells.imp (fun _ t ht => ?_) fun _ _ => False.elim
    exact ⟨_, ends, ht⟩
  | error failure =>
    simp only [result] at ends
    obtain ⟨same, nothing⟩ := ends
    have untouched : e.afterEdit (edit.run.run e.opening).2 = e := by
      simp only [afterEdit, same, nothing, diagram, List.append_nil]
    rw [untouched, nothing]
    refine (publish_nothing _).imp (fun _ t ht => ?_) fun _ _ ht => ht
    exact ht

/-- An edit that fails only before it does anything is told only if it succeeds. -/
theorem perform_ends {α : Type} {edit : Edit α} (ok : Diagram → Prop)
    {so : Diagram → Editor → Prop}
    (ends : Ends edit e.opening (fun _ q => ok q.diagram) fun _ q => q = e.opening)
    (tells : e.Tells edit so) :
    Ends (perform (replies e.due) edit) e (fun _ t => ∃ d, ok d ∧ so d t) fun _ t => t = e := by
  refine perform_clean ok (ends.imp (fun _ _ hq => hq) ?_) tells
  rintro _ q rfl
  exact ⟨rfl, rfl⟩

theorem perform_atomic {α : Type} {edit : Edit α} (sturdy : e.diagram.Sturdy)
    (atomic : Edit.Atomic edit) (tells : e.Tells edit fun _ _ => True) :
    Ends (perform (replies e.due) edit) e (fun _ _ => True) fun _ t => t = e :=
  (perform_ends (fun _ => True) (atomic e.opening sturdy) tells).imp (fun _ _ _ => trivial)
    fun _ _ ht => ht

/-- A new subgraph is there, or nothing has happened. -/
theorem obey_addSubgraph (indexed : e.diagram.Indexed) (g : Subgraph)
    (hears : e.Hears (.addSubgraph g)) :
    Ends (obey (replies e.due) (.addSubgraph g)) e (fun _ _ => True) fun _ t => t = e := by
  simp only [obey, addSubgraph, Hears, ends_bind, ends_pure, ends_get] at hears ⊢
  have opened := Edit.addSubgraph_ends (p := e.opening) indexed g
  refine (perform_ends (fun d => d.hasSubgraph g.id) opened hears).imp ?_ fun _ _ ht => ht
  rintro _ t ⟨d, there, so⟩
  obtain ⟨k, found⟩ : ∃ k, t.diagram.subgraph? g.id = some k :=
    Option.isSome_iff_exists.mp (Keyed.isSome_find?.trans (so there))
  simp only [found]
  trivial

/-- A single command fails only before it does anything. -/
theorem run_atomic (sturdy : e.diagram.Sturdy) {c : Command} (single : c.IsSingle)
    (hears : e.Hears c) : Ends (Editor.run c) e (fun _ _ => True) fun _ t => t = e := by
  rw [Editor.run, ends_bind, ends_get]
  cases c with
  | addNode n =>
    simp only [obey, addNode, Hears, ends_bind, ends_pure] at hears ⊢
    exact perform_atomic sturdy (Edit.addNode_atomic n) hears
  | addEdge f =>
    simp only [obey, addEdge, Hears, ends_bind, ends_pure] at hears ⊢
    exact perform_atomic sturdy (Edit.addEdge_atomic f) hears
  | addSubgraph g =>
    exact obey_addSubgraph sturdy.indexed g hears
  | updateNode id changes =>
    simp only [obey, updateNode, Hears, ends_bind, ends_pure] at hears ⊢
    exact perform_atomic sturdy (Edit.updateNode_atomic id changes) hears
  | updateEdge id changes =>
    simp only [obey, updateEdge, Hears, ends_bind, ends_pure] at hears ⊢
    exact perform_atomic sturdy (Edit.updateEdge_atomic id changes) hears
  | updateSubgraph id changes =>
    simp only [obey, updateSubgraph, Hears, ends_bind, ends_pure] at hears ⊢
    exact perform_atomic sturdy (Edit.updateSubgraph_atomic id changes) hears
  | removeNode id =>
    simp only [obey, removeNode, Hears, ends_bind, ends_pure] at hears ⊢
    exact perform_atomic sturdy (Edit.removeNode_atomic id) hears
  | removeEdge id =>
    simp only [obey, removeEdge, Hears, ends_bind, ends_pure] at hears ⊢
    exact perform_atomic sturdy (Edit.removeEdge_atomic id) hears
  | removeSubgraph id =>
    simp only [obey, removeSubgraph, Hears, ends_bind, ends_pure] at hears ⊢
    exact perform_atomic sturdy (Edit.removeSubgraph_atomic id) hears
  | setDirection word =>
    simp only [obey, setDirection, Hears, ends_map, ends_bind, ends_pure] at hears ⊢
    exact perform_atomic sturdy (Edit.setDirection_atomic word) hears
  | clear =>
    simp only [obey, clear, Hears, ends_map, ends_bind, ends_pure] at hears ⊢
    exact perform_atomic sturdy Edit.clear_atomic hears
  | endBatch =>
    simp only [obey, Hears, ends_map] at hears ⊢
    exact hears.imp (fun _ _ ht => ht) fun _ _ => False.elim
  | hasNode id | hasEdge id | hasSubgraph id | getNode id | getEdge id | getSubgraph id =>
    simp only [obey, askOf, ends_bind, ends_except]
    exact ⟨fun _ _ => trivial, fun _ _ => trivial⟩
  | write layout =>
    simp only [obey, ends_bind, ends_get, ends_except]
    exact ⟨fun _ _ => trivial, fun _ _ => trivial⟩
  | withBatch steps => exact single.elim
  | refuse failure => rfl
  | _ => trivial

/-! ### Calm listeners -/

/-- Calm listeners hear of everything, and nothing comes of it but that some leave. -/
theorem deliver_quiet (calm : ∀ l ∈ e.known, l.reaction.IsCalm) (event : Event)
    (names : List Text) :
    Ends (Emitter.deliver run event names) e
      (fun _ t => t.content = e.content ∧ t.known = e.known) fun _ _ => False := by
  induction names generalizing e with
  | nil => exact ⟨rfl, rfl⟩
  | cons name names ih =>
    simp only [Emitter.deliver, ends_bind, ends_modify, ends_get]
    have calm_found : ∀ l, (e.heard name event).listener? name = some l → l.reaction.IsCalm :=
      fun l found => calm l (List.mem_of_find?_eq_some found)
    split
    · simp only [ends_bind, ends_modify]
      exact ih calm
    · rename_i found
      exact (calm_found _ found).elim
    · rename_i found
      exact (calm_found _ found).elim
    · exact ih calm

theorem emit_quiet (calm : ∀ l ∈ e.known, l.reaction.IsCalm) (event : Event) :
    Ends (Emitter.emit run event) e
      (fun _ t => t.content = e.content ∧ t.known = e.known) fun _ _ => False := by
  simp only [Emitter.emit, ends_bind, ends_get]
  exact deliver_quiet calm event _

theorem publish_quiet (calm : ∀ l ∈ e.known, l.reaction.IsCalm) (cs : List Change)
    (grouped : Bool) :
    Ends (publish run cs grouped) e (fun _ t => t.diagram = e.diagram ∧ t.known = e.known)
      fun _ _ => False := by
  simp only [publish, ends_bind, ends_get]
  split
  · exact ⟨rfl, rfl⟩
  · split
    · split
      · exact ⟨rfl, rfl⟩
      · exact (emit_quiet calm _).imp (fun _ _ ht => ⟨congrArg Board.diagram ht.1, ht.2⟩)
          fun _ _ => id
    · have walk := ends_forM (fun _ t => t.content = e.content ∧ t.known = e.known)
        (fun c => Emitter.emit run (.single c)) (fun _ _ => False) ?_ cs ⟨rfl, rfl⟩
      · exact walk.imp (fun _ _ ht => ⟨congrArg Board.diagram ht.1, ht.2⟩) fun _ _ => id
      · rintro c _ t ⟨content, known⟩
        refine (emit_quiet (known ▸ calm) (.single c)).imp ?_ fun _ _ => id
        exact fun _ u hu => ⟨hu.1.trans content, hu.2.trans known⟩

/-- Calm listeners do not fail when an edit is told. -/
theorem tells_of_calm (calm : ∀ l ∈ e.known, l.reaction.IsCalm) {α : Type} (edit : Edit α)
    (so : Diagram → Editor → Prop) (then_so : ∀ d t, t.diagram = d → t.known = e.known → so d t) :
    e.Tells edit so :=
  (publish_quiet (e := e.afterEdit (edit.run.run e.opening).2) calm _ _).imp
    (fun _ t same => then_so _ t same.1 same.2) fun _ _ => id

/-- Calm listeners do not fail at anything. -/
theorem hears_of_calm (calm : ∀ l ∈ e.known, l.reaction.IsCalm) (c : Command) : e.Hears c := by
  cases c with
  | addSubgraph g =>
    refine tells_of_calm calm (Edit.addSubgraph g)
      (fun d t => d.hasSubgraph g.id → t.diagram.hasSubgraph g.id) fun d t same _ there => ?_
    rw [same]
    exact there
  | endBatch =>
    simp only [Hears, endBatch, ends_bind, ends_get, ends_onBoard]
    split
    · simp only [ends_bind, ends_onBoard]
      refine (emit_quiet ?_ _).imp (fun _ _ _ => trivial) fun _ _ => id
      exact calm
    · trivial
  | addNode _ | addEdge _ | updateNode _ _ | updateEdge _ _ | updateSubgraph _ _ | removeNode _
  | removeEdge _ | removeSubgraph _ | setDirection _ | clear =>
    exact tells_of_calm calm _ _ fun _ _ _ _ => trivial
  | _ => trivial

end Perform

theorem sturdy_after {d : Diagram} (h : d.Sturdy) {cs : List Command}
    (proper : ∀ c ∈ cs, c.IsProper) : ((ofDiagram d).after cs).diagram.Sturdy := by
  have lets : ∀ changes, Edit.Lets Node.setters Trait.lookedUp.node changes := by
    intro changes set hset n simple
    have same : (set n).id = n.id := Edit.setAll_spares Edit.spares_node_id hset n
    exact (congrArg Value.isSimple same).trans simple
  have makes : Makes (fun _ edit => Edit.Spreads .lookedUp edit) fun _ => True :=
    makes_spread (fun _ simple => simple) (fun _ _ _ _ => trivial) (fun _ _ => trivial)
      (fun _ => lets _) (fun _ _ _ _ _ => trivial) fun _ _ _ _ _ => trivial
  exact ⟨integral_after h.integral proper, has_after makes h.simple cs⟩

/-- Whatever was done before to a diagram that was empty or was read from a text: a single command
that fails at no listener leaves the whole editor as it was, and no listener hears of it. -/
theorem failure_changes_nothing {d : Diagram}
    (start : d = .empty ∨ ∃ s, Diagram.read s = .ok d) {before : List Command}
    (proper : ∀ c ∈ before, c.IsProper) {c : Command} (single : c.IsSingle)
    (hears : ((ofDiagram d).after before).Hears c) {failure : Error}
    (fails : ((run c).run.run ((ofDiagram d).after before)).1 = .error failure) :
    ((run c).run.run ((ofDiagram d).after before)).2 = (ofDiagram d).after before := by
  have sturdy : d.Sturdy := by
    rcases start with rfl | ⟨s, read⟩
    · exact ⟨Diagram.integral_empty, Diagram.has_empty⟩
    · exact ⟨Diagram.integral_read read, ⟨Diagram.simple_read read, fun _ _ => trivial,
        fun _ _ => trivial, trivial⟩⟩
  have atomic := run_atomic (sturdy_after sturdy proper) single hears
  unfold Ends at atomic
  rw [fails] at atomic
  exact atomic

/-- A node, an empty subgraph, and a listener. -/
def watched : List Command := [
  .addNode (.bare (.text "A")),
  .addSubgraph { id := .text "g", title := .text "g" },
  .subscribe "listener" .watch]

/-- A subgraph is to get two members, and the second of them does not exist. -/
def overfilling : Command :=
  .updateSubgraph (.text "g") [("node_ids", .list [.text "A", .text "B"])]

theorem overfilling_changes_nothing :
    ((run overfilling).run.run ((ofDiagram .empty).after watched)).1 =
        .error (.missingNode .member "B") ∧
      ((run overfilling).run.run ((ofDiagram .empty).after watched)).2 =
        (ofDiagram .empty).after watched := by
  have fails : ((run overfilling).run.run ((ofDiagram .empty).after watched)).1 =
      .error (.missingNode .member "B") := rfl
  have calm : ∀ l ∈ ((ofDiagram .empty).after watched).known, l.reaction.IsCalm := by
    have known : ((ofDiagram .empty).after watched).known =
        [{ name := "listener", reaction := .watch }] := rfl
    rw [known]
    simp [Reaction.IsCalm]
  exact ⟨fails, failure_changes_nothing (Or.inl rfl)
    (by simp [watched, Command.IsProper, Command.reactsProperly]) trivial
    (hears_of_calm calm overfilling) fails⟩

/-- A subgraph that is called by the null value is removed, which puts the subgraph around it into
itself. When that is removed in turn, a third one is left in a subgraph that is not there. -/
def unmoored : List Command := [
  .addNode (.bare (.text "m")),
  .addSubgraph { id := .text "g", title := .text "g" },
  .addSubgraph { id := .text "h", title := .text "h", parent := .text "g", members := [.text "m"] },
  .addSubgraph { id := .null, title := .text "t", parent := .text "g" },
  .removeSubgraph .null,
  .removeSubgraph (.text "g"),
  .subscribe "listener" .watch]

/-- The listener removes a subgraph as soon as it hears of anything. -/
def undoing : List Command := [.subscribe "listener" (.act (.removeSubgraph (.text "g")))]

set_option maxRecDepth 4000 in
/-- No listener fails, and still a command fails after it has changed something and has told it:
where a node would move into a subgraph that is not there, and where a new subgraph is gone before
it can be the answer. -/
theorem failures_leave_traces :
    (let e := (ofDiagram .empty).after unmoored
      let command := Command.removeSubgraph (.text "h")
      e.Hears command ∧ ((run command).run.run e).1 = .error (.lostSubgraph "g") ∧
        (e.diagram.subgraph? (.text "h")).map Subgraph.members = some [.text "m"] ∧
        (((run command).run.run e).2.diagram.subgraph? (.text "h")).map Subgraph.members = some [] ∧
        e.delivered = [] ∧ ((run command).run.run e).2.delivered.length = 1) ∧
    (let e := (ofDiagram .empty).after undoing
      let g : Subgraph := { id := .text "g", title := .text "g" }
      e.Tells (Edit.addSubgraph g) (fun _ _ => True) ∧
        ((run (.addSubgraph g)).run.run e).1 = .error (.lostSubgraph "g") ∧
        e.delivered = [] ∧ ((run (.addSubgraph g)).run.run e).2.delivered.length = 2) :=
  ⟨⟨trivial, rfl, rfl, rfl, rfl, rfl⟩, trivial, rfl, rfl, rfl⟩

end Editor
end Flowchart
