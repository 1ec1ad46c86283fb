import Flowchart.Proofs.Atomicity

/-! How a command is told. An edit makes all of its changes before anyone hears of them, and tells
of them in one event, if there are any: an edit of several changes has them reported as one. What
comes after the event only looks for an answer. -/
namespace Flowchart
open Action Progress

/-! ### Edits that are told at once -/

/-- The changes can be told in one event: they are reported as one, or there are not several. -/
def Progress.AtOnce (p : Progress) : Prop := p.grouped = true ∨ p.changes.length ≤ 1

/-- The one event that tells of the changes, if there are any. -/
def Progress.event? (p : Progress) : Option Event :=
  match p.changes with
  | [] => none
  | c :: _ => some (if p.grouped then .batch p.changes else .single c)

theorem Progress.event?_grouped {p : Progress} (grouped : p.grouped = true)
    (something : p.changes ≠ []) : p.event? = some (.batch p.changes) := by
  unfold event?
  split
  · rename_i none
    exact absurd none something
  · rw [if_pos grouped]

namespace Edit

/-- The edit makes changes that can be told in one event, wherever it stops. -/
def AtOnce {α : Type} (edit : Edit α) : Prop :=
  ∀ p : Progress, p.changes = [] → Ends edit p (fun _ => Progress.AtOnce) fun _ => Progress.AtOnce

theorem looks_diagram : Looks diagram := fun _ => ⟨rfl, trivial⟩

theorem looks_checkId (id : Value) : Looks (checkId id) := .of_guards fun _ => checkId_guards id

theorem looks_check (holds : Bool) (e : Error) : Looks (check holds e) :=
  .of_guards fun _ => check_guards holds e

theorem looks_ofExcept {α : Type} (r : Except Error α) : Looks (ofExcept r) :=
  .of_guards fun _ => ofExcept_guards r

theorem looks_checkParent (parent : Value) : Looks (checkParent parent) :=
  .of_guards fun _ => checkParent_guards parent

/-! What every single change keeps is kept where nodes move from one subgraph to another. -/
section Moving
variable {P : Progress → Prop} (each : ∀ c, Keeps P (change c))
include each

theorem detach_keeps (node : Value) : Keeps P (detach node) :=
  keeps_bind (looks_diagram.keeps _) fun _ => keeps_forM fun _ _ => each _

theorem attach_keeps (node id : Value) : Keeps P (attach node id) := by
  refine keeps_bind ((looks_checkId id).keeps _) fun _ => keeps_bind (looks_diagram.keeps _)
    fun d => ?_
  split
  · exact (looks_throw _).keeps _
  · split
    · exact (looks_pure _).keeps _
    · exact each _

theorem attachIfAny_keeps (node parent : Value) : Keeps P (attachIfAny node parent) := by
  unfold attachIfAny
  split
  · exact (looks_pure _).keeps _
  · exact attach_keeps each node parent

theorem move_keeps (node parent : Value) : Keeps P (move node parent) := by
  refine keeps_bind ((looks_checkId node).keeps _) fun _ => keeps_bind (looks_diagram.keeps _)
    fun d => ?_
  split
  · exact (looks_throw _).keeps _
  · refine keeps_bind (detach_keeps each node) fun _ =>
      keeps_bind (attachIfAny_keeps each node parent) fun _ => ?_
    split
    · exact (looks_pure _).keeps _
    · exact each _

theorem moves_keep (nodes : List Value) (parent : Value) :
    Keeps P (nodes.forM fun m => move m parent) := keeps_forM fun m _ => move_keeps each m parent

end Moving

section Grouped

/-- The changes are reported as one, however many there will be. -/
abbrev Grouped : Progress → Prop := fun p => p.grouped = true

theorem change_grouped (c : Change) : Keeps Grouped (change c) := fun _ h => h

theorem pure_grouped {α : Type} (x : α) : Keeps Grouped (pure x) := fun _ h => h

theorem turn_grouped (direction : Direction) : Keeps Grouped (turn direction) := by
  refine keeps_bind (looks_diagram.keeps _) fun d => ?_
  dsimp only
  split
  · exact pure_grouped _
  · exact change_grouped _

end Grouped

/-! What is checked first is told by nobody, one change is one event, and several changes are
grouped. -/
section Edits
variable {α β : Type}

theorem atOnce_looks {a : Edit α} (h : Looks a) : AtOnce a := fun p none =>
  h.keeps _ p (Or.inr (by simp [none]))

theorem atOnce_after {a : Edit α} {f : α → Edit β} (h : Looks a) (hf : ∀ x, AtOnce (f x)) :
    AtOnce (a >>= f) := by
  intro p none
  rw [ends_bind]
  exact (h p).pass (fun x _ => hf x p none) fun _ => Or.inr (by simp [none])

theorem atOnce_before {a : Edit α} {f : α → Edit β} (h : AtOnce a) (hf : ∀ x, Looks (f x)) :
    AtOnce (a >>= f) := by
  intro p none
  rw [ends_bind]
  exact (h p none).imp (fun x => (hf x).keeps _) fun _ _ => id

theorem atOnce_change (c : Change) : AtOnce (change c) := fun p none =>
  ends_change.mpr (Or.inr (by simp [make, none]))

theorem atOnce_group {edit : Edit α} (h : Keeps Grouped edit) :
    AtOnce (group >>= fun _ => edit) := fun p _ =>
  Leaves.mono (h { p with grouped := true } rfl) fun _ => .inl

theorem addNode_atOnce (n : Node) : AtOnce (addNode n) := by
  refine atOnce_after (looks_checkId _) fun _ => atOnce_after looks_diagram fun d =>
    atOnce_after (looks_check _ _) fun _ => atOnce_after (looks_checkParent _) fun _ => ?_
  split
  · exact atOnce_before (atOnce_change _) fun _ => looks_pure _
  · exact atOnce_group (keeps_bind (change_grouped _) fun _ =>
      keeps_bind (attach_keeps change_grouped _ _) fun _ => pure_grouped _)

theorem updateNode_atOnce (id : Value) (changes : Fields) : AtOnce (updateNode id changes) := by
  refine atOnce_after (looks_check _ _) fun _ => atOnce_after (looks_checkId _) fun _ =>
    atOnce_after looks_diagram fun d => ?_
  split
  · exact atOnce_looks (looks_pure _)
  · refine atOnce_after (.of_guards fun _ => checkFields_guards ..) fun _ =>
      atOnce_after (looks_ofExcept _) fun set => atOnce_after (looks_checkParent _) fun _ => ?_
    split
    · exact atOnce_before (atOnce_change _) fun _ => looks_pure _
    · exact atOnce_group (keeps_bind (detach_keeps change_grouped _) fun _ =>
        keeps_bind (attachIfAny_keeps change_grouped _ _) fun _ =>
        keeps_bind (change_grouped _) fun _ => pure_grouped _)

theorem removeNode_atOnce (id : Value) : AtOnce (removeNode id) := by
  refine atOnce_after (looks_checkId _) fun _ => atOnce_after looks_diagram fun d => ?_
  split
  · exact atOnce_looks (looks_pure _)
  · exact atOnce_group (keeps_bind (keeps_forM fun _ _ => change_grouped _) fun _ =>
      keeps_bind (detach_keeps change_grouped _) fun _ =>
      keeps_bind (change_grouped _) fun _ => pure_grouped _)

theorem addEdge_atOnce (e : Edge) : AtOnce (addEdge e) := by
  refine atOnce_after (.of_guards fun _ => checkNode_guards ..) fun _ =>
    atOnce_after (.of_guards fun _ => checkNode_guards ..) fun _ =>
    atOnce_after looks_diagram fun d => ?_
  dsimp only
  split
  · exact atOnce_after (looks_checkId _) fun _ => atOnce_after (looks_check _ _) fun _ =>
      atOnce_after (looks_pure _) fun _ => atOnce_before (atOnce_change _) fun _ => looks_pure _
  · exact atOnce_after (looks_ofExcept _) fun _ => atOnce_after (looks_pure _) fun _ =>
      atOnce_before (atOnce_change _) fun _ => looks_pure _

theorem updateEdge_atOnce (id : Value) (changes : Fields) : AtOnce (updateEdge id changes) := by
  refine atOnce_after (looks_check _ _) fun _ => atOnce_after (looks_checkId _) fun _ =>
    atOnce_after looks_diagram fun d => ?_
  split
  · exact atOnce_looks (looks_pure _)
  · exact atOnce_after (.of_guards fun _ => checkFields_guards ..) fun _ =>
      atOnce_after (.of_guards fun _ => checkChangedEnd_guards ..) fun _ =>
      atOnce_after (.of_guards fun _ => checkChangedEnd_guards ..) fun _ =>
      atOnce_after (looks_ofExcept _) fun _ =>
      atOnce_before (atOnce_change _) fun _ => looks_pure _

theorem removeEdge_atOnce (id : Value) : AtOnce (removeEdge id) := by
  refine atOnce_after (looks_checkId _) fun _ => atOnce_after looks_diagram fun d => ?_
  split
  · exact atOnce_looks (looks_pure _)
  · exact atOnce_before (atOnce_change _) fun _ => looks_pure _

theorem addSubgraph_atOnce (g : Subgraph) : AtOnce (addSubgraph g) := by
  refine atOnce_after (looks_checkId _) fun _ => atOnce_after looks_diagram fun d =>
    atOnce_after (looks_check _ _) fun _ => atOnce_after (looks_check _ _) fun _ =>
    atOnce_after (looks_checkParent _) fun _ =>
    atOnce_after (.of_guards fun _ => checkMembers_guards _) fun _ => ?_
  exact atOnce_group (keeps_bind (change_grouped _) fun _ => moves_keep change_grouped _ _)

theorem updateSubgraph_atOnce (id : Value) (changes : Fields) :
    AtOnce (updateSubgraph id changes) := by
  -- whichever members move, the rest is grouped
  have rest : ∀ (others : Fields) (set : Subgraph → Subgraph) (outgoing incoming : List Value),
      AtOnce (refill id others set outgoing incoming) := by
    intro others set outgoing incoming
    refine atOnce_group (keeps_bind (moves_keep change_grouped _ _) fun _ =>
      keeps_bind (moves_keep change_grouped _ _) fun _ =>
      keeps_bind (looks_diagram.keeps _) fun d => ?_)
    split
    · exact pure_grouped _
    · split
      · exact pure_grouped _
      · exact keeps_bind (change_grouped _) fun _ => pure_grouped _
  refine atOnce_after (looks_check _ _) fun _ => atOnce_after (looks_checkId _) fun _ =>
    atOnce_after looks_diagram fun d => ?_
  split
  · exact atOnce_looks (looks_pure _)
  · refine atOnce_after (.of_guards fun _ => checkFields_guards ..) fun _ =>
      atOnce_after (.of_guards fun _ => checkNesting_guards ..) fun _ => ?_
    dsimp only
    split
    · exact atOnce_after (looks_pure _) fun incoming =>
        atOnce_after (.of_guards fun _ => checkMembers_guards _) fun _ =>
        atOnce_after (looks_ofExcept _) fun set => atOnce_after (looks_pure _) fun outgoing =>
        rest _ set outgoing incoming
    · exact atOnce_after (looks_ofExcept _) fun incoming =>
        atOnce_after (.of_guards fun _ => checkMembers_guards _) fun _ =>
        atOnce_after (looks_ofExcept _) fun set => atOnce_after (looks_ofExcept _) fun outgoing =>
        rest _ set outgoing incoming

theorem removeSubgraph_atOnce (id : Value) : AtOnce (removeSubgraph id) := by
  refine atOnce_after (looks_checkId _) fun _ => atOnce_after looks_diagram fun d => ?_
  split
  · exact atOnce_looks (looks_pure _)
  · refine atOnce_group (keeps_bind (moves_keep change_grouped _ _) fun _ =>
      keeps_bind (looks_diagram.keeps _) fun _ =>
      keeps_bind (keeps_forM fun _ _ => change_grouped _) fun _ =>
      keeps_bind (looks_diagram.keeps _) fun d => ?_)
    split
    · exact pure_grouped _
    · exact keeps_bind (change_grouped _) fun _ => pure_grouped _

theorem setDirection_atOnce (given : Value) : AtOnce (setDirection given) := by
  refine atOnce_after (looks_ofExcept _) fun word => ?_
  split
  · refine atOnce_after looks_diagram fun d => ?_
    dsimp only
    split
    · exact atOnce_looks (looks_pure _)
    · exact atOnce_change _
  · exact atOnce_looks (looks_throw _)

theorem clear_atOnce : AtOnce clear :=
  atOnce_group (keeps_bind (looks_diagram.keeps _) fun _ =>
    keeps_bind (keeps_forM fun _ _ => change_grouped _) fun _ =>
    keeps_bind (looks_diagram.keeps _) fun _ =>
    keeps_bind (keeps_forM fun _ _ => change_grouped _) fun _ =>
    keeps_bind (looks_diagram.keeps _) fun _ =>
    keeps_bind (keeps_forM fun _ _ => change_grouped _) fun _ =>
    keeps_bind (fun _ h => h) fun _ => turn_grouped _)

end Edits
end Edit

/-- The board when an edit has ended. -/
def Board.afterEdit (b : Board) (p : Progress) : Board :=
  { b with diagram := p.diagram, journal := b.journal ++ p.changes }

namespace Editor
open Edit

theorem makes_atOnce (fine : Command → Prop) : Makes (fun _ edit => AtOnce edit) fine where
  addNode _ := addNode_atOnce _
  addEdge _ := addEdge_atOnce _
  addSubgraph _ := addSubgraph_atOnce _
  updateNode _ := updateNode_atOnce _ _
  updateEdge _ := updateEdge_atOnce _ _
  updateSubgraph _ := updateSubgraph_atOnce _ _
  removeNode _ := removeNode_atOnce _
  removeEdge _ := removeEdge_atOnce _
  removeSubgraph _ := removeSubgraph_atOnce _
  setDirection _ := setDirection_atOnce _
  clear _ := clear_atOnce

theorem Makes.and {Q R : ∀ α : Type, Edit α → Prop} {fine : Command → Prop} (hq : Makes Q fine)
    (hr : Makes R fine) : Makes (fun α edit => Q α edit ∧ R α edit) fine where
  addNode hc := ⟨hq.addNode hc, hr.addNode hc⟩
  addEdge hc := ⟨hq.addEdge hc, hr.addEdge hc⟩
  addSubgraph hc := ⟨hq.addSubgraph hc, hr.addSubgraph hc⟩
  updateNode hc := ⟨hq.updateNode hc, hr.updateNode hc⟩
  updateEdge hc := ⟨hq.updateEdge hc, hr.updateEdge hc⟩
  updateSubgraph hc := ⟨hq.updateSubgraph hc, hr.updateSubgraph hc⟩
  removeNode hc := ⟨hq.removeNode hc, hr.removeNode hc⟩
  removeEdge hc := ⟨hq.removeEdge hc, hr.removeEdge hc⟩
  removeSubgraph hc := ⟨hq.removeSubgraph hc, hr.removeSubgraph hc⟩
  setDirection hc := ⟨hq.setDirection hc, hr.setDirection hc⟩
  clear hc := ⟨hq.clear hc, hr.clear hc⟩

/-! ### The course of a command -/

/-- How a single command goes. `Q` is what is known of edits. -/
inductive Goes (Q : ∀ α : Type, Edit α → Prop) : Command → Prop where
  /-- An edit is made and told, and the answer is looked for. -/
  | edits {c : Command} {α : Type} (edit : Edit α) (answer : α × List Change → Action Editor Answer)
      (known : Q α edit) (looks : ∀ x, Looks (answer x))
      (obeys : ∀ run, obey run c = perform run edit >>= answer) : Goes Q c
  /-- Classes of styles are changed, which nobody is told about. -/
  | styles {c : Command} (f : List StyleClass → List StyleClass) (answer : Diagram → Answer)
      (obeys : ∀ run, obey run c = do
        let x ← ask answer
        let _ ← enact (Edit.changeClasses f)
        return x) : Goes Q c
  /-- It is only looked for an answer. -/
  | looks {c : Command} (a : Action Editor Answer) (looks : Looks a)
      (obeys : ∀ run, obey run c = a) : Goes Q c
  | begins : Goes Q .beginBatch
  | ends : Goes Q .endBatch
  | subscribes (name : Text) (reaction : Reaction Command) : Goes Q (.subscribe name reaction)
  | unsubscribes (name : Text) : Goes Q (.unsubscribe name)
  | empties : Goes Q .unsubscribeAll

theorem looks_ask {α : Type} (f : Diagram → α) : Looks (ask f) :=
  looks_bind looks_get fun _ => looks_pure _

theorem looks_askOf {α : Type} (id : Value) (f : Diagram → α) : Looks (askOf id f) :=
  looks_bind (looks_except _) fun _ => looks_ask f

section Goes
variable {Q : ∀ α : Type, Edit α → Prop} {fine : Command → Prop}

/-- Every command but a block of commands goes in one of these ways. -/
theorem goes (makes : Makes Q fine) {c : Command} (hc : fine c) (single : c.IsSingle) :
    Goes Q c := by
  cases c with
  | addNode n =>
    exact .edits _ (fun x => pure (.node (some (x.1.followed x.2)))) (makes.addNode hc)
      (fun _ => looks_pure _) fun run => by simp [obey, addNode]
  | addEdge e =>
    exact .edits _ (fun x => pure (.edge (some (x.1.followed x.2)))) (makes.addEdge hc)
      (fun _ => looks_pure _) fun run => by simp [obey, addEdge]
  | addSubgraph g =>
    refine .edits _ (fun _ => do
      ((← get).diagram.subgraph? g.id).elim (throw (.lostSubgraph g.id.shown)) fun g =>
        pure (.subgraph (some g))) (makes.addSubgraph hc)
      (fun _ => looks_bind looks_get fun e => ?_) fun run => ?_
    · cases e.diagram.subgraph? g.id with
      | none => exact looks_throw _
      | some g => exact looks_pure _
    · simp only [obey, addSubgraph, bind_assoc]
      refine bind_congr fun _ => bind_congr fun e => ?_
      cases e.diagram.subgraph? g.id <;> rfl
  | updateNode id changes =>
    exact .edits _ (fun x => pure (.node (x.1.map fun n => n.followed x.2))) (makes.updateNode hc)
      (fun _ => looks_pure _) fun run => by simp [obey, updateNode]
  | updateEdge id changes =>
    exact .edits _ (fun x => pure (.edge (x.1.map fun e => e.followed x.2))) (makes.updateEdge hc)
      (fun _ => looks_pure _) fun run => by simp [obey, updateEdge]
  | updateSubgraph id changes =>
    exact .edits _ (fun x => pure (.subgraph (x.1.map fun g => g.followed x.2)))
      (makes.updateSubgraph hc) (fun _ => looks_pure _) fun run => by simp [obey, updateSubgraph]
  | removeNode id =>
    exact .edits _ (fun x => pure (.truth x.1)) (makes.removeNode hc) (fun _ => looks_pure _)
      fun run => by simp [obey, removeNode]
  | removeEdge id =>
    exact .edits _ (fun x => pure (.truth x.1)) (makes.removeEdge hc) (fun _ => looks_pure _)
      fun run => by simp [obey, removeEdge]
  | removeSubgraph id =>
    exact .edits _ (fun x => pure (.truth x.1)) (makes.removeSubgraph hc) (fun _ => looks_pure _)
      fun run => by simp [obey, removeSubgraph]
  | setDirection word =>
    exact .edits _ (fun _ => pure .done) (makes.setDirection hc) (fun _ => looks_pure _)
      fun run => by simp [obey, setDirection]
  | clear =>
    exact .edits _ (fun _ => pure .done) (makes.clear hc) (fun _ => looks_pure _)
      fun run => by simp [obey, clear]
  | defineClass name styles =>
    exact .styles (Keyed.put (name, styles)) (fun _ => .done) fun run => rfl
  | removeClass name =>
    exact .styles (Keyed.remove name) (fun d => .truth (Keyed.has name d.classes)) fun run => by
      simp [obey, removeClass, ask]
  | hasNode id | hasEdge id | hasSubgraph id | getNode id | getEdge id | getSubgraph id =>
    exact .looks _ (looks_bind (looks_askOf _ _) fun _ => looks_pure _) fun run => rfl
  | edgesAt | getClass | getDirection | nodeCount | edgeCount | listNodes | listEdges
  | listSubgraphs | settled =>
    exact .looks _ (looks_bind (looks_ask _) fun _ => looks_pure _) fun run => rfl
  | inBatch | listenerCount =>
    exact .looks _ (looks_bind looks_get fun _ => looks_pure _) fun run => rfl
  | write layout =>
    exact .looks _ (looks_bind (looks_bind looks_get fun _ => looks_except _) fun _ => looks_pure _)
      fun run => rfl
  | refuse e => exact .looks _ (looks_throw e) fun run => rfl
  | beginBatch => exact .begins
  | endBatch => exact .ends
  | subscribe name reaction => exact .subscribes name reaction
  | unsubscribe name => exact .unsubscribes name
  | unsubscribeAll => exact .empties
  | withBatch => exact single.elim

end Goes

/-! ### The moment of telling -/

/-- An event goes out, if there is one. -/
def tell (run : Runner) : Option Event → Action Editor Unit
  | none => pure ()
  | some event => Emitter.emit run event

/-- The call, begun on the one board, has made all of its changes when anyone hears of them.
Whoever listens and whatever they have run, the event goes out from the other board, and after it
the call only looks for its answer. -/
def ToldAt (call : Runner → Action Editor Answer) (before now : Board) (event? : Option Event) :
    Prop :=
  ∃ answer : Action Editor Answer, Looks answer ∧ ∀ (run : Runner) (e : Editor),
    e.content = before →
      (call run).run.run e = (tell run event? >>= fun _ => answer).run.run { e with content := now }

theorem publish_outside {p : Progress} {e : Editor} {run : Runner} (once : p.AtOnce)
    (outside : e.content.depth = 0) :
    (publish run p.changes p.grouped).run.run e = (tell run p.event?).run.run e := by
  change (if e.content.depth > 0 then _ else _ : Action Editor Unit).run.run e = _
  rw [if_neg (Nat.not_lt.mpr (Nat.le_of_eq outside))]
  obtain ⟨d, changes, grouped⟩ := p
  cases changes with
  | nil => cases grouped <;> rfl
  | cons c cs =>
    cases grouped with
    | true => rfl
    | false =>
      -- what is not grouped is one change
      obtain rfl : cs = [] := by simpa [Progress.AtOnce] using once
      simp [event?, tell]

/-- What is still to be done when an edit has been made and told: its result is passed on to the
answer, with all that listeners have changed since. -/
def answered {α : Type} (answer : α × List Change → Action Editor Answer)
    (result : Except Error α) (told : Nat) : Action Editor Answer := do
  let x ← ExceptT.mk (pure result)
  answer (x, (← get).content.journal.drop told)

theorem looks_answered {α : Type} {answer : α × List Change → Action Editor Answer}
    (looks : ∀ x, Looks (answer x)) (result : Except Error α) (told : Nat) :
    Looks (answered answer result told) :=
  looks_bind (looks_except _) fun _ => looks_bind looks_get fun _ => looks _

/-- Outside of batches an edit is told from the board that it leaves, in one event. -/
theorem perform_outside {α : Type} {edit : Edit α}
    (answer : α × List Change → Action Editor Answer) (once : AtOnce edit) {e : Editor}
    (outside : e.content.depth = 0) (run : Runner) :
    let ended := edit.run.run e.opening
    (perform run edit >>= answer).run.run e = (tell run ended.2.event? >>= fun _ =>
      answered answer ended.1 (e.content.journal ++ ended.2.changes).length).run.run
        (e.afterEdit ended.2) := by
  intro ended
  have atOnce : ended.2.AtOnce := (once e.opening rfl).state
  have still : (e.afterEdit ended.2).content.depth = 0 := outside
  calc (perform run edit >>= answer).run.run e
      = (publish run ended.2.changes ended.2.grouped >>= fun _ =>
          answered answer ended.1 (e.content.journal ++ ended.2.changes).length).run.run
            (e.afterEdit ended.2) := by
        simp only [perform, bind_assoc, pure_bind]
        rfl
    _ = _ := by rw [run_bind, run_bind, publish_outside atOnce still]

theorem toldAt_perform {α : Type} {edit : Edit α} {answer : α × List Change → Action Editor Answer}
    (once : AtOnce edit) (looks : ∀ x, Looks (answer x)) {b : Board} (outside : b.depth = 0) :
    ToldAt (fun run => perform run edit >>= answer) b
      (b.afterEdit (edit.run.run { diagram := b.diagram }).2)
      (edit.run.run { diagram := b.diagram }).2.event? := by
  set ended := edit.run.run { diagram := b.diagram }
  refine ⟨answered answer ended.1 (b.journal ++ ended.2.changes).length,
    looks_answered looks _ _, ?_⟩
  rintro run e rfl
  exact perform_outside answer once outside run

theorem run_state (e : Editor) (c : Command) :
    (run c).run.run e = (obey (replies (e.due + weight c)) c).run.run e := by
  rw [run, run_bind]
  rfl

theorem after_single (e : Editor) (c : Command) :
    e.after [c] = ((obey (replies (e.due + weight c)) c).run.run e).2 :=
  congrArg Prod.snd (run_state e c)

section Watched
variable {e : Editor} {run : Runner}

/-- Everyone who is subscribed only watches. -/
def IsWatched (e : Editor) : Prop := ∀ l ∈ e.known, l.name ∈ e.subscribed → l.reaction = .watch

instance : ∀ r : Reaction Command, Decidable (r = .watch)
  | .watch => isTrue rfl
  | .leave | .fail | .act _ => isFalse nofun

instance : Decidable e.IsWatched :=
  inferInstanceAs (Decidable (∀ l ∈ e.known, l.name ∈ e.subscribed → l.reaction = .watch))

theorem deliver_watched {names : List Text}
    (watch : ∀ l ∈ e.known, l.name ∈ names → l.reaction = .watch) (event : Event) :
    Ends (Emitter.deliver run event names) e
      (fun _ t => t = { e with delivered := e.delivered ++ names.map fun name => (name, event) })
      fun _ _ => False := by
  induction names generalizing e with
  | nil =>
    rw [List.map_nil, List.append_nil]
    rfl
  | cons name names ih =>
    simp only [Emitter.deliver, ends_bind, ends_modify, ends_get]
    have found : ∀ l, (e.heard name event).listener? name = some l → l.reaction = .watch := by
      intro l found
      have called : l.name = name := by simpa using List.find?_some found
      exact watch l (List.mem_of_find?_eq_some found) (called ▸ List.mem_cons_self)
    split
    · rename_i leaves
      cases found _ leaves
    · rename_i fails
      cases found _ fails
    · rename_i acts
      cases found _ acts
    · refine (ih (e := e.heard name event) fun l hl called =>
        watch l hl (List.mem_cons_of_mem name called)).imp ?_ fun _ _ => id
      rintro _ t rfl
      simp [Emitter.heard]

/-- The deliveries of an event to listeners, if there is an event. -/
def deliveries (names : List Text) (event? : Option Event) : List (Text × Event) :=
  event?.toList.flatMap fun event => names.map fun name => (name, event)

@[simp] theorem deliveries_none (names : List Text) : deliveries names none = [] := rfl

@[simp] theorem deliveries_some (names : List Text) (event : Event) :
    deliveries names (some event) = names.map fun name => (name, event) := by
  simp [deliveries]

theorem tell_watched (watched : e.IsWatched) (event? : Option Event) :
    (tell run event?).run.run e =
      (.ok (), { e with delivered := e.delivered ++ deliveries e.subscribed event? }) := by
  cases event? with
  | none =>
    rw [deliveries_none, List.append_nil]
    rfl
  | some event =>
    refine Ends.run_eq ?_
    simp only [tell, Emitter.emit, ends_bind, ends_get, deliveries_some]
    exact (deliver_watched watched event).imp (fun _ _ left => ⟨trivial, left⟩) fun _ _ => id

/-- Where everyone only watches, the call leaves the board as they found it. -/
theorem ToldAt.state {call : Runner → Action Editor Answer} {now : Board} {event? : Option Event}
    (told : ToldAt call e.content now event?) (watched : e.IsWatched) :
    ((call run).run.run e).2 =
      { e with content := now, delivered := e.delivered ++ deliveries e.subscribed event? } := by
  obtain ⟨answer, looks, same⟩ := told
  have watched : IsWatched { e with content := now } := watched
  rw [same run e rfl, run_bind, tell_watched watched]
  exact looks.state _

end Watched
end Editor
end Flowchart
