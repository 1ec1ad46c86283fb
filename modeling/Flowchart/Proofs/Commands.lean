import Flowchart.Editor
import Flowchart.Proofs.Edits

/-! What commands keep. Commands nest, in batches and in what listeners have run, but each of
them is built from a few actions on the editor: an edit that is made and told, a change of
classes, the beginning and end of a batch, and the coming and going of listeners. What all of
these keep, every command keeps. -/
namespace Flowchart.Editor
open Action Progress

/-- The editor after commands. What a command answers, and whether it fails, does not matter for
the next one. -/
def after (e : Editor) (cs : List Command) : Editor :=
  cs.foldl (fun e c => ((run c).run.run e).2) e

/-- How an edit of the editor's diagram begins. -/
def opening (e : Editor) : Progress := { diagram := e.diagram }

/-- The editor when an edit has ended and nobody has been told. -/
def afterEdit (e : Editor) (p : Progress) : Editor :=
  { e with content := { e.content with
      diagram := p.diagram, journal := e.content.journal ++ p.changes } }

@[simp] theorem ends_onBoard {f : Board → Board} {e : Editor} {ok : Unit → Editor → Prop}
    {err : Error → Editor → Prop} :
    Ends (onBoard f) e ok err ↔ ok () { e with content := f e.content } := Iff.rfl

@[simp] theorem ends_enact {α : Type} {edit : Edit α} {e : Editor}
    {ok : Except Error α × Progress → Editor → Prop} {err : Error → Editor → Prop} :
    Ends (enact edit) e ok err ↔
      ok (edit.run.run e.opening) (e.afterEdit (edit.run.run e.opening).2) := Iff.rfl

/-- What the edits that commands make have in common. `fine` says which commands are meant. -/
structure Makes (Q : ∀ α : Type, Edit α → Prop) (fine : Command → Prop) : Prop where
  addNode : ∀ {n}, fine (.addNode n) → Q _ (Edit.addNode n)
  addEdge : ∀ {e}, fine (.addEdge e) → Q _ (Edit.addEdge e)
  addSubgraph : ∀ {g}, fine (.addSubgraph g) → Q _ (Edit.addSubgraph g)
  updateNode : ∀ {id changes}, fine (.updateNode id changes) → Q _ (Edit.updateNode id changes)
  updateEdge : ∀ {id changes}, fine (.updateEdge id changes) → Q _ (Edit.updateEdge id changes)
  updateSubgraph : ∀ {id changes}, fine (.updateSubgraph id changes) →
    Q _ (Edit.updateSubgraph id changes)
  removeNode : ∀ {id}, fine (.removeNode id) → Q _ (Edit.removeNode id)
  removeEdge : ∀ {id}, fine (.removeEdge id) → Q _ (Edit.removeEdge id)
  removeSubgraph : ∀ {id}, fine (.removeSubgraph id) → Q _ (Edit.removeSubgraph id)
  setDirection : ∀ {word}, fine (.setDirection word) → Q _ (Edit.setDirection word)
  clear : fine .clear → Q _ Edit.clear

/-- Changes can be followed through all edits. Diagrams stay integral where `strict` holds: then
a change of several fields names each of them once, and no subgraph is called by the null
value. -/
theorem makes_sound {strict : Prop} {fine : Command → Prop}
    (updateEdge : ∀ {id changes}, fine (.updateEdge id changes) → strict →
      (Keyed.keys changes).Nodup)
    (updateSubgraph : ∀ {id changes}, fine (.updateSubgraph id changes) → strict →
      (Keyed.keys changes).Nodup)
    (addSubgraph : ∀ {g}, fine (.addSubgraph g) → strict → g.id ≠ .null) :
    Makes (fun _ edit => ∀ d, Keeps (Sound strict d) edit) fine where
  addNode _ _ := Edit.addNode_keeps _
  addEdge _ _ := Edit.addEdge_keeps _
  addSubgraph hc _ := Edit.addSubgraph_keeps (addSubgraph hc)
  updateNode _ _ := Edit.updateNode_keeps _ _
  updateEdge hc _ := Edit.updateEdge_keeps _ (updateEdge hc)
  updateSubgraph hc _ := Edit.updateSubgraph_keeps _ (updateSubgraph hc)
  removeNode _ _ := Edit.removeNode_keeps _
  removeEdge _ _ := Edit.removeEdge_keeps _
  removeSubgraph _ _ := Edit.removeSubgraph_keeps _
  setDirection _ _ := Edit.setDirection_keeps _
  clear _ _ := Edit.clear_keeps

/-- What the actions that commands are built from keep, where `Q` is what is known of edits. -/
structure Upholds (P : Editor → Prop) (run : Runner) (Q : ∀ α : Type, Edit α → Prop)
    (fine : Command → Prop) : Prop where
  makes : Makes Q fine
  withBatch : ∀ {steps}, fine (.withBatch steps) → ∀ c ∈ steps, fine c
  perform : ∀ {α : Type} (edit : Edit α), Q α edit → Keeps P (perform run edit)
  define : ∀ {name styles}, fine (.defineClass name styles) →
    Keeps P (enact (Edit.changeClasses (Keyed.put (name, styles))))
  undefine : ∀ name, Keeps P (enact (Edit.changeClasses (Keyed.remove name)))
  begin : Keeps P beginBatch
  finish : Keeps P (endBatch run)
  subscribe : ∀ {name reaction}, fine (.subscribe name reaction) → ∀ e, P e →
    P (e.subscribe name reaction)
  unsubscribe : ∀ {name}, fine (.unsubscribe name) → ∀ e, P e → P (e.unsubscribe name)
  unsubscribeAll : fine .unsubscribeAll → ∀ e, P e → P e.unsubscribeAll

section Obey
variable {P : Editor → Prop} {run : Runner} {Q : ∀ α : Type, Edit α → Prop}
  {fine : Command → Prop}

theorem ask_keeps {α : Type} (f : Diagram → α) : Keeps P (ask f) := fun _ h => h

theorem askOf_keeps {α : Type} (id : Value) (f : Diagram → α) : Keeps P (askOf id f) := by
  intro e h
  rw [askOf, ends_bind, ends_except]
  exact ⟨fun _ _ => h, fun _ _ => h⟩

theorem within_keeps {α : Type} {action : Action Editor α} (h : Upholds P run Q fine)
    (ha : Keeps P action) : Keeps P (within run action) := by
  intro e he
  simp only [within, ends_bind]
  refine (h.begin e he).imp (fun _ t ht => ?_) fun _ _ ht => ht
  rw [ends_lift_run]
  have finished : ∀ (r : Except Error α) s, P s → Ends (endBatch run) s
      (fun _ u => Ends (ExceptT.mk (pure r) : Action Editor α) u (fun _ => P) fun _ => P)
      fun _ => P := by
    intro r s hs
    refine (h.finish s hs).imp (fun _ u hu => ?_) fun _ _ ht => ht
    exact ends_except.mpr ⟨fun _ _ => hu, fun _ _ => hu⟩
  exact (ha t ht).imp (fun x s hs => finished (.ok x) s hs) fun e s hs => finished (.error e) s hs

mutual

theorem obey_keeps (h : Upholds P run Q fine) :
    (c : Command) → fine c → Keeps P (obey run c)
  | .addNode _, hc => keeps_bind
      (keeps_bind (h.perform _ (h.makes.addNode hc)) fun _ _ he => he) fun _ _ he => he
  | .addEdge _, hc => keeps_bind
      (keeps_bind (h.perform _ (h.makes.addEdge hc)) fun _ _ he => he) fun _ _ he => he
  | .addSubgraph _, hc => by
    refine keeps_bind (keeps_bind (h.perform _ (h.makes.addSubgraph hc)) fun _ => ?_)
      fun _ _ he => he
    intro e he
    simp only [ends_bind, ends_get]
    split <;> exact he
  | .updateNode _ _, hc => keeps_bind
      (keeps_bind (h.perform _ (h.makes.updateNode hc)) fun _ _ he => he) fun _ _ he => he
  | .updateEdge _ _, hc => keeps_bind
      (keeps_bind (h.perform _ (h.makes.updateEdge hc)) fun _ _ he => he) fun _ _ he => he
  | .updateSubgraph _ _, hc => keeps_bind
      (keeps_bind (h.perform _ (h.makes.updateSubgraph hc)) fun _ _ he => he) fun _ _ he => he
  | .removeNode _, hc => keeps_bind
      (keeps_bind (h.perform _ (h.makes.removeNode hc)) fun _ _ he => he) fun _ _ he => he
  | .removeEdge _, hc => keeps_bind
      (keeps_bind (h.perform _ (h.makes.removeEdge hc)) fun _ _ he => he) fun _ _ he => he
  | .removeSubgraph _, hc => keeps_bind
      (keeps_bind (h.perform _ (h.makes.removeSubgraph hc)) fun _ _ he => he) fun _ _ he => he
  | .hasNode id, _ => keeps_bind (askOf_keeps id _) fun _ _ he => he
  | .hasEdge id, _ => keeps_bind (askOf_keeps id _) fun _ _ he => he
  | .hasSubgraph id, _ => keeps_bind (askOf_keeps id _) fun _ _ he => he
  | .getNode id, _ => keeps_bind (askOf_keeps id _) fun _ _ he => he
  | .getEdge id, _ => keeps_bind (askOf_keeps id _) fun _ _ he => he
  | .getSubgraph id, _ => keeps_bind (askOf_keeps id _) fun _ _ he => he
  | .edgesAt _, _ => fun _ he => he
  | .defineClass name styles, hc => by
    refine keeps_map (a := defineClass name styles) ?_ _
    exact keeps_bind (h.define hc) fun _ _ he => he
  | .removeClass name, _ => keeps_bind
      (keeps_bind (ask_keeps _) fun _ => keeps_bind (h.undefine name) fun _ _ he => he)
      fun _ _ he => he
  | .getClass _, _ => fun _ he => he
  | .setDirection word, hc => by
    refine keeps_map (a := setDirection run word) ?_ _
    exact keeps_bind (h.perform _ (h.makes.setDirection hc)) fun _ _ he => he
  | .getDirection, _ => fun _ he => he
  | .beginBatch, _ => keeps_map h.begin _
  | .endBatch, _ => keeps_map h.finish _
  | .inBatch, _ => fun _ he => he
  | .withBatch steps, hc => keeps_bind
      (within_keeps h (obeyAll_keeps h steps (h.withBatch hc))) fun _ _ he => he
  | .clear, hc => by
    refine keeps_map (a := clear run) ?_ _
    exact keeps_bind (h.perform _ (h.makes.clear hc)) fun _ _ he => he
  | .nodeCount, _ => fun _ he => he
  | .edgeCount, _ => fun _ he => he
  | .listNodes, _ => fun _ he => he
  | .listEdges, _ => fun _ he => he
  | .listSubgraphs, _ => fun _ he => he
  | .settled, _ => fun _ he => he
  | .write layout, _ => by
    intro e he
    simp only [obey, ends_bind, ends_get, ends_except]
    exact ⟨fun _ _ => he, fun _ _ => he⟩
  | .subscribe _ _, hc => fun e he => h.subscribe hc e he
  | .unsubscribe _, hc => fun e he => h.unsubscribe hc e he
  | .unsubscribeAll, hc => fun e he => h.unsubscribeAll hc e he
  | .listenerCount, _ => fun _ he => he
  | .refuse _, _ => fun _ he => he

theorem obeyAll_keeps (h : Upholds P run Q fine) :
    (cs : List Command) → (∀ c ∈ cs, fine c) → Keeps P (obeyAll run cs)
  | [], _ => fun _ he => he
  | c :: cs, hcs => keeps_bind (obey_keeps h c (hcs c List.mem_cons_self)) fun _ =>
      keeps_bind (obeyAll_keeps h cs fun c' hc' => hcs c' (List.mem_cons_of_mem c hc'))
        fun _ _ he => he

end

theorem replies_keeps (h : ∀ run, (∀ c, fine c → Keeps P (run c)) → Upholds P run Q fine)
    (depth : Nat) (c : Command) (hc : fine c) : Keeps P (replies depth c) := by
  induction depth generalizing c with
  | zero => exact fun _ he => he
  | succ depth ih => exact keeps_bind (obey_keeps (h _ ih) c hc) fun _ _ he => he

theorem run_keeps (h : ∀ run, (∀ c, fine c → Keeps P (run c)) → Upholds P run Q fine)
    {c : Command} (hc : fine c) : Keeps P (Editor.run c) := by
  intro e he
  rw [Editor.run, ends_bind, ends_get]
  exact obey_keeps (h _ (replies_keeps h _)) c hc e he

/-- What single commands keep holds after any number of them. -/
theorem after_keeps (h : ∀ run, (∀ c, fine c → Keeps P (run c)) → Upholds P run Q fine)
    {cs : List Command} (hcs : ∀ c ∈ cs, fine c) {e : Editor} (he : P e) : P (e.after cs) := by
  induction cs generalizing e with
  | nil => exact he
  | cons c cs ih =>
    refine ih (fun c' hc' => hcs c' (List.mem_cons_of_mem c hc')) ?_
    exact (run_keeps h (hcs c List.mem_cons_self) e he).state

end Obey

section Telling
variable {P : Editor → Prop} {run : Runner}

/-- When the first listener has heard of an event, what it has run may come before the others
hear of it. -/
theorem deliver_first {event : Event} (leaves : ∀ e name, P e → P (e.unsubscribe name))
    (acts : ∀ e l c, P e → l ∈ e.known → l.reaction = .act c →
      P (e.spend l.name) ∧ Keeps P (run c))
    {e : Editor} {name : Text} (told : P (e.heard name event)) {names : List Text}
    (rest : Keeps P (Emitter.deliver run event names)) :
    Leaves (Emitter.deliver run event (name :: names)) e P := by
  simp only [Leaves, Emitter.deliver, ends_bind, ends_modify, ends_get]
  split
  · simp only [ends_bind, ends_modify]
    exact rest _ (leaves _ name told)
  · exact told
  · rename_i known command found
    have member := List.mem_of_find?_eq_some found
    have called : known = name := by simpa using List.find?_some found
    obtain ⟨spent, answered⟩ := acts _ _ command told member rfl
    simp only [ends_bind, ends_modify]
    exact (answered _ (called ▸ spent)).imp (fun _ t ht => rest t ht) fun _ _ ht => ht
  · exact rest _ told

/-- An event may reach listeners that have commands run. -/
theorem deliver_keeps {event : Event} (heard : ∀ e name, P e → P (e.heard name event))
    (leaves : ∀ e name, P e → P (e.unsubscribe name))
    (acts : ∀ e l c, P e → l ∈ e.known → l.reaction = .act c →
      P (e.spend l.name) ∧ Keeps P (run c))
    (names : List Text) : Keeps P (Emitter.deliver run event names) := by
  induction names with
  | nil => exact fun _ he => he
  | cons name names ih =>
    exact fun e he => deliver_first leaves acts (heard e name he) ih

theorem publish_keeps (emits : ∀ event, Keeps P (Emitter.emit run event))
    (waits : ∀ e cs, P e → 0 < e.content.depth →
      P { e with content := { e.content with buffered := e.content.buffered ++ cs } })
    (changes : List Change) (grouped : Bool) : Keeps P (publish run changes grouped) := by
  intro e he
  simp only [publish, ends_bind, ends_get]
  split
  · rename_i deep
    exact waits e changes he deep
  · split
    · split
      · exact he
      · exact emits _ e he
    · exact keeps_forM (fun c _ => emits (.single c)) e he

/-- An edit is made and told by what keeps the property at each of these steps. -/
theorem perform_keeps {α : Type} {edit : Edit α}
    (made : ∀ e, P e → P (e.afterEdit (edit.run.run e.opening).2))
    (told : ∀ changes grouped, Keeps P (publish run changes grouped)) :
    Keeps P (perform run edit) := by
  intro e he
  simp only [perform, ends_bind, ends_enact, ends_get]
  refine (told _ _ _ (made e he)).imp (fun _ t ht => ?_) fun _ _ ht => ht
  rw [ends_except]
  exact ⟨fun _ _ => ht, fun _ _ => ht⟩

/-- What is left by an edit through which changes can be followed. -/
theorem made_sound {α : Type} {edit : Edit α} {strict : Prop} {d : Diagram}
    (sound : ∀ d, Keeps (Sound strict d) edit) (distinct : d.Distinct)
    (integral : strict → d.Integral) : Sound strict d (edit.run.run { diagram := d }).2 :=
  (sound d { diagram := d } ⟨distinct, rfl, integral⟩).state

end Telling

section Hosts
variable {D : Diagram → Prop} {fine : Command → Prop}

/-- The diagram has a property, and what listeners have run is among the commands that are
meant. -/
structure Hosts (D : Diagram → Prop) (fine : Command → Prop) (e : Editor) : Prop where
  diagram : D e.diagram
  fine : ∀ l ∈ e.known, ∀ c, l.reaction = .act c → fine c

theorem hosts_ofDiagram {d : Diagram} (h : D d) : Hosts D fine (ofDiagram d) :=
  ⟨h, fun _ hl => absurd hl List.not_mem_nil⟩

theorem emit_keeps_hosts {run : Runner} (h : ∀ c, fine c → Keeps (Hosts D fine) (run c))
    (event : Event) : Keeps (Hosts D fine) (Emitter.emit run event) := by
  intro e he
  simp only [Emitter.emit, ends_bind, ends_get]
  refine deliver_keeps (fun e _ he => ⟨he.diagram, he.fine⟩)
    (fun e _ he => ⟨he.diagram, he.fine⟩) (fun e l c he hl act => ?_) _ e he
  refine ⟨⟨he.diagram, fun k hk c hc => ?_⟩, h c (he.fine l hl c act)⟩
  obtain ⟨k, old, rfl⟩ := List.mem_map.mp hk
  split at hc <;> exact he.fine k old c hc

theorem publish_keeps_hosts {run : Runner} (h : ∀ c, fine c → Keeps (Hosts D fine) (run c))
    (changes : List Change) (grouped : Bool) :
    Keeps (Hosts D fine) (publish run changes grouped) :=
  publish_keeps (emit_keeps_hosts h) (fun _ _ he _ => ⟨he.diagram, he.fine⟩) changes grouped

/-- A property of diagrams that edits keep is kept by commands. -/
theorem upholds_hosts {Q : ∀ α : Type, Edit α → Prop} (makes : Makes Q fine)
    (made : ∀ {α : Type} (edit : Edit α), Q α edit → ∀ d, D d →
      D (edit.run.run { diagram := d }).2.diagram)
    (define : ∀ {name styles}, fine (.defineClass name styles) → ∀ d, D d →
      D { d with classes := Keyed.put (name, styles) d.classes })
    (undefine : ∀ name d, D d → D { d with classes := Keyed.remove name d.classes })
    (withBatch : ∀ {steps}, fine (.withBatch steps) → ∀ c ∈ steps, fine c)
    (acts : ∀ {name c}, fine (.subscribe name (.act c)) → fine c)
    (run : Runner) (h : ∀ c, fine c → Keeps (Hosts D fine) (run c)) :
    Upholds (Hosts D fine) run Q fine where
  makes := makes
  withBatch := withBatch
  perform edit hq := perform_keeps (fun e he => ⟨made edit hq e.diagram he.diagram, he.fine⟩)
    (publish_keeps_hosts h)
  define hc := fun e he => ⟨define hc e.diagram he.diagram, he.fine⟩
  undefine name := fun e he => ⟨undefine name e.diagram he.diagram, he.fine⟩
  begin := fun _ he => ⟨he.diagram, he.fine⟩
  finish := by
    intro e he
    simp only [endBatch, ends_bind, ends_get, ends_onBoard]
    split
    · simp only [ends_bind, ends_onBoard]
      exact emit_keeps_hosts h _ _ ⟨he.diagram, he.fine⟩
    · exact ⟨he.diagram, he.fine⟩
  subscribe {name reaction} hc e he := by
    refine ⟨he.diagram, fun l hl c act => ?_⟩
    simp only [Emitter.subscribe] at hl
    split at hl
    · exact he.fine l hl c act
    · rcases List.mem_append.mp hl with hl | hl
      · exact he.fine l hl c act
      · obtain rfl := List.mem_singleton.mp hl
        obtain rfl : reaction = .act c := act
        exact acts hc
  unsubscribe _ _ he := ⟨he.diagram, he.fine⟩
  unsubscribeAll _ _ he := ⟨he.diagram, he.fine⟩

end Hosts

end Flowchart.Editor
