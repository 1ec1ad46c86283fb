import Flowchart.Proofs.Commands

/-! Traits of single entities, and diagrams all of whose entities have them. Edits move nodes and
regroup subgraphs by themselves, which no trait may depend on; so an edit keeps a trait as soon as
the entities and fields that it is given do. -/
namespace Flowchart
open Action

/-- A trait of nodes, of edges, of subgraphs and of the classes of styles. What a node or a
subgraph is in, and what a subgraph lists, does not matter for it. -/
structure Trait where
  node : Node → Prop
  edge : Edge → Prop
  subgraph : Subgraph → Prop
  classes : List StyleClass → Prop := fun _ => True
  moved : ∀ n parent, node n → node { n with parent }
  regrouped : ∀ g members parent, subgraph g → subgraph { g with members, parent }
  unstyled : classes [] := by trivial
  undefined : ∀ cs name, classes cs → classes (Keyed.remove name cs) := by intros; trivial

variable {t : Trait}

/-- All entities of the diagram have the trait. -/
structure Diagram.Has (t : Trait) (d : Diagram) : Prop where
  nodes : ∀ n ∈ d.nodes, t.node n
  edges : ∀ e ∈ d.edges, t.edge e
  subgraphs : ∀ g ∈ d.subgraphs, t.subgraph g
  classes : t.classes d.classes

/-- What the change leaves behind has the trait. -/
def Change.Has (t : Trait) : Change → Prop
  | .nodeAdded n | .nodeUpdated _ n => t.node n
  | .edgeAdded e | .edgeUpdated _ e => t.edge e
  | .subgraphAdded g | .subgraphUpdated _ g => t.subgraph g
  | .nodeRemoved _ | .edgeRemoved _ | .subgraphRemoved _ | .directionChanged .. => True

namespace Diagram

theorem has_empty : Has t .empty :=
  ⟨by simp [empty], by simp [empty], by simp [empty], t.unstyled⟩

theorem Has.apply {d : Diagram} (h : d.Has t) {c : Change} (hc : c.Has t) : (d.apply c).Has t := by
  cases c with
  | nodeAdded n => exact ⟨Keyed.forall_mem_put hc h.nodes, h.edges, h.subgraphs, h.classes⟩
  | nodeUpdated m n => exact ⟨Keyed.forall_mem_put hc h.nodes, h.edges, h.subgraphs, h.classes⟩
  | nodeRemoved n =>
    exact ⟨fun m hm => h.nodes m (List.mem_of_mem_filter hm), h.edges, h.subgraphs, h.classes⟩
  | edgeAdded e => exact ⟨h.nodes, Keyed.forall_mem_put hc h.edges, h.subgraphs, h.classes⟩
  | edgeUpdated f e => exact ⟨h.nodes, Keyed.forall_mem_put hc h.edges, h.subgraphs, h.classes⟩
  | edgeRemoved e =>
    exact ⟨h.nodes, fun f hf => h.edges f (List.mem_of_mem_filter hf), h.subgraphs, h.classes⟩
  | subgraphAdded g => exact ⟨h.nodes, h.edges, Keyed.forall_mem_put hc h.subgraphs, h.classes⟩
  | subgraphUpdated k g => exact ⟨h.nodes, h.edges, Keyed.forall_mem_put hc h.subgraphs, h.classes⟩
  | subgraphRemoved g =>
    exact ⟨h.nodes, h.edges, fun k hk => h.subgraphs k (List.mem_of_mem_filter hk), h.classes⟩
  | directionChanged _ _ => exact ⟨h.nodes, h.edges, h.subgraphs, h.classes⟩

end Diagram

namespace Edit

/-- Changed fields leave a trait to those that have it. -/
def Lets {α : Type} (setters : List (Text × (Value → Except Error (α → α)))) (trait : α → Prop)
    (changes : Fields) : Prop :=
  ∀ set, setAll setters changes = .ok set → ∀ x, trait x → trait (set x)

theorem lets_of {α : Type} {setters : List (Text × (Value → Except Error (α → α)))}
    {trait : α → Prop} {changes : Fields}
    (h : ∀ entry ∈ setters, ∀ v f, (entry.1, v) ∈ changes → entry.2 v = .ok f → ∀ x, trait x →
      trait (f x)) : Lets setters trait changes := by
  intro set hset x hx
  induction changes generalizing set x with
  | nil =>
    cases hset
    exact hx
  | cons c changes ih =>
    have later := fun set hset => ih (fun entry mem v f given =>
      h entry mem v f (List.mem_cons_of_mem c given)) set hset
    obtain ⟨first, rest, hrest, rfl, ⟨entry, mem, here, one⟩ | ⟨_, rfl⟩⟩ := setAll_cons hset
    · have given : (entry.1, c.2) ∈ c :: changes := by
        rw [here]
        exact List.mem_cons_self
      exact later rest hrest (first x) (h entry mem c.2 first given one x hx)
    · exact later rest hrest x hx

/-- The edit keeps the trait in all entities of the diagram. -/
abbrev Spreads (t : Trait) {α : Type} (edit : Edit α) : Prop :=
  Keeps (fun p : Progress => p.diagram.Has t) edit

theorem change_spreads {c : Change} (h : c.Has t) : Spreads t (change c) := fun _ hp => hp.apply h

theorem changes_spread {α : Type} {xs : List α} {f : α → Change} (h : ∀ x ∈ xs, (f x).Has t) :
    Spreads t (xs.forM fun x => change (f x)) :=
  keeps_forM fun x hx => change_spreads (h x hx)

/-! ### Membership -/

theorem detach_spreads (node : Value) : Spreads t (detach node) := by
  intro p h
  simp only [detach, ends_bind, ends_diagram]
  refine changes_spread (fun g hg => ?_) p h
  exact t.regrouped g _ g.parent (h.subgraphs g (List.mem_of_mem_filter hg))

theorem attach_spreads (node id : Value) : Spreads t (attach node id) := by
  intro p h
  simp only [attach, ends_bind, ends_diagram]
  refine (checkId_guards id).pass (fun _ _ => ?_) fun _ => h
  split
  · exact h
  · rename_i g found
    split
    · exact h
    · rename_i silent
      refine change_spreads ?_ p h
      have old := h.subgraphs g (Keyed.mem_of_find? found)
      rw [Subgraph.enlist, if_neg silent]
      exact t.regrouped g _ g.parent old

theorem attachIfAny_spreads (node parent : Value) : Spreads t (attachIfAny node parent) := by
  unfold attachIfAny
  split
  · exact fun _ h => h
  · exact attach_spreads node parent

theorem move_spreads (node parent : Value) : Spreads t (move node parent) := by
  intro p h
  simp only [move, ends_bind, ends_diagram]
  refine (checkId_guards node).pass (fun _ _ => ?_) fun _ => h
  split
  · exact h
  · rename_i n found
    have old := h.nodes n (Keyed.mem_of_find? found)
    simp only [ends_bind]
    refine (detach_spreads node p h).imp (fun _ q hq => ?_) fun _ _ hq => hq
    refine (attachIfAny_spreads node parent q hq).imp (fun _ r hr => ?_) fun _ _ hr => hr
    split
    · exact hr
    · exact hr.apply (c := .nodeUpdated n { n with parent }) (t.moved n parent old)

theorem moves_spread (xs : List Value) (parent : Value) :
    Spreads t (xs.forM fun m => move m parent) :=
  keeps_forM fun m _ => move_spreads m parent

/-! ### Nodes and edges -/

theorem addNode_spreads {n : Node} (new : n.id.isSimple → t.node n) : Spreads t (addNode n) := by
  intro p h
  simp only [addNode, ends_bind, ends_diagram]
  refine (checkId_guards n.id).pass (fun _ simple => ?_) fun _ => h
  refine (check_guards ..).pass (fun _ _ => ?_) fun _ => h
  refine (checkParent_guards n.parent).pass (fun _ _ => ?_) fun _ => h
  have added : (p.diagram.apply (.nodeAdded n)).Has t := h.apply (new simple)
  split
  · exact added
  · simp only [ends_bind, ends_group, ends_change]
    exact (attach_spreads n.id n.parent _ added).imp (fun _ _ hq => hq) fun _ _ hq => hq

theorem updateNode_spreads (id : Value) {changes : Fields}
    (lets : ∀ set, setAll Node.setters changes = .ok set → ∀ n : Node, n.id = id → t.node n →
      t.node (set n)) : Spreads t (updateNode id changes) := by
  intro p h
  simp only [updateNode, ends_bind, ends_diagram]
  refine (checkNames_guards ..).pass (fun _ _ => ?_) fun _ => h
  refine (checkId_guards id).pass (fun _ _ => ?_) fun _ => h
  split
  · exact h
  · rename_i n found
    simp only [ends_bind]
    refine (checkFields_guards ..).pass (fun _ _ => ?_) fun _ => h
    refine (ofExcept_guards _).pass (fun set hset => ?_) fun _ => h
    refine (checkParent_guards _).pass (fun _ _ => ?_) fun _ => h
    have new : t.node (set n) :=
      lets set hset n (Keyed.key_of_find? found) (h.nodes n (Keyed.mem_of_find? found))
    split
    · exact h.apply (c := .nodeUpdated n (set n)) new
    · simp only [ends_bind, ends_group, ends_change, ends_pure]
      refine (detach_spreads id { p with grouped := true } h).imp (fun _ q hq => ?_)
        fun _ _ hq => hq
      refine (attachIfAny_spreads id _ q hq).imp (fun _ r hr => ?_) fun _ _ hr => hr
      exact hr.apply (c := .nodeUpdated n (set n)) new

theorem removeNode_spreads (id : Value) : Spreads t (removeNode id) := by
  intro p h
  simp only [removeNode, ends_bind, ends_diagram]
  refine (checkId_guards id).pass (fun _ _ => ?_) fun _ => h
  split
  · exact h
  · rename_i n _
    simp only [ends_bind, ends_group, ends_change, ends_pure]
    have untied : Spreads t ((p.diagram.edgesAt id).forM fun e => change (.edgeRemoved e)) :=
      changes_spread fun _ _ => trivial
    refine (untied { p with grouped := true } h).imp (fun _ q hq => ?_) fun _ _ hq => hq
    refine (detach_spreads id q hq).imp (fun _ r hr => ?_) fun _ _ hr => hr
    exact hr.apply (c := .nodeRemoved n) trivial

theorem addEdge_spreads {e : Edge}
    (new : ∀ id : Value, id.holds → id.isSimple → (id = e.id ∨ ∃ s, id = .text s) →
      t.edge { e with id }) :
    Spreads t (addEdge e) := by
  intro p h
  simp only [addEdge, ends_bind, ends_diagram]
  refine (checkNode_guards ..).pass (fun _ _ => ?_) fun _ => h
  refine (checkNode_guards ..).pass (fun _ _ => ?_) fun _ => h
  split
  · rename_i given
    simp only [ends_bind]
    refine (checkId_guards e.id).pass (fun _ simple => ?_) fun _ => h
    refine (check_guards ..).pass (fun _ _ => ?_) fun _ => h
    exact h.apply (c := .edgeAdded { e with id := e.id }) (new e.id given simple (Or.inl rfl))
  · simp only [ends_bind]
    refine (ofExcept_guards _).pass (fun id made => ?_) fun _ => h
    have holds := generatedId_holds made
    exact h.apply (c := .edgeAdded { e with id := .text id })
      (new (.text id) holds rfl (Or.inr ⟨id, rfl⟩))

theorem updateEdge_spreads (id : Value) {changes : Fields}
    (lets : Lets Edge.setters t.edge changes) : Spreads t (updateEdge id changes) := by
  intro p h
  simp only [updateEdge, ends_bind, ends_diagram]
  refine (checkNames_guards ..).pass (fun _ _ => ?_) fun _ => h
  refine (checkId_guards id).pass (fun _ _ => ?_) fun _ => h
  split
  · exact h
  · rename_i e found
    simp only [ends_bind]
    refine (checkFields_guards ..).pass (fun _ _ => ?_) fun _ => h
    refine (checkChangedEnd_guards ..).pass (fun _ _ => ?_) fun _ => h
    refine (checkChangedEnd_guards ..).pass (fun _ _ => ?_) fun _ => h
    refine (ofExcept_guards _).pass (fun set hset => ?_) fun _ => h
    have new : t.edge (set e) := lets set hset e (h.edges e (Keyed.mem_of_find? found))
    exact h.apply (c := .edgeUpdated e (set e)) new

theorem removeEdge_spreads (id : Value) : Spreads t (removeEdge id) := by
  intro p h
  simp only [removeEdge, ends_bind, ends_diagram]
  refine (checkId_guards id).pass (fun _ _ => ?_) fun _ => h
  split
  · exact h
  · rename_i e _
    exact h.apply (c := .edgeRemoved e) trivial

theorem splitEdge_spreads {e : Edge} {n : Node} {position : Except Error (Option Position)}
    (node : n.id.isSimple → t.node n)
    (edge : ∀ (id : Value) source target text, id.holds → t.edge {
      id, source, target, text, stroke := e.stroke, sourceTip := e.sourceTip
      targetTip := e.targetTip, length := e.length, style := e.style, classes := e.classes })
    (lets : ∀ p : Position, Lets Node.setters t.node [("position".toList, p.toData)]) :
    Spreads t (splitEdge e n position) := by
  intro p h
  simp only [splitEdge, ends_bind, ends_group]
  refine (addNode_spreads node { p with grouped := true } h).imp (fun m q hq => ?_)
    fun _ _ hq => hq
  refine (addEdge_spreads (fun id holds _ _ => edge id _ _ _ holds) q hq).imp (fun _ r hr => ?_)
    fun _ _ hr => hr
  refine (addEdge_spreads (fun id holds _ _ => edge id _ _ _ holds) r hr).imp (fun _ r hr => ?_)
    fun _ _ hr => hr
  refine (removeEdge_spreads e.id r hr).imp (fun _ r hr => ?_) fun _ _ hr => hr
  refine (ofExcept_guards position).pass (fun place _ => ?_) fun _ => hr
  cases place with
  | none => exact hr
  | some place =>
    simp only [ends_bind, ends_pure]
    exact updateNode_spreads m.id (fun set hset n _ => lets place set hset n) r hr

/-! ### Subgraphs -/

theorem addSubgraph_spreads {g : Subgraph} (new : g.id.isSimple → t.subgraph g) :
    Spreads t (addSubgraph g) := by
  intro p h
  simp only [addSubgraph, ends_bind, ends_diagram]
  refine (checkId_guards g.id).pass (fun _ simple => ?_) fun _ => h
  refine (check_guards ..).pass (fun _ _ => ?_) fun _ => h
  refine (check_guards ..).pass (fun _ _ => ?_) fun _ => h
  refine (checkParent_guards g.parent).pass (fun _ _ => ?_) fun _ => h
  refine (checkMembers_guards g.members).pass (fun _ _ => ?_) fun _ => h
  have added : (p.diagram.apply (.subgraphAdded { g with members := [] })).Has t :=
    h.apply (t.regrouped g [] g.parent (new simple))
  exact moves_spread _ g.id _ added

theorem refill_spreads (id : Value) {others : Fields} {set : Subgraph → Subgraph}
    (lets : ∀ g, t.subgraph g → t.subgraph (set g)) (outgoing incoming : List Value) :
    Spreads t (refill id others set outgoing incoming) := by
  intro p h
  simp only [refill, ends_bind, ends_group, ends_diagram]
  refine (moves_spread outgoing .null { p with grouped := true } h).imp (fun _ q hq => ?_)
    fun _ _ hq => hq
  refine (moves_spread incoming.eraseDups id q hq).imp (fun _ r hr => ?_) fun _ _ hr => hr
  split
  · exact hr
  · rename_i g found
    split
    · exact hr
    · have new : t.subgraph (set g) := lets g (hr.subgraphs g (Keyed.mem_of_find? found))
      exact hr.apply (c := .subgraphUpdated g (set g)) new

theorem updateSubgraph_spreads (id : Value) {changes : Fields}
    (lets : Lets Subgraph.setters t.subgraph
      (changes.filter fun c => c.1 != "node_ids".toList)) :
    Spreads t (updateSubgraph id changes) := by
  intro p h
  simp only [updateSubgraph, ends_bind, ends_diagram]
  refine (checkNames_guards ..).pass (fun _ _ => ?_) fun _ => h
  refine (checkId_guards id).pass (fun _ _ => ?_) fun _ => h
  split
  · exact h
  · rename_i g _
    simp only [ends_bind]
    refine (checkFields_guards ..).pass (fun _ _ => ?_) fun _ => h
    refine (checkNesting_guards ..).pass (fun _ _ => ?_) fun _ => h
    -- whichever members move, the other fields come last
    have fill : ∀ set outgoing incoming,
        setAll Subgraph.setters (changes.filter fun c => c.1 != "node_ids".toList) = .ok set →
        Ends (refill id (changes.filter fun c => c.1 != "node_ids".toList) set outgoing incoming) p
          (fun _ q => q.diagram.Has t) fun _ q => q.diagram.Has t :=
      fun set outgoing incoming hset => refill_spreads id (lets set hset) outgoing incoming p h
    split
    · simp only [ends_bind, ends_pure]
      refine (checkMembers_guards []).pass (fun _ _ => ?_) fun _ => h
      refine (ofExcept_guards _).pass (fun set hset => ?_) fun _ => h
      have := fill set [] [] hset
      simp only [refill, ends_bind] at this
      exact this
    · simp only [ends_bind]
      refine (ofExcept_guards _).pass (fun incoming _ => ?_) fun _ => h
      refine (checkMembers_guards incoming).pass (fun _ _ => ?_) fun _ => h
      refine (ofExcept_guards _).pass (fun set hset => ?_) fun _ => h
      refine (ofExcept_guards _).pass (fun outgoing _ => ?_) fun _ => h
      have := fill set outgoing incoming hset
      simp only [refill, ends_bind] at this
      exact this

theorem removeSubgraph_spreads (id : Value) : Spreads t (removeSubgraph id) := by
  intro p h
  simp only [removeSubgraph, ends_bind, ends_diagram]
  refine (checkId_guards id).pass (fun _ _ => ?_) fun _ => h
  split
  · exact h
  · rename_i g _
    simp only [ends_bind, ends_group, ends_diagram]
    refine (moves_spread g.members g.parent { p with grouped := true } h).imp (fun _ q hq => ?_)
      fun _ _ hq => hq
    have lifted : Spreads t ((q.diagram.subgraphs.filter fun c => c.parent == id).forM fun c =>
        change (.subgraphUpdated c { c with parent := g.parent })) :=
      changes_spread fun c hc => t.regrouped c c.members g.parent
        (hq.subgraphs c (List.mem_of_mem_filter hc))
    refine (lifted q hq).imp (fun _ r hr => ?_) fun _ _ hr => hr
    split
    · exact hr
    · rename_i k _
      exact hr.apply (c := .subgraphRemoved k) trivial

/-! ### The rest -/

theorem setDirection_spreads (given : Value) : Spreads t (setDirection given) := by
  intro p h
  simp only [setDirection, ends_bind]
  refine (ofExcept_guards _).pass (fun direction _ => ?_) fun _ => h
  split
  · rename_i direction _
    simp only [turn, ends_bind, ends_diagram]
    split
    · exact h
    · exact h.apply (c := .directionChanged p.diagram.direction direction) trivial
  · exact h

theorem clear_spreads : Spreads t clear := by
  intro p h
  simp only [clear, ends_bind, ends_group, ends_diagram]
  have gone {α : Type} (xs : List α) (f : α → Change) (hf : ∀ x, (f x).Has t) :
      Spreads t (xs.forM fun x => change (f x)) := changes_spread fun x _ => hf x
  refine (gone _ .edgeRemoved (fun _ => trivial) { p with grouped := true } h).imp
    (fun _ q hq => ?_) fun _ _ hq => hq
  refine (gone _ .subgraphRemoved (fun _ => trivial) q hq).imp (fun _ r hr => ?_) fun _ _ hr => hr
  refine (gone _ .nodeRemoved (fun _ => trivial) r hr).imp (fun _ s hs => ?_) fun _ _ hs => hs
  have cleared : Diagram.Has t { s.diagram with classes := [] } :=
    ⟨hs.nodes, hs.edges, hs.subgraphs, t.unstyled⟩
  simp only [changeClasses, ends_modify, turn, ends_bind, ends_diagram]
  split
  · exact cleared
  · exact cleared.apply (c := .directionChanged s.diagram.direction .tb) trivial

end Edit

namespace Editor

/-- A trait is kept by all edits of commands that give edits nothing without it. -/
theorem makes_spread {fine : Command → Prop}
    (addNode : ∀ {n}, fine (.addNode n) → n.id.isSimple → t.node n)
    (addEdge : ∀ {e}, fine (.addEdge e) → ∀ id : Value, id.holds → id.isSimple →
      t.edge { e with id })
    (addSubgraph : ∀ {g}, fine (.addSubgraph g) → g.id.isSimple → t.subgraph g)
    (updateNode : ∀ {id changes}, fine (.updateNode id changes) →
      Edit.Lets Node.setters t.node changes)
    (updateEdge : ∀ {id changes}, fine (.updateEdge id changes) →
      Edit.Lets Edge.setters t.edge changes)
    (updateSubgraph : ∀ {id changes}, fine (.updateSubgraph id changes) →
      Edit.Lets Subgraph.setters t.subgraph
        (changes.filter fun c => c.1 != "node_ids".toList)) :
    Makes (fun _ edit => Edit.Spreads t edit) fine where
  addNode hc := Edit.addNode_spreads (addNode hc)
  addEdge hc := Edit.addEdge_spreads fun id holds simple _ => addEdge hc id holds simple
  addSubgraph hc := Edit.addSubgraph_spreads (addSubgraph hc)
  updateNode hc := Edit.updateNode_spreads _ fun set hset n _ => updateNode hc set hset n
  updateEdge hc := Edit.updateEdge_spreads _ (updateEdge hc)
  updateSubgraph hc := Edit.updateSubgraph_spreads _ (updateSubgraph hc)
  removeNode _ := Edit.removeNode_spreads _
  removeEdge _ := Edit.removeEdge_spreads _
  removeSubgraph _ := Edit.removeSubgraph_spreads _
  setDirection _ := Edit.setDirection_spreads _
  clear _ := Edit.clear_spreads

/-- What such commands keep in editors, nested commands included. -/
theorem upholds_trait {fine : Command → Prop}
    (makes : Makes (fun _ edit => Edit.Spreads t edit) fine)
    (withBatch : ∀ {steps}, fine (.withBatch steps) → ∀ c ∈ steps, fine c)
    (acts : ∀ {name c}, fine (.subscribe name (.act c)) → fine c)
    (run : Runner) (h : ∀ c, fine c → Keeps (Hosts (Diagram.Has t) fine) (run c))
    (defines : ∀ {name styles}, fine (.defineClass name styles) → ∀ cs, t.classes cs →
      t.classes (Keyed.put (name, styles) cs) := by intros; trivial) :
    Upholds (Hosts (Diagram.Has t) fine) run (fun _ edit => Edit.Spreads t edit) fine :=
  upholds_hosts makes (fun _ spreads d hd => (spreads { diagram := d } hd).state)
    (fun hc d hd => ⟨hd.nodes, hd.edges, hd.subgraphs, defines hc d.classes hd.classes⟩)
    (fun name d hd => ⟨hd.nodes, hd.edges, hd.subgraphs, t.undefined d.classes name hd.classes⟩)
    withBatch acts run h

theorem has_after (makes : Makes (fun _ edit => Edit.Spreads t edit) fun _ => True) {d : Diagram}
    (h : d.Has t) (cs : List Command)
    (defines : ∀ name styles cs, t.classes cs → t.classes (Keyed.put (name, styles) cs) := by
      intros; trivial) : ((ofDiagram d).after cs).diagram.Has t := by
  have upholds := fun run keeps => upholds_trait makes (fun _ _ _ => trivial) (fun _ => trivial) run
    keeps fun _ => defines _ _
  exact (after_keeps upholds (fun c (_ : c ∈ cs) => trivial) (hosts_ofDiagram h)).diagram

end Editor
end Flowchart
