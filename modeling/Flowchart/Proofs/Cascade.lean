import Flowchart.Proofs.Telling

/-! A node is removed with all that hangs on it: the edges that touch it go, the subgraph that it is
in lists it no more, and nothing else changes. Listeners hear of all of it in one event, with a
change for each of these and no other. -/
namespace Flowchart
open Action Progress Edit

namespace Keyed
variable {α κ : Type} [Keyed α κ] [DecidableEq κ]

/-- Among different keys one entry at most has a key. -/
theorem filter_key {xs : List α} (nodup : (keys xs).Nodup) (k : κ) :
    xs.filter (fun x => key x == k) = (find? k xs).toList := by
  induction xs with
  | nil => rfl
  | cons x xs ih =>
    obtain ⟨fresh, nodup⟩ := List.nodup_cons.mp nodup
    by_cases here : key x = k
    · have none : xs.filter (fun x => key x == k) = [] := by
        refine List.filter_eq_nil_iff.mpr fun y hy same => fresh ?_
        rw [here, ← eq_of_beq same]
        exact mem_keys hy
      simp [find?_cons, here, none]
    · simp [find?_cons, here, ih nodup]

end Keyed

/-- The subgraph with every entry of a node gone from its list. -/
def Subgraph.unlist (x : Value) (g : Subgraph) : Subgraph :=
  { g with members := g.members.filter fun v => v ≠ x }

namespace Diagram

/-- Nothing is held twice, and nodes and subgraphs agree on who is a member of what. -/
structure Agrees (d : Diagram) : Prop where
  distinct : d.Distinct
  membersNodup : ∀ g ∈ d.subgraphs, g.members.Nodup
  members : ∀ g ∈ d.subgraphs, ∀ v,
    v ∈ g.members ↔ ∃ n ∈ d.nodes, n.id = v ∧ n.parent = g.id

theorem Integral.agrees {d : Diagram} (h : d.Integral) : d.Agrees :=
  ⟨h.distinct, h.membersNodup, h.members⟩

/-- The diagram without a node, without the edges that begin or end at it, and with all lists of
members without it. -/
def without (d : Diagram) (x : Value) : Diagram :=
  { d with
    nodes := d.nodes.filter fun n => n.id ≠ x
    edges := d.edges.filter fun e => e.source ≠ x ∧ e.target ≠ x
    subgraphs := d.subgraphs.map (·.unlist x) }

/-- The changes that take away a node: its edges in their order, its place in a subgraph if it has
one, and the node. -/
def cascade (d : Diagram) (n : Node) : List Change :=
  (d.edgesAt n.id).map .edgeRemoved ++
    (d.subgraph? n.parent).toList.map (fun g => .subgraphUpdated g (g.unlist n.id)) ++
    [.nodeRemoved n]

variable {d : Diagram} {n : Node}

theorem Agrees.strike (h : d.Agrees) {g : Subgraph} (hg : g ∈ d.subgraphs) (x : Value) :
    g.strike x = g.unlist x := by
  rw [Subgraph.strike, Subgraph.unlist, (h.membersNodup g hg).erase_eq_filter]
  congr 1
  exact List.filter_congr fun v _ => by simp [bne, beq_eq_decide]

/-- The subgraphs that list a node are the one that it is in, if there is one. -/
theorem Agrees.listing (h : d.Agrees) (hn : n ∈ d.nodes) :
    d.subgraphs.filter (·.lists n.id) = (d.subgraph? n.parent).toList := by
  rw [subgraph?, ← Keyed.filter_key h.distinct.subgraphs]
  refine List.filter_congr fun g hg => ?_
  rw [Bool.eq_iff_iff, Subgraph.lists_iff, h.members g hg, beq_iff_eq]
  constructor
  · rintro ⟨m, hm, same, parent⟩
    rw [← Keyed.eq_of_key_eq h.distinct.nodes hm hn same, parent]
    rfl
  · intro parent
    exact ⟨n, hn, rfl, parent.symm⟩

theorem untouched (distinct : d.Distinct) (x : Value) :
    d.edges.filter (fun e => Keyed.key e ∉ Keyed.keys (d.edgesAt x)) =
      d.edges.filter fun e => e.source ≠ x ∧ e.target ≠ x := by
  refine List.filter_congr fun e he => ?_
  have touched : Keyed.key e ∈ Keyed.keys (d.edgesAt x) ↔ e.source = x ∨ e.target = x := by
    constructor
    · intro mem
      obtain ⟨f, hf, same⟩ := Keyed.exists_of_mem_keys mem
      obtain ⟨hf, touches⟩ := List.mem_filter.mp hf
      rw [← Keyed.eq_of_key_eq distinct.edges hf he same]
      simpa [Edge.touches] using touches
    · intro touches
      exact Keyed.mem_keys (List.mem_filter.mpr ⟨he, by simpa [Edge.touches] using touches⟩)
  exact decide_eq_decide.mpr (by rw [touched, not_or])

end Diagram

namespace Edit
variable {p : Progress} {err : Error → Progress → Prop}

/-- Changes that are made one after the other are told one after the other. -/
theorem changes_ends {α : Type} (f : α → Change) (xs : List α) :
    Ends (xs.forM fun x => change (f x)) p
      (fun _ q => q.changes = p.changes ++ xs.map f ∧ q.grouped = p.grouped) err := by
  induction xs generalizing p with
  | nil => exact ends_pure.mpr ⟨by simp, rfl⟩
  | cons x xs ih =>
    change Ends (change _ >>= fun _ => xs.forM _) p _ err
    rw [ends_bind, ends_change]
    refine ih.imp ?_ fun _ _ => id
    rintro _ q ⟨changes, grouped⟩
    exact ⟨by simp [changes, make], grouped⟩

/-- The edges at a node go, each with its change. -/
theorem untie_ends (distinct : p.diagram.Distinct) (x : Value) :
    Ends ((p.diagram.edgesAt x).forM fun e => change (.edgeRemoved e)) p
      (fun _ q => q = { p with
        diagram := { p.diagram with
          edges := p.diagram.edges.filter fun e => e.source ≠ x ∧ e.target ≠ x }
        changes := p.changes ++ (p.diagram.edgesAt x).map .edgeRemoved })
      fun _ _ => False := by
  have there : ∀ e ∈ p.diagram.edgesAt x, p.diagram.edge? e.id = some e := fun e he =>
    (Keyed.find?_eq_some_iff distinct.edges).mpr ⟨List.mem_of_mem_filter he, rfl⟩
  rw [← Diagram.untouched distinct]
  have once := Keyed.nodup_keys_filter distinct.edges fun e => e.touches x
  refine ((Part.edges.removeAll_ends once distinct there).and (changes_ends _ _)).imp ?_
    fun _ _ (h : False ∧ False) => h.1
  rintro _ ⟨d, changes, grouped⟩ ⟨⟨_, rfl⟩, rfl, rfl⟩
  rfl

/-- A node leaves the subgraph that it is in, with the change of that subgraph. -/
theorem unlist_ends (agrees : p.diagram.Agrees) {n : Node} (hn : n ∈ p.diagram.nodes) :
    Ends (detach n.id) p
      (fun _ q => q = { p with
        diagram := { p.diagram with subgraphs := p.diagram.subgraphs.map (·.unlist n.id) }
        changes := p.changes ++ (p.diagram.subgraph? n.parent).toList.map fun g =>
          .subgraphUpdated g (g.unlist n.id) })
      fun _ _ => False := by
  have told : Ends (detach n.id) p (fun _ q => q.changes = p.changes ++
      (p.diagram.subgraphs.filter (·.lists n.id)).map (fun g =>
        .subgraphUpdated g (g.strike n.id)) ∧ q.grouped = p.grouped) fun _ _ => False := by
    simp only [detach, ends_bind, ends_diagram]
    exact changes_ends _ _
  refine ((detach_ends agrees.distinct).and told).imp ?_ fun _ _ (h : False ∧ False) => h.1
  rintro _ ⟨d, changes, grouped⟩ ⟨⟨_, rfl⟩, rfl, rfl⟩
  have struck : p.diagram.mapSubgraphs (·.strike n.id) =
      p.diagram.mapSubgraphs (·.unlist n.id) :=
    Diagram.mapSubgraphs_congr fun g hg => agrees.strike hg n.id
  rw [struck, agrees.listing hn]
  congr 2
  refine List.map_congr_left fun g hg => ?_
  rw [agrees.strike (Keyed.mem_of_find? (Option.mem_toList.mp hg))]

/-- What the removal of a node leaves of a diagram, and what it tells. -/
theorem removeNode_ends {x : Value} {n : Node} (agrees : p.diagram.Agrees) (simple : x.isSimple)
    (found : p.diagram.node? x = some n) :
    Ends (removeNode x) p
      (fun done q => done = true ∧ q =
        { diagram := p.diagram.without x, changes := p.changes ++ p.diagram.cascade n,
          grouped := true })
      fun _ _ => False := by
  obtain rfl : n.id = x := Keyed.key_of_find? found
  have hn : n ∈ p.diagram.nodes := Keyed.mem_of_find? found
  simp only [removeNode, ends_bind, ends_checkId, simple, if_true, ends_diagram, found, ends_group]
  refine (untie_ends (p := { p with grouped := true }) agrees.distinct n.id).imp ?_ fun _ _ => id
  rintro _ q hq
  have untied : q.diagram.Agrees := by
    rw [hq]
    exact ⟨⟨agrees.distinct.nodes, Keyed.nodup_keys_filter agrees.distinct.edges _,
      agrees.distinct.subgraphs⟩, agrees.membersNodup, agrees.members⟩
  have still : n ∈ q.diagram.nodes := by
    rw [hq]
    exact hn
  refine (unlist_ends untied still).imp ?_ fun _ _ => id
  rintro _ r rfl
  have removed : Keyed.remove n.id p.diagram.nodes = p.diagram.nodes.filter fun m => m.id ≠ n.id :=
    List.filter_congr fun m _ => by simp [bne, beq_eq_decide]
  simp only [hq, ends_change, ends_pure, true_and, make, Diagram.apply, removed, List.append_assoc]
  rw [Diagram.cascade, List.append_assoc]
  rfl

end Edit

namespace Editor
variable {e : Editor} {x : Value} {n : Node}

/-- The removal of a node, outside of batches and by an id that things can be looked up by, takes
away what touches the node and nothing else. Whoever listens hears of it in one event, when all of
it is done, and where everyone only watches the answer is that there was such a node. -/
theorem removal_cascades (agrees : e.diagram.Agrees) (outside : e.content.depth = 0)
    (simple : x.isSimple) (found : e.diagram.node? x = some n) :
    let now : Board := { e.content with
      diagram := e.diagram.without x, journal := e.content.journal ++ e.diagram.cascade n }
    let event : Event := .batch (e.diagram.cascade n)
    (∀ run, (obey run (.removeNode x)).run.run e =
      (Emitter.emit run event >>= fun _ => pure (.truth true)).run.run { e with content := now }) ∧
    (e.IsWatched → (run (.removeNode x)).run.run e = (.ok (.truth true), { e with
      content := now
      delivered := e.delivered ++ e.subscribed.map fun name => (name, event) })) := by
  intro now event
  let removed : Progress :=
    { diagram := e.diagram.without x, changes := e.diagram.cascade n, grouped := true }
  have ended : (Edit.removeNode x).run.run e.opening = (.ok true, removed) :=
    Ends.run_eq (removeNode_ends (p := e.opening) agrees simple found)
  have course : ∀ run, (obey run (.removeNode x)).run.run e =
      (Emitter.emit run event >>= fun _ => pure (.truth true)).run.run
        { e with content := now } := by
    intro run
    have one : removed.event? = some event :=
      event?_grouped rfl (by simp [removed, Diagram.cascade])
    have told := perform_outside (fun x => pure (.truth x.1)) (removeNode_atOnce x) outside run
    simp only [ended, one] at told
    have same : obey run (.removeNode x) = perform run (Edit.removeNode x) >>= fun x =>
        pure (.truth x.1) := by simp [obey, removeNode]
    rw [same, told]
    rfl
  refine ⟨course, fun watched => ?_⟩
  rw [run_state, course]
  have still : IsWatched { e with content := now } := watched
  change (tell _ (some event) >>= fun _ => pure (Answer.truth true)).run.run _ = _
  rw [run_bind, tell_watched still, deliveries_some]
  rfl

/-- A node in a subgraph with another one, an edge from it to itself and two to the other one. -/
def tied : List Command := [
  .addNode (.bare (.text "A")),
  .addNode (.bare (.text "B")),
  .addEdge { id := .text "loop", source := .text "A", target := .text "A" },
  .addEdge { id := .text "first", source := .text "A", target := .text "B" },
  .addEdge { id := .text "other", source := .text "B", target := .text "B" },
  .addEdge { id := .text "second", source := .text "A", target := .text "B" },
  .addSubgraph { id := .text "g", title := .text "g", members := [.text "A", .text "B"] },
  .subscribe "listener" .watch]

theorem tied_removal_cascades :
    let e := (ofDiagram .empty).after tied
    let n : Node := { Node.bare (.text "A") with parent := .text "g" }
    ∃ t, (run (.removeNode (.text "A"))).run.run e = (.ok (.truth true), t) ∧
      t.diagram = e.diagram.without (.text "A") ∧
      t.delivered = e.delivered ++ [("listener".toList, .batch (e.diagram.cascade n))] := by
  intro e n
  have proper : ∀ c ∈ tied, c.IsProper := by
    simp [tied, Command.IsProper, Command.reactsProperly]
  have agrees : e.diagram.Agrees := (integral_after Diagram.integral_empty proper).agrees
  have found : e.diagram.node? (.text "A") = some n := by decide +kernel
  have outside : e.content.depth = 0 := by decide +kernel
  have watched : e.IsWatched := by decide +kernel
  have alone : e.subscribed = ["listener".toList] := by decide +kernel
  clear_value e
  refine ⟨_, (removal_cascades agrees outside (by decide) found).2 watched, rfl, ?_⟩
  rw [alone]
  rfl

end Editor
end Flowchart
