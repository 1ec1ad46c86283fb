import Flowchart.Proofs.Enclosure
import Flowchart.Proofs.Replay

/-! Integrity of diagrams. Membership is told twice, by the node that names its subgraph and by
the subgraph that lists its nodes, and both have to agree. Each lemma below is one way in which
a diagram may change and stay integral; what an edit does half way need not be among them. -/
namespace Flowchart

/-- The subgraph when a node has moved: it lists the node last if the node moved into it, and
not at all otherwise. -/
def Subgraph.seat (node parent : Value) (g : Subgraph) : Subgraph :=
  if g.id = parent ∧ parent ≠ .null then (g.strike node).enlist node else g.strike node

/-- The subgraph when one around it goes: what is directly in that one moves up. -/
def Subgraph.lift (around g : Subgraph) : Subgraph :=
  if g.parent = around.id then { g with parent := around.parent } else g

namespace Subgraph

@[simp] theorem id_lift (around g : Subgraph) : (lift around g).id = g.id := by
  unfold lift
  split <;> rfl

theorem parent_lift_ne {around : Subgraph} (outside : around.parent ≠ around.id) (g : Subgraph) :
    (lift around g).parent ≠ around.id := by
  unfold lift
  split
  · exact outside
  · assumption

@[simp] theorem members_lift (around g : Subgraph) : (lift around g).members = g.members := by
  unfold lift
  split <;> rfl

@[simp] theorem id_strike (g : Subgraph) (node : Value) : (g.strike node).id = g.id := rfl

@[simp] theorem parent_strike (g : Subgraph) (node : Value) :
    (g.strike node).parent = g.parent := rfl

@[simp] theorem id_enlist (g : Subgraph) (node : Value) : (g.enlist node).id = g.id := by
  unfold enlist
  split <;> rfl

@[simp] theorem parent_enlist (g : Subgraph) (node : Value) :
    (g.enlist node).parent = g.parent := by
  unfold enlist
  split <;> rfl

@[simp] theorem id_seat (g : Subgraph) (node parent : Value) :
    (g.seat node parent).id = g.id := by
  unfold seat
  split <;> simp

@[simp] theorem parent_seat (g : Subgraph) (node parent : Value) :
    (g.seat node parent).parent = g.parent := by
  unfold seat
  split <;> simp

theorem lists_iff {g : Subgraph} {node : Value} : g.lists node = true ↔ node ∈ g.members := by
  simp [lists]

theorem strike_eq_self {g : Subgraph} {node : Value} (h : node ∉ g.members) :
    g.strike node = g := by
  simp [strike, List.erase_of_not_mem h]

theorem mem_strike {g : Subgraph} (nodup : g.members.Nodup) {node v : Value} :
    v ∈ (g.strike node).members ↔ v ≠ node ∧ v ∈ g.members :=
  nodup.mem_erase_iff

theorem enlist_strike {g : Subgraph} (nodup : g.members.Nodup) (node : Value) :
    (g.strike node).enlist node =
      { g with members := g.members.erase node ++ [node] } := by
  have gone : node ∉ (g.strike node).members := fun h => ((mem_strike nodup).mp h).1 rfl
  have silent : (g.strike node).lists node = false := by
    rw [← Bool.not_eq_true, lists_iff]
    exact gone
  rw [enlist, if_neg (by simp [silent])]
  rfl

theorem nodup_seat {g : Subgraph} (nodup : g.members.Nodup) (node parent : Value) :
    (g.seat node parent).members.Nodup := by
  unfold seat
  split
  · rw [enlist_strike nodup]
    refine List.nodup_append.mpr ⟨nodup.erase node, List.nodup_singleton node, ?_⟩
    intro v hv w hw
    rw [List.mem_singleton.mp hw]
    exact (nodup.mem_erase_iff.mp hv).1
  · exact nodup.erase node

theorem mem_seat {g : Subgraph} (nodup : g.members.Nodup) {node parent v : Value} :
    v ∈ (g.seat node parent).members ↔
      (v = node ∧ g.id = parent ∧ parent ≠ .null) ∨ (v ≠ node ∧ v ∈ g.members) := by
  unfold seat
  split
  · rename_i here
    rw [enlist_strike nodup, List.mem_append, List.mem_singleton, nodup.mem_erase_iff]
    tauto
  · rename_i elsewhere
    rw [mem_strike nodup]
    tauto

end Subgraph

/-- References of a diagram lead somewhere, parents never cycle, and nodes and subgraphs agree
on who is a member of what. Every entity is found under its own id, since ids are distinct. -/
structure Diagram.Integral (d : Diagram) : Prop where
  distinct : d.Distinct
  source : ∀ e ∈ d.edges, d.hasNode e.source
  target : ∀ e ∈ d.edges, d.hasNode e.target
  nodeParent : ∀ n ∈ d.nodes, n.parent ≠ .null → d.hasSubgraph n.parent
  subgraphParent : ∀ g ∈ d.subgraphs, g.parent ≠ .null → d.hasSubgraph g.parent
  acyclic : d.Acyclic
  membersNodup : ∀ g ∈ d.subgraphs, g.members.Nodup
  members : ∀ g ∈ d.subgraphs, ∀ v,
    v ∈ g.members ↔ ∃ n ∈ d.nodes, n.id = v ∧ n.parent = g.id
  /-- The null value is no id of a subgraph, since as a parent it stands for none. -/
  named : ∀ g ∈ d.subgraphs, g.id ≠ .null
  simple : ∀ g ∈ d.subgraphs, g.id.isSimple

/-- A node comes back from plain data as it went, but for its shape. -/
theorem Node.settle_rest (n : Node) :
    Diagram.settleNode n = { n with shape := (Diagram.settleNode n).shape } := by
  unfold Diagram.settleNode
  split <;> rfl

namespace Diagram

theorem hasNode_iff {d : Diagram} {id : Value} : d.hasNode id = true ↔ ∃ n ∈ d.nodes, n.id = id :=
  Keyed.has_iff.trans List.mem_map

theorem hasSubgraph_iff {d : Diagram} {id : Value} :
    d.hasSubgraph id = true ↔ ∃ g ∈ d.subgraphs, g.id = id :=
  Keyed.has_iff.trans List.mem_map

theorem integral_empty : Integral .empty where
  distinct := distinct_empty
  source := by simp [empty]
  target := by simp [empty]
  nodeParent := by simp [empty]
  subgraphParent := by simp [empty]
  acyclic := by
    intro v cycle
    obtain ⟨w, ⟨g, found, _⟩, _⟩ := Relation.TransGen.head'_iff.mp cycle
    simp [subgraph?, empty] at found
  membersNodup := by simp [empty]
  members := by simp [empty]
  named := by simp [empty]
  simple := by simp [empty]

/-- The diagram with all its subgraphs changed. -/
def mapSubgraphs (d : Diagram) (f : Subgraph → Subgraph) : Diagram :=
  { d with subgraphs := d.subgraphs.map f }

section Maps
variable {d : Diagram} {f : Subgraph → Subgraph}

@[simp] theorem nodes_mapSubgraphs : (d.mapSubgraphs f).nodes = d.nodes := rfl

@[simp] theorem edges_mapSubgraphs : (d.mapSubgraphs f).edges = d.edges := rfl

@[simp] theorem subgraphs_mapSubgraphs :
    (d.mapSubgraphs f).subgraphs = d.subgraphs.map f := rfl

theorem mapSubgraphs_congr {f' : Subgraph → Subgraph} (h : ∀ g ∈ d.subgraphs, f g = f' g) :
    d.mapSubgraphs f = d.mapSubgraphs f' := by
  rw [mapSubgraphs, List.map_congr_left h]
  rfl

theorem mapSubgraphs_self (h : ∀ g ∈ d.subgraphs, f g = g) : d.mapSubgraphs f = d := by
  rw [mapSubgraphs, List.map_congr_left h, List.map_id']

theorem mapSubgraphs_mapSubgraphs (f' : Subgraph → Subgraph) :
    (d.mapSubgraphs f).mapSubgraphs f' = d.mapSubgraphs fun g => f' (f g) := by
  simp [mapSubgraphs]

theorem subgraph?_mapSubgraphs (id_f : ∀ g, (f g).id = g.id) (id : Value) :
    (d.mapSubgraphs f).subgraph? id = (d.subgraph? id).map f :=
  Keyed.find?_map id_f id d.subgraphs

theorem keys_mapSubgraphs (id_f : ∀ g, (f g).id = g.id) :
    Keyed.keys (d.mapSubgraphs f).subgraphs = Keyed.keys d.subgraphs :=
  Keyed.keys_map id_f d.subgraphs

theorem hasSubgraph_mapSubgraphs (id_f : ∀ g, (f g).id = g.id) (id : Value) :
    (d.mapSubgraphs f).hasSubgraph id = d.hasSubgraph id :=
  Keyed.has_eq_keys (keys_mapSubgraphs id_f)

/-- Changes of subgraphs that leave ids and parents alone leave the enclosure alone. -/
theorem Acyclic.map (h : d.Acyclic) (id_f : ∀ g, (f g).id = g.id)
    (parent_f : ∀ g, (f g).parent = g.parent) : (d.mapSubgraphs f).Acyclic := by
  refine h.mono fun a b ⟨g, found, parent, some_parent⟩ => ?_
  rw [subgraph?_mapSubgraphs id_f] at found
  obtain ⟨g', found', rfl⟩ := Option.map_eq_some_iff.mp found
  exact .single ⟨g', found', (parent_f g').symm.trans parent, some_parent⟩

end Maps

/-- The diagram with a node set, at the end of its subgraph's list. -/
def place (d : Diagram) (n : Node) : Diagram :=
  { d.mapSubgraphs (Subgraph.seat n.id n.parent) with nodes := Keyed.put n d.nodes }

/-- A node that nobody lists is placed by listing it. -/
theorem place_unlisted {d : Diagram} {n : Node} (unlisted : ∀ g ∈ d.subgraphs, n.id ∉ g.members) :
    d.place n = mapSubgraphs { d with nodes := Keyed.put n d.nodes } fun g =>
      if g.id = n.parent ∧ n.parent ≠ .null then g.enlist n.id else g := by
  rw [place]
  congr 1
  refine List.map_congr_left fun g hg => ?_
  rw [Subgraph.seat, Subgraph.strike_eq_self (unlisted g hg)]

/-- A subgraph that lists one more node keeps its place among the others. -/
theorem put_enlist {d : Diagram} (distinct : d.Distinct) {id : Value} {g : Subgraph}
    (there : d.subgraph? id = some g) (node : Value) :
    { d with subgraphs := Keyed.put (g.enlist node) d.subgraphs } =
      d.mapSubgraphs fun k => if k.id = id then k.enlist node else k := by
  have put := Keyed.put_change (f := fun k => k.enlist node) distinct.subgraphs there
    (Subgraph.id_enlist g node)
  rw [put]
  rfl

theorem mem_edgeIds {d : Diagram} {t : Text} : t ∈ d.edgeIds ↔ .text t ∈ Keyed.keys d.edges := by
  simp only [edgeIds, List.mem_filterMap, Keyed.keys, List.mem_map, Edge.key_eq]
  refine exists_congr fun e => and_congr_right fun _ => ?_
  cases e.id <;> simp [Value.text?]

@[simp] theorem nesting_place (d : Diagram) (n : Node) : (d.place n).nesting = d.nesting := by
  simp [nesting, place]

/-- A node that is there already keeps its place among the nodes. -/
theorem nodes_place {d : Diagram} (distinct : d.Distinct) {id : Value} {n : Node}
    (there : d.node? id = some n) (parent : Value) :
    (d.place { n with parent }).nodes =
      d.nodes.map fun m => if m.id = id then { m with parent } else m := by
  have hn : n ∈ d.nodes := Keyed.mem_of_find? there
  obtain rfl : n.id = id := Keyed.key_of_find? there
  have known : Keyed.key { n with parent } ∈ Keyed.keys d.nodes := (Keyed.mem_keys hn : n.id ∈ _)
  refine (Keyed.put_eq_map distinct.nodes known).trans (List.map_congr_left fun m hm => ?_)
  simp only [Node.key_eq]
  split
  · rename_i same
    rw [Keyed.eq_of_key_eq distinct.nodes hm hn same]
  · rfl

end Diagram

namespace Diagram.Integral
variable {d : Diagram}

theorem parent_ne_self (h : d.Integral) {g : Subgraph} (hg : g ∈ d.subgraphs) :
    g.parent ≠ g.id := by
  intro self
  have here := (Keyed.find?_eq_some_iff h.distinct.subgraphs).mpr ⟨hg, rfl⟩
  exact h.acyclic g.id (.single ⟨g, here, self, h.named g hg⟩)

/-- Nobody lists a node that is in no subgraph. -/
theorem unlisted (h : d.Integral) {v : Value} (free : ∀ n ∈ d.nodes, n.id = v → n.parent = .null) :
    ∀ g ∈ d.subgraphs, v ∉ g.members := by
  intro g hg listed
  obtain ⟨n, hn, same, inside⟩ := (h.members g hg v).mp listed
  exact h.named g hg (inside.symm.trans (free n hn same))

theorem place (h : d.Integral) {n : Node} (parent : n.parent ≠ .null → d.hasSubgraph n.parent) :
    (d.place n).Integral where
  distinct := {
    nodes := Keyed.nodup_keys_put h.distinct.nodes n
    edges := h.distinct.edges
    subgraphs := (keys_mapSubgraphs fun g => g.id_seat ..).symm ▸ h.distinct.subgraphs }
  source := by
    intro e he
    exact Keyed.has_iff.mpr (Keyed.mem_keys_put.mpr (Or.inr (Keyed.has_iff.mp (h.source e he))))
  target := by
    intro e he
    exact Keyed.has_iff.mpr (Keyed.mem_keys_put.mpr (Or.inr (Keyed.has_iff.mp (h.target e he))))
  nodeParent := by
    intro m hm some_parent
    refine (hasSubgraph_mapSubgraphs (fun g => g.id_seat ..) _).trans ?_
    rcases Keyed.mem_put hm with rfl | hm
    · exact parent some_parent
    · exact h.nodeParent m hm some_parent
  subgraphParent := by
    intro g hg some_parent
    obtain ⟨g', hg', rfl⟩ := List.mem_map.mp hg
    rw [Subgraph.parent_seat] at some_parent ⊢
    exact (hasSubgraph_mapSubgraphs (fun g => g.id_seat ..) _).trans
      (h.subgraphParent g' hg' some_parent)
  acyclic := h.acyclic.map (fun g => g.id_seat ..) fun g => g.parent_seat ..
  membersNodup := by
    intro g hg
    obtain ⟨g', hg', rfl⟩ := List.mem_map.mp hg
    exact Subgraph.nodup_seat (h.membersNodup g' hg') ..
  members := by
    intro g hg v
    obtain ⟨g', hg', rfl⟩ := List.mem_map.mp hg
    rw [Subgraph.mem_seat (h.membersNodup g' hg'), Subgraph.id_seat, h.members g' hg']
    simp only [Diagram.place, Keyed.mem_put_iff h.distinct.nodes]
    constructor
    · rintro (⟨rfl, here, _⟩ | ⟨other, m, hm, rfl, member⟩)
      · exact ⟨n, Or.inl rfl, rfl, here.symm⟩
      · exact ⟨m, Or.inr ⟨hm, other⟩, rfl, member⟩
    · rintro ⟨m, rfl | ⟨hm, other⟩, rfl, member⟩
      · exact Or.inl ⟨rfl, member.symm, member ▸ h.named g' hg'⟩
      · exact Or.inr ⟨other, m, hm, rfl, member⟩
  named := by
    intro g hg
    obtain ⟨g', hg', rfl⟩ := List.mem_map.mp hg
    rw [Subgraph.id_seat]
    exact h.named g' hg'
  simple := by
    intro g hg
    obtain ⟨g', hg', rfl⟩ := List.mem_map.mp hg
    rw [Subgraph.id_seat]
    exact h.simple g' hg'

/-- A node that stays where it is may change otherwise. -/
theorem putNode (h : d.Integral) {n m : Node} (there : d.node? n.id = some m)
    (stays : n.parent = m.parent) :
    Integral { d with nodes := Keyed.put n d.nodes } where
  distinct := ⟨Keyed.nodup_keys_put h.distinct.nodes n, h.distinct.edges, h.distinct.subgraphs⟩
  source := by
    intro e he
    exact Keyed.has_iff.mpr (Keyed.mem_keys_put.mpr (Or.inr (Keyed.has_iff.mp (h.source e he))))
  target := by
    intro e he
    exact Keyed.has_iff.mpr (Keyed.mem_keys_put.mpr (Or.inr (Keyed.has_iff.mp (h.target e he))))
  nodeParent := by
    intro k hk some_parent
    rcases Keyed.mem_put hk with rfl | hk
    · rw [stays] at some_parent ⊢
      exact h.nodeParent m (Keyed.mem_of_find? there) some_parent
    · exact h.nodeParent k hk some_parent
  subgraphParent := h.subgraphParent
  acyclic := h.acyclic
  membersNodup := h.membersNodup
  members := by
    intro g hg v
    have hm : m ∈ d.nodes := Keyed.mem_of_find? there
    have same : m.id = n.id := Keyed.key_of_find? there
    rw [h.members g hg]
    simp only [Keyed.mem_put_iff h.distinct.nodes]
    constructor
    · rintro ⟨k, hk, rfl, member⟩
      by_cases hkn : k.id = n.id
      · have : k = m := Keyed.eq_of_key_eq h.distinct.nodes hk hm (hkn.trans same.symm)
        exact ⟨n, Or.inl rfl, hkn.symm, by rw [stays, ← this, member]⟩
      · exact ⟨k, Or.inr ⟨hk, hkn⟩, rfl, member⟩
    · rintro ⟨k, rfl | ⟨hk, _⟩, rfl, member⟩
      · exact ⟨m, hm, same, stays ▸ member⟩
      · exact ⟨k, hk, rfl, member⟩
  named := h.named
  simple := h.simple

/-- A node that no edge touches may go. -/
theorem dropNode (h : d.Integral) {id : Value} (free : d.edgesAt id = []) :
    Integral { d.mapSubgraphs (·.strike id) with nodes := Keyed.remove id d.nodes } where
  distinct := {
    nodes := Keyed.nodup_keys_remove h.distinct.nodes id
    edges := h.distinct.edges
    subgraphs := (keys_mapSubgraphs fun g => g.id_strike id).symm ▸ h.distinct.subgraphs }
  source := by
    intro e he
    have untouched := List.filter_eq_nil_iff.mp free e he
    have other : e.source ≠ id := by
      intro here
      simp [Edge.touches, here] at untouched
    have := Keyed.has_iff.mp (h.source e he)
    refine Keyed.has_iff.mpr ?_
    rw [Keyed.keys_remove, List.mem_filter]
    exact ⟨this, by simpa using other⟩
  target := by
    intro e he
    have untouched := List.filter_eq_nil_iff.mp free e he
    have other : e.target ≠ id := by
      intro here
      simp [Edge.touches, here] at untouched
    have := Keyed.has_iff.mp (h.target e he)
    refine Keyed.has_iff.mpr ?_
    rw [Keyed.keys_remove, List.mem_filter]
    exact ⟨this, by simpa using other⟩
  nodeParent := by
    intro n hn some_parent
    exact (hasSubgraph_mapSubgraphs (fun g => g.id_strike id) _).trans
      (h.nodeParent n (Keyed.mem_remove.mp hn).1 some_parent)
  subgraphParent := by
    intro g hg some_parent
    obtain ⟨g', hg', rfl⟩ := List.mem_map.mp hg
    exact (hasSubgraph_mapSubgraphs (fun g => g.id_strike id) _).trans
      (h.subgraphParent g' hg' some_parent)
  acyclic := h.acyclic.map (fun _ => rfl) fun _ => rfl
  membersNodup := by
    intro g hg
    obtain ⟨g', hg', rfl⟩ := List.mem_map.mp hg
    exact (h.membersNodup g' hg').erase id
  members := by
    intro g hg v
    obtain ⟨g', hg', rfl⟩ := List.mem_map.mp hg
    rw [Subgraph.mem_strike (h.membersNodup g' hg'), h.members g' hg', Subgraph.id_strike]
    constructor
    · rintro ⟨other, n, hn, rfl, member⟩
      exact ⟨n, Keyed.mem_remove.mpr ⟨hn, other⟩, rfl, member⟩
    · rintro ⟨n, hn, rfl, member⟩
      obtain ⟨hn, other⟩ := Keyed.mem_remove.mp hn
      exact ⟨other, n, hn, rfl, member⟩
  named := by
    intro g hg
    obtain ⟨g', hg', rfl⟩ := List.mem_map.mp hg
    exact h.named g' hg'
  simple := by
    intro g hg
    obtain ⟨g', hg', rfl⟩ := List.mem_map.mp hg
    exact h.simple g' hg'

/-- Edges may change as long as they lead from nodes to nodes. -/
theorem withEdges (h : d.Integral) {es : List Edge} (nodup : (Keyed.keys es).Nodup)
    (source : ∀ e ∈ es, d.hasNode e.source) (target : ∀ e ∈ es, d.hasNode e.target) :
    Integral { d with edges := es } where
  distinct := ⟨h.distinct.nodes, nodup, h.distinct.subgraphs⟩
  source := source
  target := target
  nodeParent := h.nodeParent
  subgraphParent := h.subgraphParent
  acyclic := h.acyclic
  membersNodup := h.membersNodup
  members := h.members
  named := h.named
  simple := h.simple

theorem putEdge (h : d.Integral) {e : Edge} (source : d.hasNode e.source)
    (target : d.hasNode e.target) : Integral { d with edges := Keyed.put e d.edges } := by
  refine h.withEdges (Keyed.nodup_keys_put h.distinct.edges e) ?_ ?_
  · intro f hf
    rcases Keyed.mem_put hf with rfl | hf
    · exact source
    · exact h.source f hf
  · intro f hf
    rcases Keyed.mem_put hf with rfl | hf
    · exact target
    · exact h.target f hf

theorem removeEdge (h : d.Integral) (id : Value) :
    Integral { d with edges := Keyed.remove id d.edges } := by
  refine h.withEdges (Keyed.nodup_keys_remove h.distinct.edges id) ?_ ?_
  · intro e he
    exact h.source e (Keyed.mem_remove.mp he).1
  · intro e he
    exact h.target e (Keyed.mem_remove.mp he).1

/-- A new subgraph is empty at first. -/
theorem addSubgraph (h : d.Integral) {g : Subgraph} (fresh : g.id ∉ Keyed.keys d.subgraphs)
    (named : g.id ≠ .null) (simple : g.id.isSimple) (empty : g.members = [])
    (parent : g.parent ≠ .null → d.hasSubgraph g.parent) :
    Integral { d with subgraphs := Keyed.put g d.subgraphs } where
  distinct := ⟨h.distinct.nodes, h.distinct.edges, Keyed.nodup_keys_put h.distinct.subgraphs g⟩
  source := h.source
  target := h.target
  nodeParent := by
    intro n hn some_parent
    have old := Keyed.has_iff.mp (h.nodeParent n hn some_parent)
    exact Keyed.has_iff.mpr (Keyed.mem_keys_put.mpr (Or.inr old))
  subgraphParent := by
    intro k hk some_parent
    have old : d.hasSubgraph k.parent := by
      rcases Keyed.mem_put hk with rfl | hk
      · exact parent some_parent
      · exact h.subgraphParent k hk some_parent
    exact Keyed.has_iff.mpr (Keyed.mem_keys_put.mpr (Or.inr (Keyed.has_iff.mp old)))
  acyclic := by
    refine h.acyclic.grow g.id ?_
    rintro a b ⟨k, found, up, some_parent⟩
    rw [subgraph?, Keyed.find?_put] at found
    have exists_parent : b ∈ Keyed.keys d.subgraphs := by
      split at found
      · cases found
        exact Keyed.has_iff.mp (up ▸ parent (up ▸ some_parent))
      · have := h.subgraphParent k (Keyed.mem_of_find? found) (up ▸ some_parent)
        exact Keyed.has_iff.mp (up ▸ this)
    refine ⟨fun e => fresh (e ▸ exists_parent), fun ha => ⟨k, ?_, up, some_parent⟩⟩
    rwa [if_neg (show Keyed.key g ≠ a from Ne.symm ha)] at found
  membersNodup := by
    intro k hk
    rcases Keyed.mem_put hk with rfl | hk
    · rw [empty]
      exact List.nodup_nil
    · exact h.membersNodup k hk
  members := by
    intro k hk v
    rcases Keyed.mem_put hk with rfl | hk
    · have none_inside : ∀ n ∈ d.nodes, n.parent ≠ k.id := by
        intro n hn inside
        have := Keyed.has_iff.mp (h.nodeParent n hn (inside ▸ named))
        exact fresh (inside ▸ this)
      rw [empty]
      refine ⟨fun hv => absurd hv List.not_mem_nil, ?_⟩
      rintro ⟨n, hn, _, inside⟩
      exact absurd inside (none_inside n hn)
    · exact h.members k hk v
  named := by
    intro k hk
    rcases Keyed.mem_put hk with rfl | hk
    · exact named
    · exact h.named k hk
  simple := by
    intro k hk
    rcases Keyed.mem_put hk with rfl | hk
    · exact simple
    · exact h.simple k hk

/-- A subgraph with the same members may change otherwise, and move to a parent that is not
inside it. -/
theorem putSubgraph (h : d.Integral) {g k : Subgraph} (there : d.subgraph? g.id = some k)
    (members : g.members = k.members)
    (parent : g.parent ≠ .null →
      d.hasSubgraph g.parent ∧ ¬ Relation.ReflTransGen d.Under g.parent g.id) :
    Integral { d with subgraphs := Keyed.put g d.subgraphs } := by
  have hk : k ∈ d.subgraphs := Keyed.mem_of_find? there
  have same : k.id = g.id := Keyed.key_of_find? there
  have kept : Keyed.keys (Keyed.put g d.subgraphs) = Keyed.keys d.subgraphs :=
    Keyed.keys_put_of_mem (same ▸ Keyed.mem_keys hk : g.id ∈ _)
  constructor
  case distinct =>
    exact ⟨h.distinct.nodes, h.distinct.edges, Keyed.nodup_keys_put h.distinct.subgraphs g⟩
  case source => exact h.source
  case target => exact h.target
  case nodeParent =>
    intro n hn some_parent
    exact (Keyed.has_eq_keys kept).trans (h.nodeParent n hn some_parent)
  case subgraphParent =>
    intro l hl some_parent
    refine (Keyed.has_eq_keys kept).trans ?_
    rcases Keyed.mem_put hl with rfl | hl
    · exact (parent some_parent).1
    · exact h.subgraphParent l hl some_parent
  case acyclic =>
    refine h.acyclic.reparent g.id g.parent ?_
      (fun some_parent => (parent some_parent).2) fun _ _ ⟨_, _, _, some_parent⟩ => some_parent
    intro a b ⟨l, found, up, some_parent⟩
    rw [subgraph?, Keyed.find?_put] at found
    split at found
    · rename_i here
      cases found
      exact Or.inr ⟨here.symm, up.symm⟩
    · exact Or.inl ⟨l, found, up, some_parent⟩
  case membersNodup =>
    intro l hl
    rcases Keyed.mem_put hl with rfl | hl
    · exact members ▸ h.membersNodup k hk
    · exact h.membersNodup l hl
  case members =>
    intro l hl v
    rcases Keyed.mem_put hl with rfl | hl
    · rw [members, h.members k hk, same]
    · exact h.members l hl v
  case named =>
    intro l hl
    rcases Keyed.mem_put hl with rfl | hl
    · exact same ▸ h.named k hk
    · exact h.named l hl
  case simple =>
    intro l hl
    rcases Keyed.mem_put hl with rfl | hl
    · exact same ▸ h.simple k hk
    · exact h.simple l hl

/-- A subgraph that stays where it is may change otherwise. -/
theorem resetSubgraph (h : d.Integral) {g k : Subgraph} (there : d.subgraph? g.id = some k)
    (members : g.members = k.members) (parent : g.parent = k.parent) :
    Integral { d with subgraphs := Keyed.put g d.subgraphs } := by
  refine h.putSubgraph there members fun some_parent => ?_
  rw [parent] at some_parent ⊢
  refine ⟨h.subgraphParent k (Keyed.mem_of_find? there) some_parent, fun inside => ?_⟩
  exact h.acyclic g.id (.head' ⟨k, there, rfl, some_parent⟩ inside)

/-- A subgraph that nothing is in may go. -/
theorem dropSubgraph (h : d.Integral) {g : Subgraph} (hg : g ∈ d.subgraphs)
    (empty : g.members = []) (childless : ∀ k ∈ d.subgraphs, k.parent ≠ g.id) :
    Integral { d with subgraphs := Keyed.remove g.id d.subgraphs } := by
  have left : ∀ {id}, id ≠ g.id → d.hasSubgraph id →
      id ∈ Keyed.keys (Keyed.remove g.id d.subgraphs) := by
    intro id other there
    rw [Keyed.keys_remove, List.mem_filter]
    exact ⟨Keyed.has_iff.mp there, by simpa using other⟩
  constructor
  case distinct =>
    exact ⟨h.distinct.nodes, h.distinct.edges,
      Keyed.nodup_keys_remove h.distinct.subgraphs g.id⟩
  case source => exact h.source
  case target => exact h.target
  case nodeParent =>
    intro n hn some_parent
    have outside : n.parent ≠ g.id := by
      intro inside
      have := (h.members g hg n.id).mpr ⟨n, hn, rfl, inside⟩
      simp [empty] at this
    exact Keyed.has_iff.mpr (left outside (h.nodeParent n hn some_parent))
  case subgraphParent =>
    intro k hk some_parent
    have hk := (Keyed.mem_remove.mp hk).1
    exact Keyed.has_iff.mpr (left (childless k hk) (h.subgraphParent k hk some_parent))
  case acyclic => exact h.acyclic.mono fun a b up => .single (under_withoutSubgraph.mp up).1
  case membersNodup => exact fun k hk => h.membersNodup k (Keyed.mem_remove.mp hk).1
  case members => exact fun k hk => h.members k (Keyed.mem_remove.mp hk).1
  case named => exact fun k hk => h.named k (Keyed.mem_remove.mp hk).1
  case simple => exact fun k hk => h.simple k (Keyed.mem_remove.mp hk).1

/-- What is directly in a subgraph may move up to where the subgraph is. -/
theorem lift (h : d.Integral) {g : Subgraph} (hg : g ∈ d.subgraphs) :
    (d.mapSubgraphs (Subgraph.lift g)).Integral := by
  have id_f := Subgraph.id_lift g
  have parent_f : ∀ k : Subgraph, (Subgraph.lift g k).parent = g.parent ∧ k.parent = g.id ∨
      (Subgraph.lift g k).parent = k.parent := by
    intro k
    unfold Subgraph.lift
    split
    · rename_i inside
      exact Or.inl ⟨rfl, inside⟩
    · exact Or.inr rfl
  constructor
  case distinct =>
    exact ⟨h.distinct.nodes, h.distinct.edges, (keys_mapSubgraphs id_f).symm ▸ h.distinct.subgraphs⟩
  case source => exact h.source
  case target => exact h.target
  case nodeParent =>
    intro n hn some_parent
    exact (hasSubgraph_mapSubgraphs id_f _).trans (h.nodeParent n hn some_parent)
  case subgraphParent =>
    intro k' hk' some_parent
    obtain ⟨k, hk, rfl⟩ := List.mem_map.mp hk'
    refine (hasSubgraph_mapSubgraphs id_f _).trans ?_
    rcases parent_f k with ⟨up, _⟩ | same
    · rw [up] at some_parent ⊢
      exact h.subgraphParent g hg some_parent
    · rw [same] at some_parent ⊢
      exact h.subgraphParent k hk some_parent
  case acyclic =>
    -- a step out of a lifted subgraph was two steps before
    refine h.acyclic.mono fun a b ⟨k', found, up, some_parent⟩ => ?_
    rw [subgraph?_mapSubgraphs id_f] at found
    obtain ⟨k, there, rfl⟩ := Option.map_eq_some_iff.mp found
    rcases parent_f k with ⟨two, inside⟩ | same
    · have here := (Keyed.find?_eq_some_iff h.distinct.subgraphs).mpr ⟨hg, rfl⟩
      exact .tail (.single ⟨k, there, inside, h.named g hg⟩)
        ⟨g, here, two.symm.trans up, some_parent⟩
    · exact .single ⟨k, there, same.symm.trans up, some_parent⟩
  case membersNodup =>
    intro k' hk'
    obtain ⟨k, hk, rfl⟩ := List.mem_map.mp hk'
    rw [Subgraph.members_lift]
    exact h.membersNodup k hk
  case members =>
    intro k' hk' v
    obtain ⟨k, hk, rfl⟩ := List.mem_map.mp hk'
    rw [Subgraph.members_lift, Subgraph.id_lift]
    exact h.members k hk v
  case named =>
    intro k' hk'
    obtain ⟨k, hk, rfl⟩ := List.mem_map.mp hk'
    rw [Subgraph.id_lift]
    exact h.named k hk
  case simple =>
    intro k' hk'
    obtain ⟨k, hk, rfl⟩ := List.mem_map.mp hk'
    rw [Subgraph.id_lift]
    exact h.simple k hk

/-- Directions and classes have no part in integrity. -/
theorem turned (h : d.Integral) (direction : Direction) (classes : List StyleClass) :
    Integral { d with direction, classes } where
  distinct := ⟨h.distinct.nodes, h.distinct.edges, h.distinct.subgraphs⟩
  source := h.source
  target := h.target
  nodeParent := h.nodeParent
  subgraphParent := h.subgraphParent
  acyclic := h.acyclic
  membersNodup := h.membersNodup
  members := h.members
  named := h.named
  simple := h.simple

/-- Entities that keep their ids and references may change otherwise. -/
theorem map (h : d.Integral) {fn : Node → Node} {fe : Edge → Edge} {fg : Subgraph → Subgraph}
    (node : ∀ n, (fn n).id = n.id ∧ (fn n).parent = n.parent)
    (edge : ∀ e, (fe e).id = e.id ∧ (fe e).source = e.source ∧ (fe e).target = e.target)
    (subgraph : ∀ g, (fg g).id = g.id ∧ (fg g).parent = g.parent ∧ (fg g).members = g.members) :
    Integral { d with
      nodes := d.nodes.map fn, edges := d.edges.map fe, subgraphs := d.subgraphs.map fg } := by
  have nodes : Keyed.keys (d.nodes.map fn) = Keyed.keys d.nodes :=
    Keyed.keys_map (fun n => (node n).1) _
  have edges : Keyed.keys (d.edges.map fe) = Keyed.keys d.edges :=
    Keyed.keys_map (fun e => (edge e).1) _
  have subgraphs : Keyed.keys (d.subgraphs.map fg) = Keyed.keys d.subgraphs :=
    Keyed.keys_map (fun g => (subgraph g).1) _
  constructor
  case distinct =>
    exact ⟨nodes ▸ h.distinct.nodes, edges ▸ h.distinct.edges, subgraphs ▸ h.distinct.subgraphs⟩
  case source =>
    intro e' he'
    obtain ⟨e, he, rfl⟩ := List.mem_map.mp he'
    rw [(edge e).2.1]
    exact (Keyed.has_eq_keys nodes).trans (h.source e he)
  case target =>
    intro e' he'
    obtain ⟨e, he, rfl⟩ := List.mem_map.mp he'
    rw [(edge e).2.2]
    exact (Keyed.has_eq_keys nodes).trans (h.target e he)
  case nodeParent =>
    intro n' hn' some_parent
    obtain ⟨n, hn, rfl⟩ := List.mem_map.mp hn'
    rw [(node n).2] at some_parent ⊢
    exact (Keyed.has_eq_keys subgraphs).trans (h.nodeParent n hn some_parent)
  case subgraphParent =>
    intro g' hg' some_parent
    obtain ⟨g, hg, rfl⟩ := List.mem_map.mp hg'
    rw [(subgraph g).2.1] at some_parent ⊢
    exact (Keyed.has_eq_keys subgraphs).trans (h.subgraphParent g hg some_parent)
  case acyclic =>
    exact h.acyclic.map (fun g => (subgraph g).1) fun g => (subgraph g).2.1
  case membersNodup =>
    intro g' hg'
    obtain ⟨g, hg, rfl⟩ := List.mem_map.mp hg'
    rw [(subgraph g).2.2]
    exact h.membersNodup g hg
  case members =>
    intro g' hg' v
    obtain ⟨g, hg, rfl⟩ := List.mem_map.mp hg'
    rw [(subgraph g).2.2, (subgraph g).1, h.members g hg]
    constructor
    · rintro ⟨n, hn, rfl, inside⟩
      exact ⟨fn n, List.mem_map_of_mem hn, (node n).1, (node n).2.trans inside⟩
    · rintro ⟨n', hn', rfl, inside⟩
      obtain ⟨n, hn, rfl⟩ := List.mem_map.mp hn'
      exact ⟨n, hn, (node n).1.symm, (node n).2.symm.trans inside⟩
  case named =>
    intro g' hg'
    obtain ⟨g, hg, rfl⟩ := List.mem_map.mp hg'
    rw [(subgraph g).1]
    exact h.named g hg
  case simple =>
    intro g' hg'
    obtain ⟨g, hg, rfl⟩ := List.mem_map.mp hg'
    rw [(subgraph g).1]
    exact h.simple g hg

/-- A diagram comes back from plain data as integral as it went. -/
theorem settle (h : d.Integral) : d.settle.Integral := by
  refine h.map (fun n => ?_) (fun _ => ⟨rfl, rfl, rfl⟩) fun _ => ⟨rfl, rfl, rfl⟩
  rw [n.settle_rest]
  exact ⟨rfl, rfl⟩

end Diagram.Integral
end Flowchart
