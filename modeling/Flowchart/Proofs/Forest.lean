import Flowchart.Proofs.Integrity
import Flowchart.Writing
import Mathlib.Data.Fintype.Card
import Mathlib.Data.Fintype.EquivFin
import Mathlib.Data.Fintype.Sets

/-! The subgraphs of an integral diagram as a forest. Laid out from the outermost ones inwards they
all come, each of them once, and so do the nodes. -/
namespace Flowchart.Diagram
open Relation

/-- A subgraph and all that it encloses, from the outside inwards. -/
def enclosed (d : Diagram) : Nat → Subgraph → List Subgraph
  | 0, _ => []
  | levels + 1, g => g :: (d.childrenOf g.id).flatMap (d.enclosed levels)

/-- The subgraphs that nothing encloses. -/
def outermost (d : Diagram) : List Subgraph := d.subgraphs.filter fun g => d.isOutside g.parent

/-- All subgraphs, each before those that it encloses. -/
def inOrder (d : Diagram) : List Subgraph := d.outermost.flatMap (d.enclosed d.subgraphs.length)

/-- The nodes that no subgraph encloses. -/
def outsideNodes (d : Diagram) : List Node := d.nodes.filter fun n => d.isOutside n.parent

variable {d : Diagram}

theorem eq_of_sublist_of_nodup {α : Type} {xs : List α} (nodup : xs.Nodup) {a b : α}
    (h : [a, b].Sublist xs) (h' : [b, a].Sublist xs) : a = b := by
  induction xs with
  | nil => cases h
  | cons x xs ih =>
    obtain ⟨new, nodup⟩ := List.nodup_cons.mp nodup
    rcases List.sublist_cons_iff.mp h with inner | ⟨r, e, _⟩
    · rcases List.sublist_cons_iff.mp h' with inner' | ⟨r', e', _⟩
      · exact ih nodup inner inner'
      · obtain ⟨rfl, -⟩ := List.cons.inj e'
        exact absurd (inner.subset (show b ∈ [a, b] by simp)) new
    · obtain ⟨rfl, rfl⟩ := List.cons.inj e
      rcases List.sublist_cons_iff.mp h' with inner' | ⟨r', e', _⟩
      · exact absurd (inner'.subset (show a ∈ [b, a] by simp)) new
      · exact (List.cons.inj e').1.symm

theorem outside_iff {parent : Value} (there : parent ≠ .null → d.hasSubgraph parent) :
    d.isOutside parent = true ↔ parent = .null := by
  by_cases outside : parent = .null
  · simp [isOutside, outside]
  · simp [isOutside, outside, there outside]

theorem mem_childrenOf {g k : Subgraph} :
    k ∈ d.childrenOf g.id ↔ k ∈ d.subgraphs ∧ k.parent = g.id := by
  simp [childrenOf]

theorem under_unique (d : Diagram) : Relator.RightUnique d.Under := by
  rintro a b c ⟨g, found, rfl, _⟩ ⟨k, found', rfl, _⟩
  rw [Option.some.inj (found.symm.trans found')]

/-- A subgraph comes with the one around it, one level further in. -/
theorem enclosed_extend {levels : Nat} {g p k : Subgraph} (hp : p ∈ d.enclosed levels g)
    (hk : k ∈ d.subgraphs) (parent : k.parent = p.id) : k ∈ d.enclosed (levels + 1) g := by
  induction levels generalizing g with
  | zero => cases hp
  | succ levels ih =>
    rw [enclosed] at hp ⊢
    refine List.mem_cons_of_mem _ (List.mem_flatMap.mpr ?_)
    rcases List.mem_cons.mp hp with rfl | hp
    · exact ⟨k, mem_childrenOf.mpr ⟨hk, parent⟩, List.mem_cons_self⟩
    · obtain ⟨c, hc, hp⟩ := List.mem_flatMap.mp hp
      exact ⟨c, hc, ih hp⟩

namespace Integral

theorem under_iff (h : d.Integral) {g : Subgraph} (hg : g ∈ d.subgraphs) {b : Value} :
    d.Under g.id b ↔ g.parent = b ∧ b ≠ .null := by
  have found := (Keyed.find?_eq_some_iff h.distinct.subgraphs).mpr ⟨hg, rfl⟩
  constructor
  · rintro ⟨k, found', parent, some_parent⟩
    obtain rfl : g = k := Option.some.inj (found.symm.trans found')
    exact ⟨parent, some_parent⟩
  · rintro ⟨parent, some_parent⟩
    exact ⟨g, found, parent, some_parent⟩

theorem exists_under (h : d.Integral) {g : Subgraph} (hg : g ∈ d.subgraphs)
    (inside : g.parent ≠ .null) : ∃ k ∈ d.subgraphs, g.parent = k.id ∧ d.Under g.id k.id := by
  obtain ⟨k, hk, same⟩ := hasSubgraph_iff.mp (h.subgraphParent g hg inside)
  exact ⟨k, hk, same.symm, (h.under_iff hg).mpr ⟨same.symm, h.named k hk⟩⟩

theorem under_child (h : d.Integral) {g k : Subgraph} (hg : g ∈ d.subgraphs)
    (hk : k ∈ d.childrenOf g.id) : d.Under k.id g.id := by
  obtain ⟨hk, parent⟩ := mem_childrenOf.mp hk
  exact (h.under_iff hk).mpr ⟨parent, h.named g hg⟩

theorem mem_enclosed (h : d.Integral) {levels : Nat} {g k : Subgraph} (hg : g ∈ d.subgraphs)
    (hk : k ∈ d.enclosed levels g) : k ∈ d.subgraphs ∧ ReflTransGen d.Under k.id g.id := by
  induction levels generalizing g with
  | zero => cases hk
  | succ levels ih =>
    rw [enclosed] at hk
    rcases List.mem_cons.mp hk with rfl | hk
    · exact ⟨hg, .refl⟩
    · obtain ⟨c, hc, hk⟩ := List.mem_flatMap.mp hk
      obtain ⟨there, way⟩ := ih (mem_childrenOf.mp hc).1 hk
      exact ⟨there, way.tail (h.under_child hg hc)⟩

theorem not_encloses (h : d.Integral) {g k : Subgraph} (hg : g ∈ d.subgraphs)
    (hk : k ∈ d.subgraphs) (parent : g.parent = k.parent) : ¬ TransGen d.Under g.id k.id := by
  intro way
  obtain ⟨x, first, rest⟩ := TransGen.head'_iff.mp way
  obtain ⟨up, some_parent⟩ := (h.under_iff hg).mp first
  have last : d.Under k.id x := (h.under_iff hk).mpr ⟨parent ▸ up, some_parent⟩
  exact h.acyclic x (.tail' rest last)

theorem disjoint_enclosed (h : d.Integral) {g k : Subgraph} (hg : g ∈ d.subgraphs)
    (hk : k ∈ d.subgraphs) (parent : g.parent = k.parent) (ne : g ≠ k) (levels : Nat) :
    List.Disjoint (d.enclosed levels g) (d.enclosed levels k) := by
  have other : g.id ≠ k.id := fun same => ne (Keyed.eq_of_key_eq h.distinct.subgraphs hg hk same)
  intro c hcg hck
  obtain ⟨_, way⟩ := h.mem_enclosed hg hcg
  obtain ⟨_, way'⟩ := h.mem_enclosed hk hck
  rcases ReflTransGen.total_of_right_unique (under_unique d) way way' with up | up
  · rcases reflTransGen_iff_eq_or_transGen.mp up with same | up
    · exact other same.symm
    · exact h.not_encloses hg hk parent up
  · rcases reflTransGen_iff_eq_or_transGen.mp up with same | up
    · exact other same
    · exact h.not_encloses hk hg parent.symm up

theorem nodup_subgraphs (h : d.Integral) : d.subgraphs.Nodup := .of_map _ h.distinct.subgraphs

theorem nodup_flatMap_enclosed (h : d.Integral) {gs : List Subgraph} (sub : gs.Sublist d.subgraphs)
    {levels : Nat} (nodup : ∀ g ∈ gs, (d.enclosed levels g).Nodup)
    (parents : ∀ g ∈ gs, ∀ k ∈ gs, g.parent = k.parent) :
    (gs.flatMap (d.enclosed levels)).Nodup := by
  refine List.nodup_flatMap.mpr ⟨nodup, (h.nodup_subgraphs.sublist sub).imp_of_mem ?_⟩
  intro g k hg hk ne
  exact h.disjoint_enclosed (sub.subset hg) (sub.subset hk) (parents g hg k hk) ne levels

theorem nodup_enclosed (h : d.Integral) {levels : Nat} {g : Subgraph} (hg : g ∈ d.subgraphs) :
    (d.enclosed levels g).Nodup := by
  induction levels generalizing g with
  | zero => exact List.nodup_nil
  | succ levels ih =>
    rw [enclosed, List.nodup_cons]
    constructor
    · intro here
      obtain ⟨c, hc, inside⟩ := List.mem_flatMap.mp here
      obtain ⟨_, way⟩ := h.mem_enclosed (mem_childrenOf.mp hc).1 inside
      exact h.acyclic g.id (.tail' way (h.under_child hg hc))
    · refine h.nodup_flatMap_enclosed List.filter_sublist
        (fun c hc => ih (mem_childrenOf.mp hc).1) fun c hc k hk => ?_
      exact (mem_childrenOf.mp hc).2.trans (mem_childrenOf.mp hk).2.symm

theorem mem_outermost (h : d.Integral) {g : Subgraph} :
    g ∈ d.outermost ↔ g ∈ d.subgraphs ∧ g.parent = .null := by
  rw [outermost, List.mem_filter]
  exact and_congr_right fun hg => outside_iff (h.subgraphParent g hg)

theorem outermost_eq (h : d.Integral) : d.outermost = d.childrenOf .null := by
  refine List.filter_congr fun g hg => ?_
  exact Bool.eq_iff_iff.mpr ((outside_iff (h.subgraphParent g hg)).trans beq_iff_eq.symm)

theorem nodup_inOrder (h : d.Integral) : d.inOrder.Nodup := by
  refine h.nodup_flatMap_enclosed List.filter_sublist
    (fun g hg => h.nodup_enclosed (h.mem_outermost.mp hg).1) fun g hg k hk => ?_
  exact (h.mem_outermost.mp hg).2.trans (h.mem_outermost.mp hk).2.symm

theorem mem_enclosed_of_wayUp (h : d.Integral) {levels : Nat} {g k : Subgraph}
    (hg : g ∈ d.subgraphs) (hk : k ∈ d.subgraphs) (way : g.id ∈ Edit.wayUp d levels k.id) :
    k ∈ d.enclosed levels g := by
  induction levels generalizing k with
  | zero => cases way
  | succ levels ih =>
    have found := (Keyed.find?_eq_some_iff h.distinct.subgraphs).mpr ⟨hk, rfl⟩
    have found : d.subgraph? k.id = some k := found
    simp only [Edit.wayUp, found] at way
    rcases List.mem_cons.mp way with same | way
    · obtain rfl := Keyed.eq_of_key_eq h.distinct.subgraphs hg hk same
      exact List.mem_cons_self
    · split at way
      · cases way
      · rename_i inside
        obtain ⟨p, hp, parent, _⟩ := h.exists_under hk inside
        exact enclosed_extend (ih hp (parent ▸ way)) hk parent

/-- Around every subgraph is one that nothing encloses. -/
theorem exists_outermost (h : d.Integral) {k : Subgraph} (hk : k ∈ d.subgraphs) :
    ∃ g ∈ d.outermost, ReflTransGen d.Under k.id g.id := by
  let Inside (g k : { g // g ∈ d.subgraphs }) : Prop := TransGen d.Under k.1.id g.1.id
  have : IsTrans _ Inside := ⟨fun _ _ _ up up' => TransGen.trans up' up⟩
  have : Std.Irrefl Inside := ⟨fun g cycle => h.acyclic g.1.id cycle⟩
  have grounded : WellFounded Inside := Finite.wellFounded_of_trans_of_irrefl Inside
  -- from a subgraph upwards the parents come to an end
  induction hk' : (⟨k, hk⟩ : { g // g ∈ d.subgraphs }) using grounded.induction generalizing k with
  | _ _ ih =>
    subst hk'
    by_cases outside : k.parent = .null
    · exact ⟨k, h.mem_outermost.mpr ⟨hk, outside⟩, .refl⟩
    · obtain ⟨p, hp, _, step⟩ := h.exists_under hk outside
      obtain ⟨g, hg, way⟩ := ih ⟨p, hp⟩ (.single step) hp rfl
      exact ⟨g, hg, .head step way⟩

theorem mem_inOrder (h : d.Integral) {k : Subgraph} : k ∈ d.inOrder ↔ k ∈ d.subgraphs := by
  constructor
  · intro hk
    obtain ⟨g, hg, hk⟩ := List.mem_flatMap.mp hk
    exact (h.mem_enclosed (h.mem_outermost.mp hg).1 hk).1
  · intro hk
    obtain ⟨g, hg, way⟩ := h.exists_outermost hk
    have there := (h.mem_outermost.mp hg).1
    refine List.mem_flatMap.mpr ⟨g, hg, h.mem_enclosed_of_wayUp there hk (wayUp_complete way ?_)⟩
    exact List.length_filter_lt_length_iff_exists.mpr ⟨g, there, by simp [Subgraph.key_eq]⟩

theorem perm_inOrder (h : d.Integral) : d.inOrder.Perm d.subgraphs :=
  (List.perm_ext_iff_of_nodup h.nodup_inOrder h.nodup_subgraphs).mpr fun _ => h.mem_inOrder

/-! ### Siblings -/

/-- Around what is enclosed by a subgraph, but is not the subgraph, is something that is. -/
theorem parent_of_enclosed (h : d.Integral) {levels : Nat} {g k : Subgraph} (hg : g ∈ d.subgraphs)
    (hk : k ∈ d.enclosed levels g) (ne : k ≠ g) :
    d.Under k.id k.parent ∧ ReflTransGen d.Under k.parent g.id := by
  obtain ⟨there, way⟩ := h.mem_enclosed hg hk
  rcases reflTransGen_iff_eq_or_transGen.mp way with same | way
  · exact absurd (Keyed.eq_of_key_eq h.distinct.subgraphs there hg same.symm) ne
  · obtain ⟨x, first, rest⟩ := TransGen.head'_iff.mp way
    obtain ⟨rfl, some_parent⟩ := (h.under_iff there).mp first
    exact ⟨(h.under_iff there).mpr ⟨rfl, some_parent⟩, rest⟩

theorem parent_ne (h : d.Integral) {levels : Nat} {g k : Subgraph} (hg : g ∈ d.subgraphs)
    (hk : k ∈ d.enclosed levels g) (ne : k ≠ g) : k.parent ≠ g.parent := by
  intro same
  obtain ⟨up, rest⟩ := h.parent_of_enclosed hg hk ne
  have inside := ((h.under_iff (h.mem_enclosed hg hk).1).mp up).2
  have step : d.Under g.id k.parent := (h.under_iff hg).mpr ⟨same.symm, inside⟩
  exact h.acyclic _ (.head' step rest)

/-- What different siblings enclose has different parents, but for the siblings themselves. -/
theorem eq_of_parent_eq (h : d.Integral) {levels : Nat} {g g' k k' : Subgraph}
    (hg : g ∈ d.subgraphs) (hg' : g' ∈ d.subgraphs) (siblings : g.parent = g'.parent) (ne : g ≠ g')
    (hk : k ∈ d.enclosed levels g) (hk' : k' ∈ d.enclosed levels g')
    (parent : k.parent = k'.parent) : k = g ∧ k' = g' := by
  by_cases first : k = g <;> by_cases second : k' = g'
  · exact ⟨first, second⟩
  · exact absurd (parent.symm.trans (first ▸ siblings)) (h.parent_ne hg' hk' second)
  · exact absurd (parent.trans (second ▸ siblings.symm)) (h.parent_ne hg hk first)
  · obtain ⟨_, rest⟩ := h.parent_of_enclosed hg hk first
    obtain ⟨_, rest'⟩ := h.parent_of_enclosed hg' hk' second
    have apart : g.id ≠ g'.id :=
      fun same => ne (Keyed.eq_of_key_eq h.distinct.subgraphs hg hg' same)
    rw [parent] at rest
    rcases ReflTransGen.total_of_right_unique (under_unique d) rest rest' with up | up
    · rcases reflTransGen_iff_eq_or_transGen.mp up with same | up
      · exact absurd same.symm apart
      · exact absurd up (h.not_encloses hg hg' siblings)
    · rcases reflTransGen_iff_eq_or_transGen.mp up with same | up
      · exact absurd same apart
      · exact absurd up (h.not_encloses hg' hg siblings.symm)

end Integral

/-- Siblings come one after the other as they do among the subgraphs of the diagram. -/
def KeepsOrder (d : Diagram) (gs : List Subgraph) : Prop :=
  gs.Pairwise fun g k => g.parent = k.parent → [g, k].Sublist d.subgraphs

namespace Integral

theorem keepsOrder_flatMap (h : d.Integral) {gs : List Subgraph} (sub : gs.Sublist d.subgraphs)
    {levels : Nat} (inner : ∀ g ∈ gs, d.KeepsOrder (d.enclosed levels g))
    (parents : ∀ g ∈ gs, ∀ k ∈ gs, g.parent = k.parent) :
    d.KeepsOrder (gs.flatMap (d.enclosed levels)) := by
  refine List.pairwise_flatMap.mpr ⟨inner, List.pairwise_iff_forall_sublist.mpr ?_⟩
  intro g g' order k hk k' hk' parent
  have hg := order.subset (show g ∈ [g, g'] by simp)
  have hg' := order.subset (show g' ∈ [g, g'] by simp)
  have ne : g ≠ g' := by simpa using h.nodup_subgraphs.sublist (order.trans sub)
  obtain ⟨rfl, rfl⟩ := h.eq_of_parent_eq (sub.subset hg) (sub.subset hg') (parents g hg g' hg') ne
    hk hk' parent
  exact order.trans sub

theorem keepsOrder_enclosed (h : d.Integral) {levels : Nat} {g : Subgraph} (hg : g ∈ d.subgraphs) :
    d.KeepsOrder (d.enclosed levels g) := by
  induction levels generalizing g with
  | zero => exact List.Pairwise.nil
  | succ levels ih =>
    refine List.pairwise_cons.mpr ⟨fun k hk parent => ?_, ?_⟩
    · obtain ⟨c, hc, inside⟩ := List.mem_flatMap.mp hk
      obtain ⟨there, way⟩ := h.mem_enclosed (mem_childrenOf.mp hc).1 inside
      exact absurd (TransGen.tail' way (h.under_child hg hc)) (h.not_encloses there hg parent.symm)
    · refine h.keepsOrder_flatMap List.filter_sublist (fun c hc => ih (mem_childrenOf.mp hc).1) ?_
      intro c hc k hk
      exact (mem_childrenOf.mp hc).2.trans (mem_childrenOf.mp hk).2.symm

theorem keepsOrder_inOrder (h : d.Integral) : d.KeepsOrder d.inOrder := by
  refine h.keepsOrder_flatMap List.filter_sublist
    (fun g hg => h.keepsOrder_enclosed (h.mem_outermost.mp hg).1) fun g hg k hk => ?_
  exact (h.mem_outermost.mp hg).2.trans (h.mem_outermost.mp hk).2.symm

/-- Laid out, the subgraphs inside another one come in the order in which they came. -/
theorem filter_inOrder (h : d.Integral) (parent : Value) :
    d.inOrder.filter (fun g => g.parent == parent) = d.childrenOf parent := by
  have ordered : (d.inOrder.filter fun g => g.parent == parent).Pairwise
      fun g k => [g, k].Sublist d.subgraphs := by
    refine (h.keepsOrder_inOrder.filter _).imp_of_mem fun hg hk order => order ?_
    have inside := beq_iff_eq.mp (List.mem_filter.mp hg).2
    exact inside.trans (beq_iff_eq.mp (List.mem_filter.mp hk).2).symm
  have ordered' : (d.childrenOf parent).Pairwise fun g k => [g, k].Sublist d.subgraphs :=
    List.pairwise_iff_forall_sublist.mpr fun order => order.trans List.filter_sublist
  refine List.Perm.eq_of_pairwise (fun g k _ _ order order' => ?_) ordered ordered'
    (h.perm_inOrder.filter _)
  exact eq_of_sublist_of_nodup h.nodup_subgraphs order order'

/-! ### Nodes -/

theorem nodup_nodes (h : d.Integral) : d.nodes.Nodup := .of_map _ h.distinct.nodes

theorem nodesOf_eq (h : d.Integral) {g : Subgraph} (hg : g ∈ d.subgraphs) :
    d.nodesOf g = g.members.filterMap fun id => (d.node? id).filter fun n => n.parent == g.id := by
  have others : d.nodes.filter (fun n => n.parent == g.id && !g.lists n.id) = [] := by
    refine List.filter_eq_nil_iff.mpr fun n hn => ?_
    simp only [Bool.and_eq_true, beq_iff_eq, Bool.not_eq_true', not_and, Bool.not_eq_false]
    exact fun inside => Subgraph.lists_iff.mpr ((h.members g hg n.id).mpr ⟨n, hn, rfl, inside⟩)
  rw [nodesOf, others, List.append_nil]

/-- The nodes of a subgraph are its members, in their order. -/
theorem ids_nodesOf (h : d.Integral) {g : Subgraph} (hg : g ∈ d.subgraphs) :
    (d.nodesOf g).map Node.id = g.members := by
  have member : ∀ v ∈ g.members, ∃ n, (d.node? v).filter (fun n => n.parent == g.id) = some n ∧
      n.id = v := by
    intro v hv
    obtain ⟨n, hn, same, inside⟩ := (h.members g hg v).mp hv
    have found : d.node? v = some n := (Keyed.find?_eq_some_iff h.distinct.nodes).mpr ⟨hn, same⟩
    exact ⟨n, by simp [found, inside], same⟩
  rw [h.nodesOf_eq hg, List.map_filterMap]
  refine (List.filterMap_congr fun v hv => ?_).trans List.filterMap_some
  obtain ⟨n, found, same⟩ := member v hv
  rw [found, Option.map_some, same]

theorem outsideNodes_eq (h : d.Integral) :
    d.outsideNodes = d.nodes.filter fun n => n.parent == .null := by
  refine List.filter_congr fun n hn => ?_
  exact Bool.eq_iff_iff.mpr ((outside_iff (h.nodeParent n hn)).trans beq_iff_eq.symm)

theorem mem_nodesOf (h : d.Integral) {g : Subgraph} (hg : g ∈ d.subgraphs) {n : Node} :
    n ∈ d.nodesOf g ↔ n ∈ d.nodes ∧ n.parent = g.id := by
  constructor
  · intro hn
    rcases List.mem_append.mp hn with hn | hn
    · obtain ⟨v, _, found⟩ := List.mem_filterMap.mp hn
      obtain ⟨found, inside⟩ := Option.filter_eq_some_iff.mp found
      exact ⟨Keyed.mem_of_find? found, beq_iff_eq.mp inside⟩
    · simp only [List.mem_filter, Bool.and_eq_true, beq_iff_eq] at hn
      exact ⟨hn.1, hn.2.1⟩
  · rintro ⟨hn, inside⟩
    have found : d.node? n.id = some n := (Keyed.find?_eq_some_iff h.distinct.nodes).mpr ⟨hn, rfl⟩
    have listed := (h.members g hg n.id).mpr ⟨n, hn, rfl, inside⟩
    refine List.mem_append_left _ (List.mem_filterMap.mpr ⟨n.id, listed, ?_⟩)
    simp [found, inside]

/-- All nodes are laid out, each of them once. -/
theorem perm_nodes (h : d.Integral) :
    (d.outsideNodes ++ d.inOrder.flatMap d.nodesOf).Perm d.nodes := by
  have outside {n : Node} : n ∈ d.outsideNodes ↔ n ∈ d.nodes ∧ n.parent = .null := by
    rw [h.outsideNodes_eq, List.mem_filter, beq_iff_eq]
  have inside {n : Node} : n ∈ d.inOrder.flatMap d.nodesOf ↔
      ∃ g ∈ d.subgraphs, n ∈ d.nodes ∧ n.parent = g.id := by
    rw [List.mem_flatMap]
    refine exists_congr fun g => ?_
    rw [h.mem_inOrder]
    exact and_congr_right fun hg => h.mem_nodesOf hg
  -- a node is in one subgraph at most, since its parent is
  have nodup_inside : (d.inOrder.flatMap d.nodesOf).Nodup := by
    refine List.nodup_flatMap.mpr ⟨fun g hg => ?_, h.nodup_inOrder.imp_of_mem ?_⟩
    · have hg := h.mem_inOrder.mp hg
      exact .of_map Node.id ((h.ids_nodesOf hg).symm ▸ h.membersNodup g hg)
    · intro g k hg hk ne n hng hnk
      have hg := h.mem_inOrder.mp hg
      have hk := h.mem_inOrder.mp hk
      have same := ((h.mem_nodesOf hg).mp hng).2.symm.trans ((h.mem_nodesOf hk).mp hnk).2
      exact ne (Keyed.eq_of_key_eq h.distinct.subgraphs hg hk same)
  have nodup : (d.outsideNodes ++ d.inOrder.flatMap d.nodesOf).Nodup := by
    refine List.nodup_append.mpr ⟨h.nodup_nodes.filter _, nodup_inside, ?_⟩
    rintro n hn _ hm rfl
    obtain ⟨g, hg, _, parent⟩ := inside.mp hm
    exact h.named g hg (parent.symm.trans (outside.mp hn).2)
  refine (List.perm_ext_iff_of_nodup nodup h.nodup_nodes).mpr fun n => ?_
  rw [List.mem_append, outside, inside]
  constructor
  · rintro (⟨hn, _⟩ | ⟨_, _, hn, _⟩) <;> exact hn
  · intro hn
    by_cases free : n.parent = .null
    · exact Or.inl ⟨hn, free⟩
    · obtain ⟨g, hg, same⟩ := hasSubgraph_iff.mp (h.nodeParent n hn free)
      exact Or.inr ⟨g, hg, hn, same.symm⟩

end Integral
end Flowchart.Diagram
