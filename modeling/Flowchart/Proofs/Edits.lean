import Flowchart.Proofs.EdgeId
import Flowchart.Proofs.Guards
import Flowchart.Proofs.Removals
import Flowchart.Proofs.Setters

/-! What every edit keeps, whether it fails or not: a copy that follows the changes is where the
diagram is, and an integral diagram stays integral. -/
namespace Flowchart

/-- How an edit stands that began with a diagram. Integrity is asked for only where `strict`
holds: what is said of changes is true of any diagram without repeated ids. -/
structure Progress.Sound (strict : Prop) (d : Diagram) (p : Progress) : Prop where
  distinct : p.diagram.Distinct
  replay : d.bare.replay? p.changes = some p.diagram.bare
  integral : strict → p.diagram.Integral

namespace Progress
variable {strict : Prop} {d : Diagram} {p q : Progress}

theorem Sound.lead (h : Sound strict d p) (leads : Leads p q)
    (integral : strict → q.diagram.Integral) : Sound strict d q := by
  obtain ⟨cs, changes, replay⟩ := leads.replay
  refine ⟨leads.distinct, ?_, integral⟩
  rw [changes, Diagram.replay?_append, h.replay, Option.bind_some, replay]

theorem Sound.make (h : Sound strict d p) {c : Change} (fits : c.Fits p.diagram)
    (integral : strict → (p.diagram.apply c).Integral) : Sound strict d (p.make c) :=
  h.lead ((Leads.refl h.distinct).make fits) integral

theorem Sound.group (h : Sound strict d p) : Sound strict d { p with grouped := true } :=
  ⟨h.distinct, h.replay, h.integral⟩

end Progress

namespace Diagram.Integral
variable {d : Diagram}

theorem canJoin (h : d.Integral) {parent : Value}
    (there : parent ≠ .null → d.hasSubgraph parent) : Edit.CanJoin d parent := by
  intro some_parent
  refine ⟨?_, there some_parent⟩
  obtain ⟨g, hg, rfl⟩ := hasSubgraph_iff.mp (there some_parent)
  exact h.simple g hg

theorem join (h : d.Integral) {parent : Value} (can : Edit.CanJoin d parent) {n : Node}
    (here : n.parent = parent) : (d.place n).Integral :=
  h.place fun some_parent => here ▸ (can (here ▸ some_parent)).2

end Diagram.Integral

namespace Edit
open Action Progress
variable {strict : Prop} {d : Diagram} {p : Progress}

theorem attachIfAny_eq {node parent : Value} (h : parent ≠ .null) :
    attachIfAny node parent = attach node parent := if_neg h

/-! ### Nodes -/

theorem addNode_keeps (n : Node) : Keeps (Sound strict d) (addNode n) := by
  intro p h
  simp only [addNode, ends_bind, ends_diagram]
  refine (checkId_guards n.id).pass (fun _ _ => ?_) fun _ => h
  refine (check_guards ..).pass (fun _ free => ?_) fun _ => h
  refine (checkParent_guards n.parent).pass (fun _ can => ?_) fun _ => h
  have fresh : n.id ∉ Keyed.keys p.diagram.nodes := by
    rw [← Keyed.has_iff]
    simpa [Diagram.hasNode] using free
  have placed : strict → (p.diagram.place n).Integral ∧ p.diagram.place n =
      Diagram.mapSubgraphs (p.diagram.apply (.nodeAdded n)) fun g =>
        if g.id = n.parent ∧ n.parent ≠ .null then g.enlist n.id else g := by
    intro hs
    refine ⟨(h.integral hs).join can rfl, Diagram.place_unlisted fun g hg listed => ?_⟩
    obtain ⟨m, hm, same, _⟩ := ((h.integral hs).members g hg n.id).mp listed
    exact fresh (same ▸ Keyed.mem_keys hm)
  have first : Leads p (p.make (.nodeAdded n)) := (Leads.refl h.distinct).make fresh
  split
  · rename_i none
    simp only [ends_bind, ends_change, ends_pure]
    refine h.lead first fun hs => ?_
    have same := (placed hs).2.trans (Diagram.mapSubgraphs_self fun g _ => by simp [none])
    exact (same ▸ (placed hs).1 : (p.diagram.apply (.nodeAdded n)).Integral)
  · rename_i some_parent
    simp only [ends_bind, ends_group, ends_change, ends_pure, ← attachIfAny_eq some_parent]
    have started : Leads p { p with grouped := true } := (Leads.refl h.distinct).silent rfl rfl
    have added := started.make (c := .nodeAdded n) fresh
    refine (attachIfAny_ends added.distinct).imp ?_ ?_
    · rintro _ q ⟨attached, same⟩
      refine h.lead (added.trans attached) fun hs => ?_
      rw [same]
      exact (placed hs).2 ▸ (placed hs).1
    · rintro _ q ⟨rfl, cannot⟩
      exact absurd can cannot

theorem updateNode_keeps (id : Value) (changes : Fields) :
    Keeps (Sound strict d) (updateNode id changes) := by
  intro p h
  simp only [updateNode, ends_bind, ends_diagram]
  refine (checkNames_guards ..).pass (fun _ _ => ?_) fun _ => h
  refine (checkId_guards id).pass (fun _ _ => ?_) fun _ => h
  split
  · exact h
  · rename_i n found
    simp only [ends_bind]
    refine (checkFields_guards ..).pass (fun _ _ => ?_) fun _ => h
    refine (ofExcept_guards _).pass (fun set hset => ?_) fun _ => h
    refine (checkParent_guards _).pass (fun _ can => ?_) fun _ => h
    have here : n.id = id := Keyed.key_of_find? found
    have same : (set n).id = n.id := setAll_spares spares_node_id hset n
    have there : p.diagram.node? (set n).id = some n := by rw [same, here]; exact found
    split
    · rename_i stays
      simp only [ends_bind, ends_change, ends_pure]
      exact h.make ⟨here.symm ▸ found, same⟩ fun hs => (h.integral hs).putNode there stays
    · simp only [ends_bind, ends_group, ends_change, ends_pure]
      have started : Leads p { p with grouped := true } := (Leads.refl h.distinct).silent rfl rfl
      have seat := seat_ends id (set n).parent started.distinct
      simp only [ends_bind] at seat
      refine seat.imp (fun _ q hq => hq.imp ?_ fun _ _ h => absurd can h.2)
        fun _ _ h => absurd can h.2
      rintro _ r ⟨hr, seated⟩
      have still : r.diagram.node? n.id = some n := by rw [seated, here]; exact found
      refine h.lead ((started.trans hr).make ⟨still, same⟩) fun hs => ?_
      have final : (r.make (.nodeUpdated n (set n))).diagram = p.diagram.place (set n) := by
        simp only [make, Diagram.apply, seated, Diagram.place, same, here]
        rfl
      rw [final]
      exact (h.integral hs).join can rfl

theorem removeNode_keeps (id : Value) : Keeps (Sound strict d) (removeNode id) := by
  intro p h
  simp only [removeNode, ends_bind, ends_diagram]
  refine (checkId_guards id).pass (fun _ _ => ?_) fun _ => h
  split
  · exact h
  · rename_i n found
    simp only [ends_bind, ends_group, ends_change, ends_pure]
    have here : n.id = id := Keyed.key_of_find? found
    have started : Leads p { p with grouped := true } := (Leads.refl h.distinct).silent rfl rfl
    have there : ∀ e ∈ p.diagram.edgesAt id, p.diagram.edge? e.id = some e := fun e he =>
      (Keyed.find?_eq_some_iff h.distinct.edges).mpr ⟨List.mem_of_mem_filter he, rfl⟩
    refine (Part.edges.removeAll_ends (Keyed.nodup_keys_filter h.distinct.edges _)
      started.distinct there).imp ?_ fun _ _ ht => ht
    rintro _ q ⟨hq, untied⟩
    refine (detach_ends hq.distinct).imp ?_ fun _ _ ht => ht
    rintro _ r ⟨hr, detached⟩
    have still : r.diagram.node? n.id = some n := by
      rw [detached, untied, here]
      exact found
    refine h.lead ((started.trans (hq.trans hr)).make still) fun hs => ?_
    have integral : q.diagram.Integral := by
      rw [untied]
      exact (h.integral hs).withEdges (Keyed.nodup_keys_filter h.distinct.edges _)
        (fun e he => (h.integral hs).source e (List.mem_of_mem_filter he))
        fun e he => (h.integral hs).target e (List.mem_of_mem_filter he)
    have free : q.diagram.edgesAt id = [] := by
      rw [untied]
      refine List.filter_eq_nil_iff.mpr fun e he touches => ?_
      obtain ⟨mem, left⟩ := List.mem_filter.mp he
      have : e.id ∈ Keyed.keys (p.diagram.edgesAt id) :=
        Keyed.mem_keys (List.mem_filter.mpr ⟨mem, touches⟩)
      simp only [decide_not, Bool.not_eq_true', decide_eq_false_iff_not] at left
      exact left this
    simp only [make, Diagram.apply, detached, here]
    exact integral.dropNode free

/-! ### Edges -/

/-- An id that is generated is marked as such, and made distinct from those before. -/
theorem generatedId_eq {e : Edge} {id : Text} (h : generatedId d e = .ok id) :
    ∃ base, EdgeId.generatedMark <+: base ∧ id = EdgeId.distinct base d.edgeIds := by
  simp only [generatedId, bind, Except.bind] at h
  repeat' split at h
  all_goals cases h
  all_goals exact ⟨_, EdgeId.prefix_ofContent .., rfl⟩

theorem generatedId_not_mem {e : Edge} {id : Text} (h : generatedId d e = .ok id) :
    id ∉ d.edgeIds := by
  obtain ⟨base, _, rfl⟩ := generatedId_eq h
  exact EdgeId.distinct_not_mem base d.edgeIds

theorem generatedId_holds {e : Edge} {id : Text} (h : generatedId d e = .ok id) :
    (Value.text id).holds := by
  obtain ⟨base, mark, rfl⟩ := generatedId_eq h
  obtain ⟨rest, whole⟩ := mark.trans (EdgeId.prefix_distinct base d.edgeIds)
  rw [← whole]
  rfl

theorem addEdge_keeps (e : Edge) : Keeps (Sound strict d) (addEdge e) := by
  intro p h
  simp only [addEdge, ends_bind, ends_diagram]
  refine (checkNode_guards ..).pass (fun _ source => ?_) fun _ => h
  refine (checkNode_guards ..).pass (fun _ target => ?_) fun _ => h
  have drawn : ∀ id, id ∉ Keyed.keys p.diagram.edges →
      Sound strict d (p.make (.edgeAdded { e with id })) := fun id fresh =>
    h.make fresh fun hs => (h.integral hs).putEdge source target
  split
  · simp only [ends_bind]
    refine (checkId_guards e.id).pass (fun _ _ => ?_) fun _ => h
    refine (check_guards ..).pass (fun _ free => ?_) fun _ => h
    simp only [ends_pure, ends_change]
    refine drawn e.id ?_
    rw [← Keyed.has_iff]
    simpa [Diagram.hasEdge] using free
  · simp only [ends_bind]
    refine (ofExcept_guards _).pass (fun id generated => ?_) fun _ => h
    simp only [ends_pure, ends_change]
    refine drawn (.text id) fun taken => ?_
    exact generatedId_not_mem generated (Diagram.mem_edgeIds.mpr taken)

theorem updateEdge_keeps (id : Value) {changes : Fields}
    (once : strict → (Keyed.keys changes).Nodup) :
    Keeps (Sound strict d) (updateEdge id changes) := by
  intro p h
  simp only [updateEdge, ends_bind, ends_diagram]
  refine (checkNames_guards ..).pass (fun _ _ => ?_) fun _ => h
  refine (checkId_guards id).pass (fun _ _ => ?_) fun _ => h
  split
  · exact h
  · rename_i e found
    simp only [ends_bind]
    refine (checkFields_guards ..).pass (fun _ _ => ?_) fun _ => h
    refine (checkChangedEnd_guards ..).pass (fun _ source => ?_) fun _ => h
    refine (checkChangedEnd_guards ..).pass (fun _ target => ?_) fun _ => h
    refine (ofExcept_guards _).pass (fun set hset => ?_) fun _ => h
    simp only [ends_change, ends_pure]
    have here : e.id = id := Keyed.key_of_find? found
    have same : (set e).id = e.id := setAll_spares spares_edge_id hset e
    refine h.make ⟨here.symm ▸ found, same⟩ fun hs => (h.integral hs).putEdge ?_ ?_
    · rw [setAll_governs governs_edge_source (by decide) (once hs) hset]
      exact source
    · rw [setAll_governs governs_edge_target (by decide) (once hs) hset]
      exact target

theorem removeEdge_keeps (id : Value) : Keeps (Sound strict d) (removeEdge id) := by
  intro p h
  simp only [removeEdge, ends_bind, ends_diagram]
  refine (checkId_guards id).pass (fun _ _ => ?_) fun _ => h
  split
  · exact h
  · rename_i e found
    simp only [ends_bind, ends_change, ends_pure]
    have here : e.id = id := Keyed.key_of_find? found
    have there : p.diagram.edge? e.id = some e := by rw [here]; exact found
    exact h.make (c := .edgeRemoved e) there fun hs => (h.integral hs).removeEdge e.id

theorem splitEdge_keeps (e : Edge) (n : Node) (position : Except Error (Option Position)) :
    Keeps (Sound strict d) (splitEdge e n position) := by
  refine keeps_bind (fun _ h => h.group) fun _ => keeps_bind (addNode_keeps n) fun m =>
    keeps_bind (addEdge_keeps _) fun _ => keeps_bind (addEdge_keeps _) fun _ =>
    keeps_bind (removeEdge_keeps e.id) fun _ => keeps_bind (fun p h => ?_) fun place => ?_
  · exact (ofExcept_guards position).pass (fun _ _ => h) fun _ => h
  · cases place with
    | none => exact fun _ h => h
    | some place => exact keeps_bind (updateNode_keeps m.id _) fun _ _ h => h

/-! ### Subgraphs -/

theorem CanJoin.congr {d d' : Diagram} {parent : Value} (h : CanJoin d parent)
    (same : d'.nesting = d.nesting) : CanJoin d' parent := by
  intro some_parent
  rw [Diagram.hasSubgraph_congr same]
  exact h some_parent

/-- Nodes move one after the other. Only their parents change, and nothing of how subgraphs are
nested. -/
theorem moves_ends {xs : List Value} {parent : Value} (h : Sound strict d p)
    (can : strict → CanJoin p.diagram parent) :
    Ends (xs.forM fun m => move m parent) p
      (fun _ q => Sound strict d q ∧ q.diagram.nesting = p.diagram.nesting ∧
        q.diagram.nodes =
          p.diagram.nodes.map fun n => if n.id ∈ xs then { n with parent } else n)
      (fun _ q => Sound strict d q) := by
  have walk := ends_forM (fun ys q => Sound strict d q ∧ q.diagram.nesting = p.diagram.nesting ∧
      ∃ zs, xs = zs ++ ys ∧ q.diagram.nodes =
        p.diagram.nodes.map fun n => if n.id ∈ zs then { n with parent } else n)
    (fun m => move m parent) (fun _ q => Sound strict d q) ?_ xs ⟨h, rfl, [], rfl, by simp⟩
  · refine walk.imp ?_ fun _ _ ht => ht
    rintro _ q ⟨hq, nesting, zs, rfl, nodes⟩
    exact ⟨hq, nesting, by simpa using nodes⟩
  · rintro m ys q ⟨hq, nesting, zs, rfl, nodes⟩
    refine (move_ends hq.distinct).imp ?_ ?_
    · rintro _ r ⟨leads, n, found, placed⟩
      refine ⟨hq.lead leads fun hs => ?_, ?_, zs ++ [m], by simp, ?_⟩
      · rw [placed]
        exact (hq.integral hs).join ((can hs).congr nesting) rfl
      · rw [placed, Diagram.nesting_place, nesting]
      · rw [placed, Diagram.nodes_place hq.distinct found, nodes, List.map_map]
        refine List.map_congr_left fun k _ => ?_
        by_cases hz : k.id ∈ zs
        · simp only [Function.comp_apply, List.mem_append, hz, true_or, if_true]
          split <;> rfl
        · simp [hz]
    · rintro _ r ⟨leads, ⟨rfl, _⟩ | cannot⟩
      · exact hq
      · exact hq.lead leads fun hs => absurd ((can hs).congr nesting) cannot

theorem addSubgraph_keeps {g : Subgraph} (named : strict → g.id ≠ .null) :
    Keeps (Sound strict d) (addSubgraph g) := by
  intro p h
  simp only [addSubgraph, ends_bind, ends_diagram]
  refine (checkId_guards g.id).pass (fun _ simple => ?_) fun _ => h
  refine (check_guards ..).pass (fun _ free => ?_) fun _ => h
  refine (check_guards ..).pass (fun _ _ => ?_) fun _ => h
  refine (checkParent_guards g.parent).pass (fun _ can => ?_) fun _ => h
  refine (checkMembers_guards g.members).pass (fun _ _ => ?_) fun _ => h
  simp only [ends_group, ends_change]
  have fresh : g.id ∉ Keyed.keys p.diagram.subgraphs := by
    rw [← Keyed.has_iff]
    simpa [Diagram.hasSubgraph] using free
  have added : Sound strict d
      (Progress.make { p with grouped := true } (.subgraphAdded { g with members := [] })) :=
    h.group.make fresh fun hs =>
      (h.integral hs).addSubgraph fresh (named hs) simple rfl fun some_parent =>
        (can some_parent).2
  refine (moves_ends added fun _ _ => ⟨simple, ?_⟩).imp (fun _ _ ht => ht.1) fun _ _ ht => ht
  exact Keyed.has_iff.mpr (Keyed.mem_keys_put.mpr (Or.inl rfl))

/-- The second half of a change of a subgraph: members move out and in, and then the other
fields change. -/
def refill (id : Value) (others : Fields) (set : Subgraph → Subgraph)
    (outgoing incoming : List Value) : Edit (Option Subgraph) := do
  group
  outgoing.forM fun m => move m .null
  incoming.eraseDups.forM fun m => move m id
  match (← diagram).subgraph? id with
  | none => return none
  | some g =>
    if others.isEmpty then return some g
    change (.subgraphUpdated g (set g))
    return some (set g)

theorem refill_ends {id : Value} {others : Fields} {set : Subgraph → Subgraph} {g : Subgraph}
    {outgoing incoming : List Value} (h : Sound strict d p) (simple : id.isSimple)
    (found : p.diagram.subgraph? id = some g) (set_id : ∀ k, (set k).id = k.id)
    (set_members : ∀ k, (set k).members = k.members)
    (nested : strict → ∀ k, k.parent = g.parent → (set k).parent ≠ .null →
      p.diagram.hasSubgraph (set k).parent ∧
        ¬ Relation.ReflTransGen p.diagram.Under (set k).parent id) :
    Ends (refill id others set outgoing incoming) p (fun _ => Sound strict d)
      fun _ => Sound strict d := by
  simp only [refill, ends_bind, ends_group, ends_diagram]
  refine (moves_ends h.group fun _ h => absurd rfl h).imp ?_ fun _ _ ht => ht
  rintro _ q ⟨hq, out, _⟩
  have there : CanJoin p.diagram id := fun _ => ⟨simple, Keyed.has_of_find? found⟩
  refine (moves_ends hq fun _ => there.congr out).imp ?_ fun _ _ ht => ht
  rintro _ r ⟨hr, into, _⟩
  have nesting : r.diagram.nesting = p.diagram.nesting := into.trans out
  split
  · exact hr
  · rename_i k still
    split
    · exact hr
    · simp only [ends_bind, ends_change, ends_pure]
      have here : k.id = id := Keyed.key_of_find? still
      have now : r.diagram.subgraph? k.id = some k := by rw [here]; exact still
      have parent : k.parent = g.parent := by
        have same := congrArg (Keyed.find? id) nesting
        rw [Diagram.find?_nesting, Diagram.find?_nesting, still, found] at same
        exact congrArg Prod.snd (Option.some.inj same)
      refine hr.make ⟨now, set_id k⟩ fun hs => ?_
      refine (hr.integral hs).putSubgraph (k := k) ((set_id k).symm ▸ now) (set_members k) ?_
      intro some_parent
      have := nested hs k parent some_parent
      rwa [← Diagram.hasSubgraph_congr nesting, ← Diagram.under_congr nesting, ← here,
        ← set_id k] at this

theorem updateSubgraph_keeps (id : Value) {changes : Fields}
    (once : strict → (Keyed.keys changes).Nodup) :
    Keeps (Sound strict d) (updateSubgraph id changes) := by
  intro p h
  simp only [updateSubgraph, ends_bind, ends_diagram]
  refine (checkNames_guards ..).pass (fun _ _ => ?_) fun _ => h
  refine (checkId_guards id).pass (fun _ simple => ?_) fun _ => h
  split
  · exact h
  · rename_i g found
    simp only [ends_bind]
    refine (checkFields_guards ..).pass (fun _ _ => ?_) fun _ => h
    refine (checkNesting_guards ..).pass (fun _ nesting => ?_) fun _ => h
    -- whichever members move, the rest is the same
    have rest : ∀ set outgoing incoming,
        setAll Subgraph.setters (changes.filter fun c => c.1 != "node_ids".toList) = .ok set →
        Ends (refill id (changes.filter fun c => c.1 != "node_ids".toList) set outgoing incoming)
          p (fun _ => Sound strict d) fun _ => Sound strict d := by
      intro set outgoing incoming hset
      refine refill_ends h simple found (setAll_spares spares_subgraph_id hset)
        (setAll_spares spares_subgraph_members hset) fun hs k parent some_parent => ?_
      have named : (set k).parent = (changes.get? "parent_id").getD g.parent := by
        rw [setAll_governs governs_subgraph_parent (by decide)
          (Keyed.nodup_keys_filter (once hs) _) hset, parent]
        have other : ("node_ids".toList : Text) ≠ "parent_id".toList := by decide
        have removed : (changes.filter fun c => c.1 != "node_ids".toList) =
            Keyed.remove "node_ids".toList changes :=
          List.filter_congr fun c _ => by rw [Bool.eq_iff_iff]; simp [Keyed.key]
        rw [removed, Fields.get?, Keyed.find?_remove_of_ne other]
        rfl
      rw [named] at some_parent ⊢
      exact ⟨(nesting.1 some_parent).2, nesting.2 some_parent⟩
    split
    · simp only [ends_bind, ends_pure]
      refine (checkMembers_guards []).pass (fun _ _ => ?_) fun _ => h
      refine (ofExcept_guards _).pass (fun set hset => ?_) fun _ => h
      have := rest set [] [] hset
      simp only [refill, ends_bind] at this
      exact this
    · simp only [ends_bind]
      refine (ofExcept_guards _).pass (fun incoming _ => ?_) fun _ => h
      refine (checkMembers_guards incoming).pass (fun _ _ => ?_) fun _ => h
      refine (ofExcept_guards _).pass (fun set hset => ?_) fun _ => h
      refine (ofExcept_guards _).pass (fun outgoing _ => ?_) fun _ => h
      have := rest set outgoing incoming hset
      simp only [refill, ends_bind] at this
      exact this

/-- What is directly in a subgraph moves up to where the subgraph is. -/
theorem lift_ends (g : Subgraph) (distinct : p.diagram.Distinct)
    {err : Error → Progress → Prop} :
    Ends ((p.diagram.subgraphs.filter fun c => c.parent == g.id).forM fun c =>
        change (.subgraphUpdated c { c with parent := g.parent })) p
      (fun _ q => Leads p q ∧ q.diagram = p.diagram.mapSubgraphs (Subgraph.lift g)) err := by
  have there : ∀ c ∈ p.diagram.subgraphs.filter fun c => c.parent == g.id,
      p.diagram.subgraph? c.id = some c := fun c hc =>
    (Keyed.find?_eq_some_iff distinct.subgraphs).mpr ⟨List.mem_of_mem_filter hc, rfl⟩
  refine (updateSubgraphs_ends (f := fun c => { c with parent := g.parent }) (fun _ => rfl)
    (Keyed.nodup_keys_filter distinct.subgraphs _) distinct there).imp ?_ fun _ _ ht => ht
  rintro _ q ⟨leads, same⟩
  refine ⟨leads, same.trans (Diagram.mapSubgraphs_congr fun c hc => ?_)⟩
  have inside : c.id ∈ Keyed.keys (p.diagram.subgraphs.filter fun c => c.parent == g.id) ↔
      c.parent = g.id := by
    constructor
    · intro mem
      obtain ⟨k, hk, same⟩ := Keyed.exists_of_mem_keys mem
      obtain ⟨hk, parent⟩ := List.mem_filter.mp hk
      rw [← Keyed.eq_of_key_eq distinct.subgraphs hk hc same]
      exact eq_of_beq parent
    · intro parent
      exact Keyed.mem_keys (List.mem_filter.mpr ⟨hc, beq_iff_eq.mpr parent⟩)
  simp only [inside]
  rfl

theorem removeSubgraph_keeps (id : Value) : Keeps (Sound strict d) (removeSubgraph id) := by
  intro p h
  simp only [removeSubgraph, ends_bind, ends_diagram]
  refine (checkId_guards id).pass (fun _ _ => ?_) fun _ => h
  split
  · exact h
  · rename_i g found
    simp only [ends_bind, ends_group, ends_diagram]
    have hg : g ∈ p.diagram.subgraphs := Keyed.mem_of_find? found
    obtain rfl : g.id = id := Keyed.key_of_find? found
    refine (moves_ends h.group fun hs => (h.integral hs).canJoin
      ((h.integral hs).subgraphParent g hg)).imp ?_ fun _ _ ht => ht
    rintro _ q ⟨hq, nesting, nodes⟩
    refine (lift_ends g hq.distinct).imp ?_ fun _ _ ht => ht
    rintro _ r ⟨leads, lifted⟩
    -- the subgraph has kept its place among the others, so what is in it moves to its parent
    obtain ⟨k, still, parent⟩ : ∃ k, q.diagram.subgraph? g.id = some k ∧ k.parent = g.parent := by
      have same := congrArg (Keyed.find? g.id) nesting
      rw [Diagram.find?_nesting, Diagram.find?_nesting, found] at same
      obtain ⟨k, hk, pair⟩ := Option.map_eq_some_iff.mp same
      exact ⟨k, hk, congrArg Prod.snd pair⟩
    have hk : k ∈ q.diagram.subgraphs := Keyed.mem_of_find? still
    have here : k.id = g.id := Keyed.key_of_find? still
    have like : Subgraph.lift g = Subgraph.lift k := by
      funext c
      simp only [Subgraph.lift, here, parent]
    have hr : Sound strict d r := hq.lead leads fun hs => by
      rw [lifted, like]
      exact (hq.integral hs).lift hk
    split
    · exact hr
    · rename_i l now
      simp only [ends_bind, ends_change, ends_pure]
      have hl : l ∈ r.diagram.subgraphs := Keyed.mem_of_find? now
      have at_id : l.id = g.id := Keyed.key_of_find? now
      have fits : r.diagram.subgraph? l.id = some l := by rw [at_id]; exact now
      refine hr.make (c := .subgraphRemoved l) fits fun hs => ?_
      have outside := (h.integral hs).parent_ne_self hg
      refine (hr.integral hs).dropSubgraph hl ?_ ?_
      · refine List.eq_nil_iff_forall_not_mem.mpr fun v hv => ?_
        obtain ⟨n, hn, _, inside⟩ := ((hr.integral hs).members l hl v).mp hv
        rw [lifted, Diagram.nodes_mapSubgraphs, nodes] at hn
        obtain ⟨m, hm, rfl⟩ := List.mem_map.mp hn
        rw [at_id] at inside
        split at inside
        · exact outside inside
        · rename_i other
          exact other (((h.integral hs).members g hg m.id).mpr ⟨m, hm, rfl, inside⟩)
      · intro c hc
        rw [lifted] at hc
        obtain ⟨c, _, rfl⟩ := List.mem_map.mp hc
        rw [at_id]
        exact Subgraph.parent_lift_ne outside c

/-! ### The rest -/

theorem turn_keeps (direction : Direction) : Keeps (Sound strict d) (turn direction) := by
  intro p h
  simp only [turn, ends_bind, ends_diagram]
  split
  · exact h
  · exact h.make (c := .directionChanged _ direction) rfl fun hs =>
      (h.integral hs).turned direction p.diagram.classes

theorem setDirection_keeps (given : Value) : Keeps (Sound strict d) (setDirection given) := by
  intro p h
  simp only [setDirection, ends_bind]
  refine (ofExcept_guards _).pass (fun direction _ => ?_) fun _ => h
  split
  · exact turn_keeps _ p h
  · exact h

theorem changeClasses_keeps (f : List StyleClass → List StyleClass) :
    Keeps (Sound strict d) (changeClasses f) := by
  intro p h
  exact h.lead ((Leads.refl h.distinct).silent rfl rfl) fun hs =>
    (h.integral hs).turned p.diagram.direction (f p.diagram.classes)

theorem clear_keeps : Keeps (Sound strict d) clear := by
  intro p h
  simp only [clear, ends_bind, ends_group, ends_diagram]
  refine (Part.edges.removeKind_ends h.group.distinct.edges h.group.distinct).imp ?_
    fun _ _ ht => ht
  rintro _ q ⟨hq, edges⟩
  refine (Part.subgraphs.removeKind_ends hq.distinct.subgraphs hq.distinct).imp ?_
    fun _ _ ht => ht
  rintro _ r ⟨hr, subgraphs⟩
  refine (Part.nodes.removeKind_ends hr.distinct.nodes hr.distinct).imp ?_ fun _ _ ht => ht
  rintro _ s ⟨hs, nodes⟩
  have emptied : s.diagram = { Diagram.empty with
      direction := p.diagram.direction, classes := p.diagram.classes } := by
    rw [nodes, subgraphs, edges]
    rfl
  have cleared : Sound strict d s := h.group.lead (hq.trans (hr.trans hs)) fun _ => by
    rw [emptied]
    exact Diagram.integral_empty.turned p.diagram.direction p.diagram.classes
  exact (changeClasses_keeps _ s cleared).imp (fun _ t ht => turn_keeps _ t ht) fun _ _ ht => ht

end Edit
end Flowchart
