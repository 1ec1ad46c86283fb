import Flowchart.Edit
import Flowchart.Proofs.Integrity
import Flowchart.Proofs.Outcome

/-! Edits one change at a time, and the moves of nodes between subgraphs. Every edit only makes
changes that fit, so its changes lead a copy from the diagram before it to the diagram after it,
wherever the edit stops. -/
namespace Flowchart

/-- The progress after one more change. -/
def Progress.make (p : Progress) (c : Change) : Progress :=
  { p with diagram := p.diagram.apply c, changes := p.changes ++ [c] }

/-- The changes made from one progress to another lead a copy from the one to the other. -/
structure Progress.Leads (p q : Progress) : Prop where
  distinct : q.diagram.Distinct
  replay : ∃ cs, q.changes = p.changes ++ cs ∧
    p.diagram.bare.replay? cs = some q.diagram.bare

namespace Progress
variable {p q r : Progress}

theorem Leads.refl (h : p.diagram.Distinct) : Leads p p := ⟨h, [], by simp⟩

theorem Leads.trans (h : Leads p q) (h' : Leads q r) : Leads p r := by
  obtain ⟨cs, hq, replay⟩ := h.replay
  obtain ⟨cs', hr, replay'⟩ := h'.replay
  refine ⟨h'.distinct, cs ++ cs', by rw [hr, hq, List.append_assoc], ?_⟩
  rw [Diagram.replay?_append, replay, Option.bind_some, replay']

/-- A change that fits leads on. -/
theorem Leads.make (h : Leads p q) {c : Change} (fits : c.Fits q.diagram) :
    Leads p (q.make c) := by
  refine h.trans ⟨h.distinct.apply c, [c], rfl, ?_⟩
  rw [Diagram.replay?_singleton, Diagram.follow?_eq h.distinct.bare fits.bare]
  exact congrArg some (Diagram.bare_apply q.diagram c).symm

/-- What is told together, and what classes there are, is no change. -/
theorem Leads.silent (h : Leads p q) (changes : r.changes = q.changes)
    (same : r.diagram.bare = q.diagram.bare) : Leads p r := by
  obtain ⟨cs, hq, replay⟩ := h.replay
  have distinct : r.diagram.bare.Distinct := same ▸ h.distinct.bare
  exact ⟨⟨distinct.nodes, distinct.edges, distinct.subgraphs⟩, cs, changes.trans hq,
    replay.trans (congrArg some same.symm)⟩

end Progress

namespace Edit
open Action Progress
variable {p : Progress} {ok : Unit → Progress → Prop} {err : Error → Progress → Prop}

@[simp] theorem ends_change {c : Change} : Ends (change c) p ok err ↔ ok () (p.make c) := Iff.rfl

@[simp] theorem ends_group : Ends group p ok err ↔ ok () { p with grouped := true } := Iff.rfl

@[simp] theorem ends_diagram {ok : Diagram → Progress → Prop} :
    Ends diagram p ok err ↔ ok p.diagram p := Iff.rfl

@[simp] theorem ends_check {holds : Bool} {e : Error} :
    Ends (check holds e) p ok err ↔ if holds then ok () p else err e p := by
  cases holds <;> rfl

@[simp] theorem ends_checkId {id : Value} :
    Ends (checkId id) p ok err ↔ if id.isSimple then ok () p else err .wrongForm p :=
  ends_check

@[simp] theorem ends_ofExcept {α : Type} {r : Except Error α} {ok : α → Progress → Prop} :
    Ends (ofExcept r) p ok err ↔ (∀ x, r = .ok x → ok x p) ∧ ∀ e, r = .error e → err e p :=
  ends_except

/-- Subgraphs are changed one after the other, each as it was at first. -/
theorem updateSubgraphs_ends {f : Subgraph → Subgraph} (id_f : ∀ g, (f g).id = g.id)
    {gs : List Subgraph} (nodup : (Keyed.keys gs).Nodup) (distinct : p.diagram.Distinct)
    (there : ∀ g ∈ gs, p.diagram.subgraph? g.id = some g) :
    Ends (gs.forM fun g => change (.subgraphUpdated g (f g))) p
      (fun _ q => Leads p q ∧ q.diagram =
        p.diagram.mapSubgraphs fun g => if g.id ∈ Keyed.keys gs then f g else g) err := by
  induction gs generalizing p with
  | nil => exact ⟨.refl distinct, (Diagram.mapSubgraphs_self fun _ _ => by simp).symm⟩
  | cons g gs ih =>
    change Ends (change _ >>= fun _ => gs.forM _) p _ err
    rw [ends_bind, ends_change]
    obtain ⟨fresh, rest⟩ := List.nodup_cons.mp nodup
    have here := there g List.mem_cons_self
    have mem : g ∈ p.diagram.subgraphs := Keyed.mem_of_find? here
    have leads : Leads p (p.make (.subgraphUpdated g (f g))) :=
      (Leads.refl distinct).make ⟨here, id_f g⟩
    have first : (p.make (.subgraphUpdated g (f g))).diagram =
        p.diagram.mapSubgraphs fun k => if k.id = g.id then f g else k := by
      have there : Keyed.key (f g) ∈ Keyed.keys p.diagram.subgraphs := by
        rw [Subgraph.key_eq, id_f]
        exact Keyed.mem_keys mem
      simp only [make, Diagram.apply, Diagram.mapSubgraphs,
        Keyed.put_eq_map distinct.subgraphs there, Subgraph.key_eq, id_f]
    refine (ih rest leads.distinct ?_).imp ?_ fun _ _ => id
    · intro k hk
      have other : Keyed.key (f g) ≠ k.id := by
        rw [Subgraph.key_eq, id_f]
        exact fun e => fresh (by rw [Subgraph.key_eq, e]; exact Keyed.mem_keys hk)
      exact (Keyed.find?_put_of_ne other _).trans (there k (List.mem_cons_of_mem g hk))
    · rintro _ q ⟨hq, same⟩
      refine ⟨leads.trans hq, same.trans ?_⟩
      rw [first, Diagram.mapSubgraphs_mapSubgraphs]
      refine Diagram.mapSubgraphs_congr fun k hk => ?_
      by_cases hkg : k.id = g.id
      · have : k = g := Keyed.eq_of_key_eq distinct.subgraphs hk mem hkg
        subst this
        have silent : (f k).id ∉ Keyed.keys gs := by rw [id_f]; exact fresh
        rw [if_pos rfl, if_neg silent, Keyed.keys_cons, Subgraph.key_eq, if_pos List.mem_cons_self]
      · have : k.id ∈ Keyed.keys (g :: gs) ↔ k.id ∈ Keyed.keys gs := by
          rw [Keyed.keys_cons, List.mem_cons]
          exact or_iff_right hkg
        simp only [hkg, this, if_false]

/-- The node leaves every list, and nothing else changes. -/
theorem detach_ends {node : Value} (distinct : p.diagram.Distinct) :
    Ends (detach node) p
      (fun _ q => Leads p q ∧ q.diagram = p.diagram.mapSubgraphs (·.strike node)) err := by
  simp only [detach, ends_bind, ends_diagram]
  have there : ∀ g ∈ p.diagram.subgraphs.filter (·.lists node),
      p.diagram.subgraph? g.id = some g := fun g hg =>
    (Keyed.find?_eq_some_iff distinct.subgraphs).mpr ⟨List.mem_of_mem_filter hg, rfl⟩
  refine (updateSubgraphs_ends (fun g => g.id_strike node)
    (Keyed.nodup_keys_filter distinct.subgraphs _) distinct there).imp ?_ fun _ _ => id
  rintro _ q ⟨hq, same⟩
  refine ⟨hq, same.trans (Diagram.mapSubgraphs_congr fun g hg => ?_)⟩
  split
  · rfl
  · rename_i silent
    refine (Subgraph.strike_eq_self fun member => silent ?_).symm
    exact Keyed.mem_keys (List.mem_filter.mpr ⟨hg, Subgraph.lists_iff.mpr member⟩)

/-- A node that can move: it can be looked up, and is there. -/
def CanMove (d : Diagram) (node : Value) : Prop := node.isSimple ∧ d.hasNode node

/-- A parent that a node can join: none, or a subgraph that exists. -/
def CanJoin (d : Diagram) (parent : Value) : Prop :=
  parent ≠ .null → parent.isSimple ∧ d.hasSubgraph parent

/-- The node joins the list of a parent that exists, and otherwise nothing changes. -/
theorem attachIfAny_ends {node parent : Value} (distinct : p.diagram.Distinct) :
    Ends (attachIfAny node parent) p
      (fun _ q => Leads p q ∧ q.diagram = p.diagram.mapSubgraphs fun g =>
        if g.id = parent ∧ parent ≠ .null then g.enlist node else g)
      (fun _ q => q = p ∧ ¬ CanJoin p.diagram parent) := by
  unfold attachIfAny attach
  split
  · rename_i none
    exact ⟨.refl distinct, (Diagram.mapSubgraphs_self fun g _ => by simp [none]).symm⟩
  · rename_i some_parent
    simp only [ends_bind, ends_checkId, ends_diagram]
    split
    · split
      · rename_i lost
        refine ⟨rfl, fun can => ?_⟩
        have := (can some_parent).2
        rw [Diagram.hasSubgraph, ← Keyed.isSome_find?] at this
        simp [Diagram.subgraph?] at lost
        simp [lost] at this
      · rename_i g found
        have hg : g ∈ p.diagram.subgraphs := Keyed.mem_of_find? found
        have here : g.id = parent := Keyed.key_of_find? found
        split
        · rename_i listed
          refine ⟨.refl distinct, (Diagram.mapSubgraphs_self fun k hk => ?_).symm⟩
          split
          · rename_i hit
            have : k = g := Keyed.eq_of_key_eq distinct.subgraphs hk hg (hit.1.trans here.symm)
            rw [this, Subgraph.enlist, if_pos listed]
          · rfl
        · rw [ends_change]
          refine ⟨(Leads.refl distinct).make ⟨here ▸ found, g.id_enlist node⟩, ?_⟩
          refine (Diagram.put_enlist distinct found node).trans ?_
          simp only [ne_eq, some_parent, not_false_eq_true, and_true]
    · rename_i complex
      exact ⟨trivial, fun can => complex (can some_parent).1⟩

/-- The node leaves its list and joins another one. What fails leaves all nodes as they are. -/
theorem seat_ends (node parent : Value) (distinct : p.diagram.Distinct) :
    Ends (do detach node; attachIfAny node parent) p
      (fun _ q => Leads p q ∧ q.diagram = p.diagram.mapSubgraphs (Subgraph.seat node parent))
      (fun _ q => Leads p q ∧ ¬ CanJoin p.diagram parent) := by
  rw [ends_bind]
  refine (detach_ends distinct).imp ?_ fun _ _ => id
  rintro _ q ⟨hq, detached⟩
  refine (attachIfAny_ends hq.distinct).imp ?_ ?_
  · rintro _ r ⟨hr, attached⟩
    refine ⟨hq.trans hr, ?_⟩
    rw [attached, detached, Diagram.mapSubgraphs_mapSubgraphs]
    rfl
  · rintro _ r ⟨rfl, cannot⟩
    refine ⟨hq, fun can => cannot fun some_parent => ⟨(can some_parent).1, ?_⟩⟩
    rw [detached, Diagram.hasSubgraph_mapSubgraphs fun g => g.id_strike node]
    exact (can some_parent).2

/-- A node that exists moves to a parent that it can join. A failure for any other reason than
the parent is that of the node, and comes before all changes. -/
theorem move_ends {node parent : Value} (distinct : p.diagram.Distinct) :
    Ends (move node parent) p
      (fun _ q => Leads p q ∧ ∃ n, p.diagram.node? node = some n ∧
        q.diagram = p.diagram.place { n with parent })
      (fun _ q => Leads p q ∧ (q = p ∧ ¬ CanMove p.diagram node ∨ ¬ CanJoin p.diagram parent)) := by
  simp only [move, ends_bind, ends_checkId, ends_diagram]
  split
  · split
    · rename_i lost
      refine ⟨.refl distinct, Or.inl ⟨rfl, fun can => ?_⟩⟩
      have there : (Keyed.find? node p.diagram.nodes).isSome := Keyed.isSome_find?.trans can.2
      rw [show Keyed.find? node p.diagram.nodes = none from lost] at there
      cases there
    · rename_i n found
      have here : n.id = node := Keyed.key_of_find? found
      have seat := seat_ends node parent distinct
      simp only [ends_bind] at seat ⊢
      refine seat.imp (fun _ q hq => hq.imp ?_ fun _ _ h => ⟨h.1, Or.inr h.2⟩)
        fun _ _ h => ⟨h.1, Or.inr h.2⟩
      rintro _ r ⟨hr, seated⟩
      have there : r.diagram.node? n.id = some n := by
        rw [seated, here]
        exact found
      split
      · rename_i same
        refine ends_pure.mpr ⟨hr, n, found, ?_⟩
        rw [seated, Diagram.place, ← same, here, Keyed.put_self (here ▸ found)]
        rfl
      · rw [ends_change]
        refine ⟨hr.make ⟨there, rfl⟩, n, found, ?_⟩
        simp only [make, Diagram.apply, seated, Diagram.place, here]
        rfl
  · rename_i complex
    exact ⟨.refl distinct, Or.inl ⟨trivial, fun can => complex can.1⟩⟩

end Edit
end Flowchart
