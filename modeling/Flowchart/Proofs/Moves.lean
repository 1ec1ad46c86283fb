import Flowchart.Proofs.Edits

/-! Nodes that move into a subgraph, or out of all, one after the other. Afterwards the subgraph
lists its other members first and then those that moved, in the order in which they did, and no
other subgraph lists any of them. -/
namespace Flowchart
open Action Progress

/-- The node when nodes have moved: it has their new parent if it is one of them. -/
def Node.regroup (nodes : List Value) (parent : Value) (n : Node) : Node :=
  if n.id ∈ nodes then { n with parent } else n

/-- The subgraph when nodes have moved: it lists them last if they moved into it, and not at all
otherwise. -/
def Subgraph.regroup (nodes : List Value) (parent : Value) (g : Subgraph) : Subgraph :=
  { g with members :=
      g.members.filter (· ∉ nodes) ++ if g.id = parent ∧ parent ≠ .null then nodes else [] }

/-- The diagram when nodes have moved. -/
def Diagram.regrouped (d : Diagram) (nodes : List Value) (parent : Value) : Diagram :=
  { d with
    nodes := d.nodes.map (Node.regroup nodes parent)
    subgraphs := d.subgraphs.map (Subgraph.regroup nodes parent) }

namespace Node
variable {nodes : List Value} {parent x : Value}

theorem regroup_nil (n : Node) : n.regroup [] parent = n := if_neg List.not_mem_nil

@[simp] theorem id_regroup (n : Node) : (n.regroup nodes parent).id = n.id := by
  unfold regroup
  split <;> rfl

/-- One more node has moved. -/
theorem regroup_append (n : Node) :
    (if (n.regroup nodes parent).id = x then { n.regroup nodes parent with parent }
      else n.regroup nodes parent) = n.regroup (nodes ++ [x]) parent := by
  by_cases before : n.id ∈ nodes <;> simp [regroup, before]

end Node

namespace Subgraph
variable {g : Subgraph} {nodes : List Value} {parent x : Value}

theorem regroup_nil : g.regroup [] parent = g := by simp [regroup]

theorem strike_regroup (nodup : g.members.Nodup) (new : x ∉ nodes) :
    (g.regroup nodes parent).strike x =
      { g with members := g.members.filter (· ∉ nodes ++ [x]) ++
          if g.id = parent ∧ parent ≠ .null then nodes else [] } := by
  have left : (g.members.filter (· ∉ nodes)).erase x =
      g.members.filter (· ∉ nodes ++ [x]) := by
    rw [(nodup.filter _).erase_eq_filter, List.filter_filter]
    refine List.filter_congr fun v _ => ?_
    simp [bne, beq_eq_decide, and_comm]
  have last : x ∉ if g.id = parent ∧ parent ≠ .null then nodes else [] := by
    split
    · exact new
    · exact List.not_mem_nil
  simp only [strike, regroup, List.erase_append, List.erase_of_not_mem last, left]
  split
  · rfl
  · rename_i other
    rw [← left, List.erase_of_not_mem other]

/-- One more node has moved. -/
theorem seat_regroup (nodup : g.members.Nodup) (new : x ∉ nodes) :
    (g.regroup nodes parent).seat x parent = g.regroup (nodes ++ [x]) parent := by
  unfold seat
  rw [strike_regroup nodup new]
  by_cases here : g.id = parent ∧ parent ≠ .null
  · simp [regroup, enlist, lists, here, new]
  · simp [regroup, here]

theorem nodup_regroup (nodup : g.members.Nodup) (once : nodes.Nodup) :
    (g.regroup nodes parent).members.Nodup := by
  unfold regroup
  split
  · refine (nodup.filter _).append once fun v hv mem => ?_
    exact of_decide_eq_true (List.mem_filter.mp hv).2 mem
  · rw [List.append_nil]
    exact nodup.filter _

end Subgraph

namespace Diagram
variable {d : Diagram} {nodes : List Value} {parent x : Value}

theorem regrouped_nil (d : Diagram) (parent : Value) : d.regrouped [] parent = d := by
  have nodes : Node.regroup [] parent = id := funext Node.regroup_nil
  have subgraphs : Subgraph.regroup [] parent = id := funext fun _ => Subgraph.regroup_nil
  simp [regrouped, nodes, subgraphs]

theorem keys_nodes_regrouped :
    Keyed.keys (d.regrouped nodes parent).nodes = Keyed.keys d.nodes :=
  Keyed.keys_map Node.id_regroup d.nodes

theorem keys_subgraphs_regrouped :
    Keyed.keys (d.regrouped nodes parent).subgraphs = Keyed.keys d.subgraphs :=
  Keyed.keys_map (f := Subgraph.regroup nodes parent) (fun _ => rfl) d.subgraphs

@[simp] theorem nesting_regrouped : (d.regrouped nodes parent).nesting = d.nesting := by
  simp [nesting, regrouped, Subgraph.regroup]

theorem Distinct.regrouped (distinct : d.Distinct) : (d.regrouped nodes parent).Distinct where
  nodes := keys_nodes_regrouped.symm ▸ distinct.nodes
  edges := distinct.edges
  subgraphs := keys_subgraphs_regrouped.symm ▸ distinct.subgraphs

theorem membersNodup_regrouped (members : ∀ g ∈ d.subgraphs, g.members.Nodup)
    (once : nodes.Nodup) : ∀ g ∈ (d.regrouped nodes parent).subgraphs, g.members.Nodup := by
  intro g hg
  obtain ⟨k, hk, rfl⟩ := List.mem_map.mp hg
  exact Subgraph.nodup_regroup (members k hk) once

theorem canMove_regrouped :
    Edit.CanMove (d.regrouped nodes parent) x ↔ Edit.CanMove d x := by
  rw [Edit.CanMove, Edit.CanMove, hasNode, Keyed.has_eq_keys keys_nodes_regrouped, hasNode]

/-- A diagram in which nodes have moved is one in which one more has. -/
theorem place_regrouped (distinct : d.Distinct) (once : ∀ g ∈ d.subgraphs, g.members.Nodup)
    (new : x ∉ nodes) {n : Node} (found : (d.regrouped nodes parent).node? x = some n) :
    (d.regrouped nodes parent).place { n with parent } = d.regrouped (nodes ++ [x]) parent := by
  have here : n.id = x := Keyed.key_of_find? found
  have seated : (d.regrouped nodes parent).subgraphs.map (Subgraph.seat x parent) =
      d.subgraphs.map (Subgraph.regroup (nodes ++ [x]) parent) := by
    rw [regrouped, List.map_map]
    exact List.map_congr_left fun g hg => Subgraph.seat_regroup (once g hg) new
  have nodes_now : ((d.regrouped nodes parent).place { n with parent }).nodes =
      d.nodes.map (Node.regroup (nodes ++ [x]) parent) := by
    rw [nodes_place distinct.regrouped found, regrouped, List.map_map]
    exact List.map_congr_left fun m _ => m.regroup_append
  rw [← here] at seated
  calc (d.regrouped nodes parent).place { n with parent }
    _ = { d with
          nodes := ((d.regrouped nodes parent).place { n with parent }).nodes
          subgraphs := (d.regrouped nodes parent).subgraphs.map (Subgraph.seat n.id parent) } := rfl
    _ = d.regrouped (nodes ++ [x]) parent := by rw [nodes_now, seated, here]; rfl

end Diagram

namespace Edit
variable {p : Progress}

/-- Nodes that are there move one after the other, and none of the moves fails. -/
theorem moves_exactly {xs : List Value} {parent : Value} (distinct : p.diagram.Distinct)
    (members : ∀ g ∈ p.diagram.subgraphs, g.members.Nodup) (once : xs.Nodup)
    (can : CanJoin p.diagram parent) (all : ∀ x ∈ xs, CanMove p.diagram x) :
    Ends (xs.forM fun x => move x parent) p (fun _ q => q.diagram = p.diagram.regrouped xs parent)
      fun _ _ => False := by
  have walk := ends_forM
    (fun ys q => ∃ zs, xs = zs ++ ys ∧ q.diagram = p.diagram.regrouped zs parent)
    (fun x => move x parent) (fun _ _ => False) ?_ xs ⟨[], rfl, (Diagram.regrouped_nil ..).symm⟩
  · refine walk.imp ?_ fun _ _ => id
    rintro _ q ⟨zs, rfl, moved⟩
    rwa [List.append_nil]
  · rintro x ys q ⟨zs, rfl, moved⟩
    have mem : x ∈ zs ++ x :: ys := by simp
    have new : x ∉ zs := fun old => List.disjoint_of_nodup_append once old List.mem_cons_self
    have still : q.diagram.Distinct := moved ▸ distinct.regrouped
    refine (move_ends still).imp ?_ ?_
    · rintro _ r ⟨_, n, found, placed⟩
      rw [moved] at found placed
      refine ⟨zs ++ [x], by simp, placed.trans ?_⟩
      exact Diagram.place_regrouped distinct members new found
    · rintro _ r ⟨_, ⟨_, cannot⟩ | cannot⟩
      · exact cannot (moved ▸ Diagram.canMove_regrouped.mpr (all x mem))
      · exact cannot (moved ▸ can.congr Diagram.nesting_regrouped)

end Edit
end Flowchart
