import Flowchart.Proofs.Forest
import Flowchart.Proofs.Moves
import Flowchart.Proofs.Quiet

/-! Subgraphs that go while what is in them stays. Their nodes and the subgraphs directly in them
move up to where they were, and so exactly one level of nesting is gone: around everything that is
left are the same subgraphs as before, in the same order, without the one. -/
namespace Flowchart
open Action Progress Relation

/-- What is around something when a subgraph has gone: the parent of that one, if that one was. -/
def Subgraph.above (gone : Subgraph) (parent : Value) : Value :=
  if parent = gone.id then gone.parent else parent

/-- The subgraph when one has gone: if it was directly in that one it is where that one was, and if
it was directly around it, it lists the nodes of that one last. -/
def Subgraph.inherit (g gone : Subgraph) : Subgraph :=
  { g with
    parent := gone.above g.parent
    members := if g.id = gone.parent then g.members ++ gone.members else g.members }

theorem Subgraph.lift_eq (gone g : Subgraph) :
    Subgraph.lift gone g = { g with parent := gone.above g.parent } := by
  unfold lift above
  split <;> rfl

namespace Diagram

/-- The diagram without a subgraph, and with everything in it moved up. -/
def dissolved (d : Diagram) (g : Subgraph) : Diagram :=
  { d with
    nodes := d.nodes.map (Node.regroup g.members g.parent)
    subgraphs := (Keyed.remove g.id d.subgraphs).map (·.inherit g) }

/-- The ids of the subgraphs around what has a parent, from the inside outwards. -/
def chain (d : Diagram) (parent : Value) : List Value :=
  if parent = .null then [] else Edit.enclosing d parent

/-- The same without a bound: an outermost place, or a step to the parent of a subgraph. -/
inductive Around (d : Diagram) : Value → List Value → Prop
  | nothing : d.Around .null []
  | inside {id : Value} {g : Subgraph} {ids : List Value} (some_id : id ≠ .null)
    (found : d.subgraph? id = some g) (outer : d.Around g.parent ids) : d.Around id (id :: ids)

variable {d : Diagram}

namespace Around
variable {v : Value} {ids : List Value}

theorem null_iff (h : d.Around v ids) : v = .null ↔ ids = [] := by
  cases h with
  | nothing => simp
  | inside some_id _ _ => simp [some_id]

theorem reaches (h : d.Around v ids) : ∀ w ∈ ids, ReflTransGen d.Under v w := by
  induction h with
  | nothing => simp
  | inside some_id found outer ih =>
    intro w hw
    rcases List.mem_cons.mp hw with rfl | hw
    · exact .refl
    · have some_parent := mt outer.null_iff.mp (List.ne_nil_of_mem hw)
      exact .head ⟨_, found, rfl, some_parent⟩ (ih w hw)

theorem nodup (acyclic : d.Acyclic) (h : d.Around v ids) : ids.Nodup := by
  induction h with
  | nothing => exact List.nodup_nil
  | @inside id g ids some_id found outer ih =>
    refine List.nodup_cons.mpr ⟨fun again => ?_, ih⟩
    have some_parent := mt outer.null_iff.mp (List.ne_nil_of_mem again)
    exact acyclic id (.head' ⟨g, found, rfl, some_parent⟩ (outer.reaches id again))

theorem known (h : d.Around v ids) : ids ⊆ Keyed.keys d.subgraphs := by
  induction h with
  | nothing => exact List.nil_subset _
  | inside _ found _ ih =>
    exact List.cons_subset.mpr ⟨Keyed.has_iff.mp (Keyed.has_of_find? found), ih⟩

/-- The way up that edits look along, with room for all of it. -/
theorem wayUp (h : d.Around v ids) (some_id : v ≠ .null) {n : Nat} (enough : ids.length ≤ n) :
    Edit.wayUp d n v = ids := by
  induction h generalizing n with
  | nothing => exact absurd rfl some_id
  | inside _ found outer ih =>
    cases n with
    | zero => cases enough
    | succ n =>
      rw [Edit.wayUp, found]
      simp only [outer.null_iff]
      split
      · rename_i last
        rw [last]
      · rename_i more
        rw [ih (mt outer.null_iff.mp more) (Nat.le_of_succ_le_succ enough)]

theorem chain_eq (h : d.Around v ids) (acyclic : d.Acyclic) : d.chain v = ids := by
  rw [chain]
  split
  · rename_i outside
    exact (h.null_iff.mp outside).symm
  · rename_i some_id
    have few := (List.subperm_of_subset (h.nodup acyclic) h.known).length_le
    rw [Keyed.keys, List.length_map] at few
    exact h.wayUp some_id (Nat.le_succ_of_le few)

end Around

namespace Integral

/-- Whatever is in a subgraph is, at last, in an outermost one. -/
theorem around_chain (h : d.Integral) {v : Value} (there : v ≠ .null → d.hasSubgraph v) :
    d.Around v (d.chain v) := by
  suffices ∃ ids, d.Around v ids by
    obtain ⟨ids, around⟩ := this
    rwa [around.chain_eq h.acyclic]
  by_cases outside : v = .null
  · exact ⟨[], outside ▸ .nothing⟩
  obtain ⟨k, hk, rfl⟩ := hasSubgraph_iff.mp (there outside)
  obtain ⟨g, hg, way⟩ := h.exists_outermost hk
  obtain ⟨hg, top⟩ := h.mem_outermost.mp hg
  have found : d.subgraph? g.id = some g :=
    (Keyed.find?_eq_some_iff h.distinct.subgraphs).mpr ⟨hg, rfl⟩
  have last : d.Around g.id [g.id] := .inside (h.named g hg) found (top ▸ .nothing)
  clear outside there
  generalize k.id = v at way
  induction way using ReflTransGen.head_induction_on with
  | refl => exact ⟨_, last⟩
  | @head a _ step _ ih =>
    obtain ⟨l, found, rfl, _⟩ := step
    obtain ⟨ids, around⟩ := ih
    have here : l.id = a := Keyed.key_of_find? found
    exact ⟨_, .inside (here ▸ h.named l (Keyed.mem_of_find? found)) found around⟩

/-- A node is listed by the subgraph that it is in, and by no other. -/
theorem listed_iff (h : d.Integral) {g : Subgraph} (hg : g ∈ d.subgraphs) {n : Node}
    (hn : n ∈ d.nodes) : n.id ∈ g.members ↔ n.parent = g.id := by
  rw [h.members g hg]
  constructor
  · rintro ⟨m, hm, same, inside⟩
    rwa [← Keyed.eq_of_key_eq h.distinct.nodes hm hn same]
  · exact fun inside => ⟨n, hn, rfl, inside⟩

theorem parent_regroup (h : d.Integral) {g : Subgraph} (hg : g ∈ d.subgraphs) {n : Node}
    (hn : n ∈ d.nodes) : (n.regroup g.members g.parent).parent = g.above n.parent := by
  simp only [Node.regroup, Subgraph.above, h.listed_iff hg hn]
  split <;> rfl

theorem disjoint_members (h : d.Integral) {g k : Subgraph} (hg : g ∈ d.subgraphs)
    (hk : k ∈ d.subgraphs) (other : k.id ≠ g.id) : List.Disjoint k.members g.members := by
  intro v hv hv'
  obtain ⟨n, hn, rfl, inside⟩ := (h.members k hk v).mp hv
  exact other (inside.symm.trans ((h.listed_iff hg hn).mp hv'))

/-- To lift a subgraph whose nodes have moved is to have it inherit. -/
theorem inherit_eq (h : d.Integral) {g k : Subgraph} (hg : g ∈ d.subgraphs)
    (hk : k ∈ d.subgraphs) (other : k.id ≠ g.id) :
    Subgraph.lift g (k.regroup g.members g.parent) = k.inherit g := by
  have others : k.members.filter (· ∉ g.members) = k.members :=
    List.filter_eq_self.mpr fun v hv => by simpa using h.disjoint_members hg hk other hv
  have around : (k.id = g.parent ∧ g.parent ≠ .null) ↔ k.id = g.parent :=
    and_iff_left_of_imp fun same => same ▸ h.named k hk
  rw [Subgraph.lift_eq]
  simp only [Subgraph.regroup, Subgraph.inherit, others, around]
  split <;> simp

end Integral

/-- Around everything are the same subgraphs as before, without the one that has gone. -/
theorem Around.dissolved (h : d.Integral) {g : Subgraph} (hg : g ∈ d.subgraphs) {v : Value}
    {ids : List Value} (around : d.Around v ids) :
    (d.dissolved g).Around (g.above v) (ids.filter (· ≠ g.id)) := by
  induction around with
  | nothing =>
    have outside : g.above .null = .null := if_neg (h.named g hg).symm
    rw [outside]
    exact .nothing
  | @inside id k ids some_id found _ ih =>
    by_cases gone : id = g.id
    · have here : d.subgraph? id = some g :=
        (Keyed.find?_eq_some_iff h.distinct.subgraphs).mpr ⟨hg, gone.symm⟩
      obtain rfl : k = g := Option.some.inj (found.symm.trans here)
      have up : k.above k.parent = k.above id := by
        simp [Subgraph.above, gone]
      simpa [gone, up] using ih
    · have left : (d.dissolved g).subgraph? id = some (k.inherit g) := by
        have same := Keyed.find?_map (f := (·.inherit g)) (fun _ => rfl) id
          (Keyed.remove g.id d.subgraphs)
        rw [Keyed.find?_remove_of_ne (Ne.symm gone)] at same
        exact same.trans (congrArg (Option.map _) found)
      have stays : g.above id = id := if_neg gone
      rw [stays, List.filter_cons_of_pos (by simpa using gone)]
      exact .inside some_id left ih

/-- To move the nodes of a subgraph, lift the subgraphs in it and remove it is to dissolve it. -/
theorem Integral.dissolved_eq (h : d.Integral) {g : Subgraph} (hg : g ∈ d.subgraphs) :
    { (d.regrouped g.members g.parent).mapSubgraphs (Subgraph.lift g) with
      subgraphs := Keyed.remove g.id
        ((d.regrouped g.members g.parent).mapSubgraphs (Subgraph.lift g)).subgraphs } =
      d.dissolved g := by
  have left : Keyed.remove g.id
      ((d.subgraphs.map (Subgraph.regroup g.members g.parent)).map (Subgraph.lift g)) =
      (Keyed.remove g.id d.subgraphs).map (·.inherit g) := by
    rw [List.map_map, Keyed.remove, List.filter_map]
    have kept : ((fun x => Keyed.key x != g.id) ∘ Subgraph.lift g ∘
        Subgraph.regroup g.members g.parent) = fun x : Subgraph => Keyed.key x != g.id := by
      funext k
      simp [Subgraph.key_eq, Subgraph.regroup]
    rw [kept]
    refine List.map_congr_left fun k hk => ?_
    obtain ⟨hk, other⟩ := Keyed.mem_remove.mp hk
    exact h.inherit_eq hg hk other
  exact congrArg (fun subgraphs => { d with nodes := (d.dissolved g).nodes, subgraphs }) left

end Diagram

namespace Edit
variable {p : Progress}

/-- A subgraph goes, and leaves everything that is in it one level further out. -/
theorem removeSubgraph_ends {id : Value} {g : Subgraph} (sturdy : p.diagram.Sturdy)
    (found : p.diagram.subgraph? id = some g) :
    Ends (removeSubgraph id) p
      (fun done q => done = true ∧ q.diagram = p.diagram.dissolved g) fun _ _ => False := by
  obtain rfl : g.id = id := Keyed.key_of_find? found
  have hg : g ∈ p.diagram.subgraphs := Keyed.mem_of_find? found
  have h := sturdy.integral
  simp only [removeSubgraph, ends_bind, ends_checkId, h.simple g hg, if_true, ends_diagram, found,
    ends_group]
  refine (moves_exactly (p := { p with grouped := true }) h.distinct h.membersNodup
    (h.membersNodup g hg) (h.canJoin (h.subgraphParent g hg))
    (sturdy.canMove_members hg)).imp ?_ fun _ _ => id
  intro _ q moved
  have distinct : q.diagram.Distinct := moved ▸ h.distinct.regrouped
  refine (lift_ends g distinct).imp ?_ fun _ _ => id
  rintro _ r ⟨_, lifted⟩
  rw [moved] at lifted
  have there : r.diagram.hasSubgraph g.id := by
    rw [lifted, Diagram.hasSubgraph_mapSubgraphs (Subgraph.id_lift g), Diagram.hasSubgraph,
      Keyed.has_eq_keys Diagram.keys_subgraphs_regrouped]
    exact Keyed.has_of_find? found
  obtain ⟨l, now⟩ := Option.isSome_iff_exists.mp (Keyed.isSome_find?.trans there)
  have now : r.diagram.subgraph? g.id = some l := now
  simp only [now, ends_bind, ends_change, ends_pure]
  simp only [make, Diagram.apply, lifted, true_and]
  rw [show l.id = g.id from Keyed.key_of_find? now]
  exact h.dissolved_eq hg

end Edit

namespace Diagram
variable {d : Diagram}

theorem Sturdy.dissolved (h : d.Sturdy) {g : Subgraph} (hg : g ∈ d.subgraphs) :
    (d.dissolved g).Integral := by
  have found : d.subgraph? g.id = some g :=
    (Keyed.find?_eq_some_iff h.integral.distinct.subgraphs).mpr ⟨hg, rfl⟩
  have sound : Sound True d { diagram := d } := ⟨h.integral.distinct, rfl, fun _ => h.integral⟩
  have both := (Edit.removeSubgraph_keeps g.id _ sound).and (Edit.removeSubgraph_ends h found)
  have whole : Ends (Edit.removeSubgraph g.id) { diagram := d }
      (fun _ _ => (d.dissolved g).Integral) fun _ _ => (d.dissolved g).Integral :=
    both.imp (fun _ _ ht => ht.2.2 ▸ ht.1.integral trivial) fun _ _ ht => ht.2.elim
  exact whole.state

/-- The way out of everything that has a parent leads past one subgraph less. -/
theorem Sturdy.chain_dissolved (h : d.Sturdy) {g : Subgraph} (hg : g ∈ d.subgraphs) {v : Value}
    (there : v ≠ .null → d.hasSubgraph v) :
    (d.dissolved g).chain (g.above v) = (d.chain v).filter (· ≠ g.id) :=
  ((h.integral.around_chain there).dissolved h.integral hg).chain_eq (h.dissolved hg).acyclic

end Diagram

namespace Editor
variable {e : Editor} {id : Value} {g : Subgraph}

/-- The removal of a subgraph takes away one level of nesting. Its nodes and the subgraphs directly
in it get its parent, which lists the nodes after its own, and nothing else changes; around every
node and every other subgraph there are the same subgraphs as before without it, in the same order.
What the edit makes does not depend on who listens, and quiet listeners leave it as it is. -/
theorem removal_lifts (sturdy : e.diagram.Sturdy) (found : e.diagram.subgraph? id = some g) :
    let d := e.diagram
    let after := d.dissolved g
    Ends (Edit.removeSubgraph id) e.opening (fun done p => done = true ∧ p.diagram = after)
      (fun _ _ => False) ∧
    (e.IsQuiet → Ends (run (.removeSubgraph id)) e
      (fun answer t => answer = .truth true ∧ t.diagram = after) fun _ _ => False) ∧
    (∀ n ∈ d.nodes,
      after.chain (n.regroup g.members g.parent).parent = (d.chain n.parent).filter (· ≠ id)) ∧
    ∀ k ∈ d.subgraphs, k.id ≠ id →
      after.chain (k.inherit g).parent = (d.chain k.parent).filter (· ≠ id) := by
  intro d after
  have hg : g ∈ d.subgraphs := Keyed.mem_of_find? found
  have here : g.id = id := Keyed.key_of_find? found
  have ends : Ends (Edit.removeSubgraph id) e.opening
      (fun done p => done = true ∧ p.diagram = after) fun _ _ => False :=
    Edit.removeSubgraph_ends sturdy found
  refine ⟨ends, fun quiet => ?_, fun n hn => ?_, fun k hk _ => ?_⟩
  · have made := perform_passes quiet (e.due + weight (.removeSubgraph id))
      (fun done p => done = true ∧ p = after) (fun _ => False)
      (ends.imp (fun _ _ ht => ht) fun _ _ => False.elim)
    simp only [run, obey, removeSubgraph, ends_bind, ends_get, ends_pure]
    refine made.imp ?_ fun _ _ ht => ht.2
    rintro ⟨_, _⟩ t ⟨⟨rfl, same⟩, _⟩
    exact ⟨rfl, same⟩
  · rw [sturdy.integral.parent_regroup hg hn, ← here]
    exact sturdy.chain_dissolved hg (sturdy.integral.nodeParent n hn)
  · rw [← here]
    exact sturdy.chain_dissolved hg (sturdy.integral.subgraphParent k hk)

/-- Three subgraphs inside one another. The outermost one and the middle one list nodes of their
own, the middle one in another order than that of the diagram. -/
def nested : List Command := [
  .addNode (.bare (.text "A")),
  .addNode (.bare (.text "B")),
  .addNode (.bare (.text "C")),
  .addNode (.bare (.text "D")),
  .addSubgraph { id := .text "outer", title := .text "outer", members := [.text "D"] },
  .addSubgraph {
    id := .text "middle", title := .text "middle", parent := .text "outer"
    members := [.text "C", .text "A"] },
  .addSubgraph {
    id := .text "inner", title := .text "inner", parent := .text "middle"
    members := [.text "B"] },
  .subscribe "listener" .watch]

set_option maxRecDepth 4000 in
theorem nested_removal_lifts :
    let e := (ofDiagram .empty).after nested
    ∃ t, (run (.removeSubgraph (.text "middle"))).run.run e = (.ok (.truth true), t) ∧
      t.diagram.nodes.map (fun n => (n.id, t.diagram.chain n.parent)) = [
        (.text "A", [.text "outer"]), (.text "B", [.text "inner", .text "outer"]),
        (.text "C", [.text "outer"]), (.text "D", [.text "outer"])] ∧
      t.diagram.subgraphs.map (fun k => (k.id, k.members)) = [
        (.text "outer", [.text "D", .text "C", .text "A"]), (.text "inner", [.text "B"])] := by
  intro e
  let g : Subgraph := {
    id := .text "middle", title := .text "middle", parent := .text "outer"
    members := [.text "C", .text "A"] }
  have sturdy : e.diagram.Sturdy := sturdy_after ⟨Diagram.integral_empty, Diagram.has_empty⟩
    (by simp [nested, Command.IsProper, Command.reactsProperly])
  have found : e.diagram.subgraph? (.text "middle") = some g := by decide +kernel
  have quiet : e.IsQuiet := by
    have known : e.known = [{ name := "listener", reaction := .watch }] := rfl
    simp [IsQuiet, known, Command.reactsQuietly]
  have nodes : ((e.diagram.dissolved g).nodes.map fun n =>
      (n.id, (e.diagram.dissolved g).chain n.parent)) = [
        (.text "A", [.text "outer"]), (.text "B", [.text "inner", .text "outer"]),
        (.text "C", [.text "outer"]), (.text "D", [.text "outer"])] := by decide +kernel
  have subgraphs : (e.diagram.dissolved g).subgraphs.map (fun k => (k.id, k.members)) = [
      (.text "outer", [.text "D", .text "C", .text "A"]), (.text "inner", [.text "B"])] := by
    decide +kernel
  clear_value e
  have lifts := (removal_lifts sturdy found).2.1 quiet
  unfold Ends at lifts
  rcases result : (run (.removeSubgraph (.text "middle"))).run.run e with ⟨failure | answer, t⟩
  · rw [result] at lifts
    exact lifts.elim
  · rw [result] at lifts
    obtain ⟨rfl, same⟩ := lifts
    exact ⟨t, rfl, same ▸ nodes, same ▸ subgraphs⟩

end Editor
end Flowchart
