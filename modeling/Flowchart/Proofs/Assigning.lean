import Flowchart.Proofs.Lifting
import Flowchart.Proofs.Positions

/-! Members that a subgraph is given. Those it has and is not given leave it, and then those it is
given join it one after the other, wherever they come from. Afterwards it lists exactly what it was
given, each node at its first place, and every other subgraph lists what is left to it. -/
namespace Flowchart
open Action Progress

/-- The node when a subgraph has been given members. -/
def Node.assign (n : Node) (id : Value) (members : List Value) : Node :=
  { n with parent := if n.id ∈ members then id else if n.parent = id then .null else n.parent }

/-- The subgraph when one has been given members. -/
def Subgraph.assign (g : Subgraph) (id : Value) (members : List Value) : Subgraph :=
  { g with members :=
      if g.id = id then members.eraseDups else g.members.filter (· ∉ members) }

/-- The diagram when a subgraph has been given members. -/
def Diagram.assigned (d : Diagram) (id : Value) (members : List Value) : Diagram :=
  { d with
    nodes := d.nodes.map (·.assign id members)
    subgraphs := d.subgraphs.map (·.assign id members) }

theorem Diagram.subgraph?_assigned (d : Diagram) (id : Value) (members : List Value) (v : Value) :
    (d.assigned id members).subgraph? v = (d.subgraph? v).map (·.assign id members) :=
  Keyed.find?_map (f := fun g : Subgraph => g.assign id members) (fun _ => rfl) v d.subgraphs

namespace Diagram.Integral
variable {d : Diagram} {g : Subgraph}

/-- To send out the members that a subgraph does not keep, and have the others join it, is to give
it the members. -/
theorem regrouped_twice (h : d.Integral) (hg : g ∈ d.subgraphs) (members : List Value) :
    (d.regrouped (g.members.filter (· ∉ members)) .null).regrouped members.eraseDups g.id =
      d.assigned g.id members := by
  have nodes : ∀ n ∈ d.nodes, (Node.regroup members.eraseDups g.id ∘
      Node.regroup (g.members.filter (· ∉ members)) .null) n = n.assign g.id members := by
    intro n hn
    have inside := h.listed_iff hg hn
    by_cases given : n.id ∈ members <;> by_cases here : n.parent = g.id <;>
      simp [Node.regroup, Node.assign, given, here, inside]
  have subgraphs : ∀ k ∈ d.subgraphs, (Subgraph.regroup members.eraseDups g.id ∘
      Subgraph.regroup (g.members.filter (· ∉ members)) .null) k = k.assign g.id members := by
    intro k hk
    by_cases here : k.id = g.id
    · obtain rfl := Keyed.eq_of_key_eq h.distinct.subgraphs hk hg here
      have gone : (k.members.filter (· ∉ k.members.filter (· ∉ members))).filter
          (· ∉ members) = [] := by
        simp only [List.filter_filter, List.filter_eq_nil_iff, List.mem_filter]
        intro v hv
        simp [hv]
      simpa [Subgraph.regroup, Subgraph.assign, h.named k hg] using gone
    · have kept : k.members.filter (· ∉ g.members.filter (· ∉ members)) = k.members :=
        List.filter_eq_self.mpr fun v hv => decide_eq_true fun gone =>
          h.disjoint_members hg hk here hv (List.mem_of_mem_filter gone)
      simp only [Function.comp_apply, Subgraph.regroup, Subgraph.assign, kept, here]
      simp
  simp only [regrouped, assigned, List.map_map]
  rw [List.map_congr_left nodes, List.map_congr_left subgraphs]

theorem simple_chain (h : d.Integral) {v : Value} (there : v ≠ .null → d.hasSubgraph v) :
    ∀ w ∈ d.chain v, w.isSimple := by
  intro w hw
  obtain ⟨k, hk, rfl⟩ := Keyed.exists_of_mem_keys ((h.around_chain there).known hw)
  exact h.simple k hk

end Diagram.Integral

namespace Edit
variable {p : Progress} {g : Subgraph}

/-- What a subgraph has for its parent it may keep. -/
theorem checkNesting_passes (h : p.diagram.Integral) (hg : g ∈ p.diagram.subgraphs) :
    Ends (checkNesting g.id g.parent) p (fun _ q => q = p) fun _ _ => False := by
  have there := h.subgraphParent g hg
  rw [checkNesting, ends_bind]
  refine (checkParent_passes (h.canJoin there)).imp ?_ fun _ _ => id
  intro _ q hq
  subst hq
  simp only [ends_bind, ends_diagram]
  split
  · rfl
  · rename_i some_parent
    have found := (Keyed.find?_eq_some_iff h.distinct.subgraphs).mpr ⟨hg, rfl⟩
    have outward : wouldCycle q.diagram g.id g.parent = false := by
      rw [← Bool.not_eq_true, Diagram.wouldCycle_iff]
      exact fun back => h.acyclic g.id (.head' ⟨g, found, rfl, some_parent⟩ back)
    have simple : (enclosing q.diagram g.parent).all Value.isSimple := by
      have chain : enclosing q.diagram g.parent = q.diagram.chain g.parent :=
        (if_neg some_parent).symm
      rw [chain, List.all_eq_true]
      exact h.simple_chain there
    simp [outward, simple]

theorem checkMembers_passes {members : List Value} (all : ∀ m ∈ members, CanMove p.diagram m) :
    Ends (checkMembers members) p (fun _ q => q = p) fun _ _ => False := by
  have walk := ends_forM (fun ms q => q = p ∧ ∀ m ∈ ms, CanMove p.diagram m)
    (fun m => checkNode m (.missingNode .member m.shown)) (fun _ _ => False) ?_ members ⟨rfl, all⟩
  · exact walk.imp (fun _ _ hq => hq.1) fun _ _ => id
  · rintro m ms q ⟨rfl, left⟩
    obtain ⟨simple, there⟩ := left m List.mem_cons_self
    simp only [checkNode, ends_bind, ends_checkId, simple, if_true, ends_diagram, ends_check, there]
    exact ⟨trivial, fun v hv => left v (List.mem_cons_of_mem m hv)⟩

theorem leaving_list (g : Subgraph) (members : List Value) :
    leaving g (.list members) = .ok (g.members.filter (· ∉ members)) := by
  refine (filterM_ok (fun m => !members.contains m) g.members).trans ?_
  congr 2
  funext m
  simp

theorem ofExcept_ok {α : Type} (x : α) : ofExcept (.ok x) = pure x := rfl

/-- The change of a subgraph that gives it members. -/
def giving (members : List Value) : Fields := [("node_ids".toList, .list members)]

/-- A subgraph is given members, in a change of nothing else. -/
theorem updateSubgraph_gives {id : Value} {members : List Value} (sturdy : p.diagram.Sturdy)
    (found : p.diagram.subgraph? id = some g) (all : ∀ m ∈ members, p.diagram.hasNode m) :
    Ends (updateSubgraph id (giving members)) p
      (fun x q => x = some (g.assign id members) ∧ q.diagram = p.diagram.assigned id members)
      fun _ _ => False := by
  obtain rfl : g.id = id := Keyed.key_of_find? found
  have hg : g ∈ p.diagram.subgraphs := Keyed.mem_of_find? found
  have h := sturdy.integral
  have named : checkNames .subgraph (giving members) = pure () := rfl
  have known : checkFields .subgraph (Keyed.keys Subgraph.setters) g.id (giving members) =
      pure () := rfl
  have looked : checkId g.id = pure () := if_pos (h.simple g hg)
  have parent : ((giving members).get? "parent_id").getD g.parent = g.parent := rfl
  have given : (giving members).get "node_ids" = .list members := rfl
  have others : (giving members).filter (fun c => c.1 != "node_ids".toList) = [] := rfl
  have unset : setAll Subgraph.setters [] = .ok fun x => x := rfl
  have movable : ∀ m ∈ members, CanMove p.diagram m := fun m hm => sturdy.canMove (all m hm)
  simp only [updateSubgraph, named, known, looked, parent, given, others, unset, ends_bind,
    ends_pure, ends_diagram, found]
  refine (checkNesting_passes h hg).imp (fun _ q hq => ?_) fun _ _ => id
  subst hq
  simp only [if_neg (by simp : ¬ Value.list members = .null), leaving_list, Value.parts,
    ofExcept_ok, ends_bind, ends_pure]
  refine (checkMembers_passes movable).imp (fun _ r hr => ?_) fun _ _ => id
  subst hr
  simp only [ends_group]
  refine (moves_exactly (p := { r with grouped := true }) h.distinct h.membersNodup
    ((h.membersNodup g hg).filter _) (fun some_parent => absurd rfl some_parent) fun m hm =>
      sturdy.canMove_members hg m (List.mem_of_mem_filter hm)).imp (fun _ s out => ?_) fun _ _ => id
  have there : CanJoin r.diagram g.id := fun _ => ⟨h.simple g hg, Keyed.has_of_find? found⟩
  refine (moves_exactly (p := s) (out ▸ h.distinct.regrouped)
    (out ▸ Diagram.membersNodup_regrouped h.membersNodup ((h.membersNodup g hg).filter _))
    (Keyed.nodup_eraseDups members) (out ▸ there.congr Diagram.nesting_regrouped) fun m hm =>
      out ▸ Diagram.canMove_regrouped.mpr (movable m (List.mem_eraseDups.mp hm))).imp
    (fun _ t into => ?_) fun _ _ => id
  rw [out, h.regrouped_twice hg] at into
  have now : t.diagram.subgraph? g.id = some (g.assign g.id members) := by
    rw [into, Diagram.subgraph?_assigned, found]
    rfl
  simp only [ends_diagram, now, List.isEmpty_nil, if_true, ends_pure]
  exact ⟨trivial, into⟩

/-- A subgraph is added with members. -/
theorem addSubgraph_gives (sturdy : p.diagram.Sturdy) (new : g.id ∉ Keyed.keys p.diagram.subgraphs)
    (named : g.id ≠ .null) (simple : g.id.isSimple)
    (parent : g.parent ≠ .null → p.diagram.hasSubgraph g.parent)
    (all : ∀ m ∈ g.members, p.diagram.hasNode m) :
    Ends (addSubgraph g) p
      (fun _ q => q.diagram = Diagram.assigned
        { p.diagram with subgraphs := p.diagram.subgraphs ++ [g] } g.id g.members)
      fun _ _ => False := by
  have h := sturdy.integral
  have fresh : p.diagram.hasSubgraph g.id = false := by
    rw [← Bool.not_eq_true, Diagram.hasSubgraph, Keyed.has_iff]
    exact new
  have apart : (g.parent != g.id || g.parent == .null) = true := by
    by_cases outside : g.parent = .null
    · simp [outside]
    · have := parent outside
      have ne : g.parent ≠ g.id := fun same => by rw [same, fresh] at this; cases this
      simp [ne]
  have movable : ∀ m ∈ g.members, CanMove p.diagram m := fun m hm => sturdy.canMove (all m hm)
  simp only [addSubgraph, ends_bind, ends_checkId, simple, if_true, ends_diagram, ends_check, fresh,
    Bool.not_false, apart]
  refine (checkParent_passes (h.canJoin parent)).imp (fun _ q hq => ?_) fun _ _ => id
  subst hq
  refine (checkMembers_passes movable).imp (fun _ r hr => ?_) fun _ _ => id
  subst hr
  simp only [ends_group, ends_change]
  let empty : Subgraph := { g with members := [] }
  let grown : Diagram := { r.diagram with subgraphs := r.diagram.subgraphs ++ [empty] }
  have put : Keyed.put empty r.diagram.subgraphs = r.diagram.subgraphs ++ [empty] :=
    Keyed.put_of_not_mem new
  have integral : grown.Integral := by
    have := h.addSubgraph (g := empty) new named simple rfl parent
    rwa [put] at this
  have last : empty ∈ grown.subgraphs := by simp [grown]
  have joinable : CanJoin grown g.id := fun _ =>
    ⟨simple, Diagram.hasSubgraph_iff.mpr ⟨empty, last, rfl⟩⟩
  have movable : ∀ m ∈ g.members.eraseDups, CanMove grown m := fun m hm =>
    movable m (List.mem_eraseDups.mp hm)
  let q : Progress := Progress.make { r with grouped := true } (.subgraphAdded empty)
  have added : q.diagram = grown := by
    simp only [q, make, Diagram.apply, put]
    rfl
  refine (moves_exactly (p := q) (added ▸ integral.distinct) (added ▸ integral.membersNodup)
    (Keyed.nodup_eraseDups g.members) (added ▸ joinable) (added ▸ movable)).imp ?_ fun _ _ => id
  intro _ t moved
  have given := integral.regrouped_twice last g.members
  rw [List.filter_nil, Diagram.regrouped_nil] at given
  rw [moved, added, given]
  simp [grown, empty, Diagram.assigned, Subgraph.assign]

end Edit

namespace Editor
variable {e : Editor} {members : List Value}

/-- To give a subgraph members, when it is changed or when it is added, is to have it list exactly
them, each at its first place. Every other subgraph lists what is left to it in its order. Who is
given has the subgraph for its parent, who was in it and is not has none, and nothing else changes.
What the edits make does not depend on who listens, and quiet listeners leave it as it is. -/
theorem members_assigned (sturdy : e.diagram.Sturdy) (all : ∀ m ∈ members, e.diagram.hasNode m) :
    (∀ {id : Value} {g : Subgraph}, e.diagram.subgraph? id = some g →
      let after := e.diagram.assigned id members
      Ends (Edit.updateSubgraph id (Edit.giving members)) e.opening
        (fun x p => x = some (g.assign id members) ∧ p.diagram = after) (fun _ _ => False) ∧
      (e.IsQuiet → Ends (run (.updateSubgraph id (Edit.giving members))) e
        (fun _ t => t.diagram = after) fun _ _ => False)) ∧
    ∀ {g : Subgraph}, g.id ∉ Keyed.keys e.diagram.subgraphs → g.id ≠ .null → g.id.isSimple →
      (g.parent ≠ .null → e.diagram.hasSubgraph g.parent) → g.members = members →
      let grown := { e.diagram with subgraphs := e.diagram.subgraphs ++ [g] }
      let after := grown.assigned g.id members
      Ends (Edit.addSubgraph g) e.opening (fun _ p => p.diagram = after) (fun _ _ => False) ∧
      (e.IsQuiet → Ends (run (.addSubgraph g)) e
        (fun answer t => answer = .subgraph (some (g.assign g.id members)) ∧ t.diagram = after)
        fun _ _ => False) := by
  refine ⟨fun {id g} found => ?_, fun {g} new named simple parent given => ?_⟩
  · have ends := Edit.updateSubgraph_gives (p := e.opening) sturdy found all
    refine ⟨ends, fun quiet => ?_⟩
    have made := perform_passes quiet (e.due + weight (.updateSubgraph id (Edit.giving members)))
      (fun _ d => d = e.diagram.assigned id members) (fun _ => False)
      (ends.imp (fun _ _ ht => ht.2) fun _ _ => False.elim)
    simp only [run, obey, updateSubgraph, ends_bind, ends_get, ends_pure]
    exact made.imp (fun _ _ ht => ht.1) fun _ _ ht => ht.2
  · subst given
    let grown := { e.diagram with subgraphs := e.diagram.subgraphs ++ [g] }
    have ends : Ends (Edit.addSubgraph g) e.opening
        (fun _ p => p.diagram = grown.assigned g.id g.members) fun _ _ => False :=
      Edit.addSubgraph_gives sturdy new named simple parent all
    refine ⟨ends, fun quiet => ?_⟩
    have made := perform_passes quiet (e.due + weight (.addSubgraph g))
      (fun _ d => d = grown.assigned g.id g.members) (fun _ => False)
      (ends.imp (fun _ _ ht => ht) fun _ _ => False.elim)
    simp only [run, obey, addSubgraph, ends_bind, ends_get]
    refine made.imp ?_ fun _ _ ht => ht.2
    rintro _ t ⟨after, _⟩
    have last : grown.subgraph? g.id = some g := by
      have := Keyed.find?_put_self g e.diagram.subgraphs
      rwa [Keyed.put_of_not_mem new] at this
    have now : t.diagram.subgraph? g.id = some (g.assign g.id g.members) := by
      rw [after, Diagram.subgraph?_assigned, last]
      rfl
    simp only [now, ends_pure]
    exact ⟨trivial, after⟩

/-- Two subgraphs with two nodes each. -/
def paired : List Command := [
  .addNode (.bare (.text "A")),
  .addNode (.bare (.text "B")),
  .addNode (.bare (.text "C")),
  .addNode (.bare (.text "D")),
  .addSubgraph { id := .text "g", title := .text "g", members := [.text "A", .text "B"] },
  .addSubgraph { id := .text "h", title := .text "h", members := [.text "C", .text "D"] },
  .subscribe "listener" .watch]

set_option maxRecDepth 4000 in
/-- One of the subgraphs gets a node of the other one before one of its own, each of them twice. -/
theorem paired_members_assigned :
    let e := (ofDiagram .empty).after paired
    let members : List Value := [.text "D", .text "A", .text "D", .text "A"]
    let subgraphs (d : Diagram) := d.subgraphs.map fun g => (g.id, g.members)
    let parents (d : Diagram) := d.nodes.map fun n => (n.id, n.parent)
    Ends (run (.updateSubgraph (.text "g") (Edit.giving members))) e (fun _ t =>
      subgraphs t.diagram = [(.text "g", [.text "D", .text "A"]), (.text "h", [.text "C"])] ∧
      parents t.diagram = [(.text "A", .text "g"), (.text "B", .null), (.text "C", .text "h"),
        (.text "D", .text "g")]) (fun _ _ => False) ∧
    Ends (run (.addSubgraph { id := .text "k", title := .text "k", members })) e (fun _ t =>
      subgraphs t.diagram = [(.text "g", [.text "B"]), (.text "h", [.text "C"]),
        (.text "k", [.text "D", .text "A"])] ∧
      parents t.diagram = [(.text "A", .text "k"), (.text "B", .text "g"), (.text "C", .text "h"),
        (.text "D", .text "k")]) fun _ _ => False := by
  intro e members subgraphs parents
  let g : Subgraph :=
    { id := .text "g", title := .text "g", members := [.text "A", .text "B"] }
  let k : Subgraph := { id := .text "k", title := .text "k", members }
  have sturdy : e.diagram.Sturdy := sturdy_after ⟨Diagram.integral_empty, Diagram.has_empty⟩
    (by simp [paired, Command.IsProper, Command.reactsProperly])
  have all : ∀ m ∈ members, e.diagram.hasNode m := by decide +kernel
  have found : e.diagram.subgraph? (.text "g") = some g := by decide +kernel
  have new : k.id ∉ Keyed.keys e.diagram.subgraphs := by decide +kernel
  have quiet : e.IsQuiet := by
    have known : e.known = [{ name := "listener", reaction := .watch }] := rfl
    simp [IsQuiet, known, Command.reactsQuietly]
  let given := e.diagram.assigned (.text "g") members
  let grown :=
    Diagram.assigned { e.diagram with subgraphs := e.diagram.subgraphs ++ [k] } k.id members
  have of_given : subgraphs given =
        [(.text "g", [.text "D", .text "A"]), (.text "h", [.text "C"])] ∧
      parents given = [(.text "A", .text "g"), (.text "B", .null), (.text "C", .text "h"),
        (.text "D", .text "g")] := by decide +kernel
  have of_grown : subgraphs grown = [(.text "g", [.text "B"]), (.text "h", [.text "C"]),
        (.text "k", [.text "D", .text "A"])] ∧
      parents grown = [(.text "A", .text "k"), (.text "B", .text "g"), (.text "C", .text "h"),
        (.text "D", .text "k")] := by decide +kernel
  clear_value e
  refine ⟨?_, ?_⟩
  · refine (((members_assigned sturdy all).1 found).2 quiet).imp ?_ fun _ _ => id
    rintro _ t same
    rw [same]
    exact of_given
  · refine (((members_assigned sturdy all).2 (g := k) new (by decide) (by decide)
      (fun outside => absurd rfl outside) rfl).2 quiet).imp ?_ fun _ _ => id
    rintro _ t ⟨_, same⟩
    rw [same]
    exact of_grown

end Editor
end Flowchart
