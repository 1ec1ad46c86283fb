import Flowchart.Proofs.Quiet
import Flowchart.Proofs.UndoRedo

/-! Nodes that are moved on the plane. Where every reference leads somewhere and listeners are
quiet, a move never fails, and it changes nothing but the position of its node. -/
namespace Flowchart
open Action

namespace Diagram
variable {d : Diagram} {id : Value} {p : Position}

/-- The diagram with a node at a place, if there is such a node. -/
def positioned (d : Diagram) (id : Value) (p : Position) : Diagram :=
  { d with nodes := d.nodes.map fun n => if n.id = id then { n with position := some p } else n }

/-- The diagram with all nodes of a table at their places. -/
def positionedAll (d : Diagram) (places : Places) : Diagram :=
  places.foldl (fun d q => d.positioned q.1 q.2) d

theorem positioned_absent (absent : d.hasNode id = false) : d.positioned id p = d := by
  have same : ∀ n ∈ d.nodes, (if n.id = id then { n with position := some p } else n) = n := by
    intro n hn
    refine if_neg fun here => ?_
    rw [hasNode_iff.mpr ⟨n, hn, here⟩] at absent
    cases absent
  rw [positioned, List.map_congr_left same, List.map_id']

theorem Sturdy.positioned (h : d.Sturdy) (id : Value) (p : Position) : (d.positioned id p).Sturdy := by
  have same : ∀ n : Node, (if n.id = id then { n with position := some p } else n).id = n.id ∧
      (if n.id = id then { n with position := some p } else n).parent = n.parent := by
    intro n
    split <;> exact ⟨rfl, rfl⟩
  have integral := @Integral.map d h.integral _ (fun e => e) (fun g => g) same
    (fun _ => ⟨rfl, rfl, rfl⟩) fun _ => ⟨rfl, rfl, rfl⟩
  simp only [List.map_id'] at integral
  refine ⟨integral, fun n hn => ?_, h.simple.edges, h.simple.subgraphs, trivial⟩
  obtain ⟨m, hm, rfl⟩ := List.mem_map.mp hn
  exact (congrArg Value.isSimple (same m).1).trans (h.simple.nodes m hm)

theorem Sturdy.simple_of_hasNode (h : d.Sturdy) (there : d.hasNode id) : id.isSimple := by
  obtain ⟨n, hn, rfl⟩ := hasNode_iff.mp there
  exact h.simple.nodes n hn

end Diagram

/-- The change of a node that moves it. -/
def Position.change (p : Position) : Fields := [("position".toList, p.toData)]

namespace Edit

theorem checkParent_passes {parent : Value} {p : Progress} (can : CanJoin p.diagram parent) :
    Ends (checkParent parent) p (fun _ q => q = p) fun _ _ => False := by
  unfold checkParent
  split
  · rfl
  · rename_i some_parent
    obtain ⟨simple, there⟩ := can some_parent
    simp only [ends_bind, ends_diagram, ends_checkId, ends_check, if_pos simple, if_pos there]

theorem setAll_position (p : Position) :
    setAll Node.setters p.change = .ok fun n => { n with position := some p } := rfl

/-- A move answers with the node at its place, if it is there, and puts it there. -/
theorem updateNode_positions {q : Progress} (sturdy : q.diagram.Sturdy) {id : Value}
    (simple : id.isSimple) (p : Position) :
    Ends (updateNode id p.change) q (fun x r =>
      x = (q.diagram.node? id).map (fun n => { n with position := some p }) ∧
        r.diagram = q.diagram.positioned id p) fun _ _ => False := by
  have named : checkNames .node p.change = pure () := rfl
  have known : checkFields .node (Keyed.keys Node.setters) id p.change = pure () := rfl
  have looked : checkId id = pure () := if_pos simple
  simp only [updateNode, named, known, looked, setAll_position, ends_bind, ends_pure, ends_diagram]
  split
  · rename_i none_here
    have absent : q.diagram.hasNode id = false := by
      rw [Diagram.hasNode, ← Keyed.isSome_find?]
      exact congrArg Option.isSome none_here
    exact ⟨by rw [none_here]; rfl, (Diagram.positioned_absent absent).symm⟩
  · rename_i n found
    simp only [ends_bind, ends_ofExcept, ends_pure]
    refine ⟨fun set hset => ?_, by simp⟩
    cases hset
    have can := sturdy.integral.canJoin (sturdy.integral.nodeParent n (Keyed.mem_of_find? found))
    refine (checkParent_passes can).imp (fun _ r same => ?_) fun _ _ => False.elim
    subst same
    simp only [if_true]
    refine ⟨by rw [found]; rfl, ?_⟩
    have put := Keyed.put_change (f := fun n : Node => { n with position := some p })
      sturdy.integral.distinct.nodes found rfl
    exact congrArg (fun nodes => { r.diagram with nodes }) put

end Edit

namespace Session
variable {s : Session}

/-- The session has quiet listeners, and references in its diagram lead somewhere. -/
structure Steadfast (s : Session) : Prop where
  quiet : s.editor.IsQuiet
  sturdy : s.diagram.Sturdy

/-- The session with a diagram that something has left to it, whatever its listeners have heard
of that. -/
structure Shows (s : Session) (d : Diagram) (t : Session) : Prop where
  quiet : t.editor.IsQuiet
  diagram : t.diagram = d
  same : t = { s with editor := t.editor }

theorem Shows.refl (quiet : s.editor.IsQuiet) : Shows s s.diagram s := ⟨quiet, rfl, rfl⟩

theorem updateNode_shows (h : s.Steadfast) {id : Value} (simple : id.isSimple) (p : Position) :
    Ends (command fun run => Editor.updateNode run id p.change) s (fun x t =>
      x.isSome = s.diagram.hasNode id ∧ Shows s (s.diagram.positioned id p) t)
      fun _ _ => False := by
  simp only [command, ends_onEditor, Editor.attended, Editor.updateNode, ends_bind, ends_get,
    ends_pure]
  have made := Edit.updateNode_positions (q := s.editor.opening) h.sturdy simple p
  have answers : ∀ x, x = (s.diagram.node? id).map (fun n => { n with position := some p }) →
      x.isSome = s.diagram.hasNode id := by
    rintro _ rfl
    rw [Option.isSome_map]
    exact Keyed.isSome_find?
  refine (Editor.perform_passes h.quiet _
    (fun x d => x.isSome = s.diagram.hasNode id ∧ d = s.diagram.positioned id p) (fun _ => False)
    (made.imp (fun x _ hq => ⟨answers x hq.1, hq.2⟩) fun _ _ => False.elim)).imp ?_ fun _ _ ht => ht.2
  rintro ⟨x, later⟩ e ⟨⟨answer, diagram⟩, quiet⟩
  exact ⟨(Option.isSome_map ..).trans answer, quiet, diagram, rfl⟩

theorem place_shows (h : s.Steadfast) (id : Value) (p : Position) :
    Ends (place id p) s (fun _ t => Shows s (s.diagram.positioned id p) t) fun _ _ => False := by
  simp only [place, ends_bind, ends_get]
  split
  · rename_i there
    simp only [ends_bind, ends_pure]
    exact (updateNode_shows h (h.sturdy.simple_of_hasNode there) p).imp (fun _ _ ht => ht.2)
      fun _ _ => False.elim
  · rename_i absent
    rw [Diagram.positioned_absent (Bool.eq_false_iff.mpr absent)]
    exact .refl h.quiet

theorem placeAll_shows (h : s.Steadfast) :
    Ends placeAll s (fun _ t => Shows s (s.diagram.positionedAll s.places) t)
      fun _ _ => False := by
  simp only [placeAll, ends_bind, ends_get]
  -- what is left to be done makes the same diagram of what there is now
  refine (ends_forM (fun rest t => t.diagram.Sturdy ∧ t.editor.IsQuiet ∧
      t.diagram.positionedAll rest = s.diagram.positionedAll s.places ∧
      t = { s with editor := t.editor }) _ (fun _ _ => False) ?_ s.places
      ⟨h.sturdy, h.quiet, rfl, rfl⟩).imp ?_ fun _ _ => False.elim
  · rintro ⟨id, p⟩ rest t ⟨sturdy, quiet, diagram, same⟩
    refine (place_shows ⟨quiet, sturdy⟩ id p).imp (fun _ u hu => ?_) fun _ _ => False.elim
    refine ⟨hu.diagram ▸ sturdy.positioned id p, hu.quiet, ?_, ?_⟩
    · rw [hu.diagram]
      exact diagram
    · rw [hu.same, same]
  · rintro _ t ⟨_, quiet, diagram, same⟩
    exact ⟨quiet, diagram, same⟩

end Session
end Flowchart
