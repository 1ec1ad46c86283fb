import Flowchart.Proofs.Positions

/-! Edits of a sturdy diagram. Such an edit either fails and leaves everything as it was, or it
leaves a sturdy diagram that still has a trait. Only an edit that makes several edits one after
the other can fail half way. -/
namespace Flowchart
open Action Progress

/-- How an edit stands that began with a diagram: the diagram is sturdy still, and it has the
trait. -/
structure Progress.Bears (t : Trait) (d : Diagram) (p : Progress) : Prop where
  sound : Sound True d p
  simple : p.diagram.Has .lookedUp
  has : p.diagram.Has t

namespace Progress.Bears
variable {t : Trait} {d : Diagram} {p : Progress}

theorem sturdy (h : Bears t d p) : p.diagram.Sturdy := ⟨h.sound.integral trivial, h.simple⟩

theorem start (sturdy : d.Sturdy) (has : d.Has t) : Bears t d { diagram := d } :=
  ⟨⟨sturdy.integral.distinct, rfl, fun _ => sturdy.integral⟩, sturdy.simple, has⟩

theorem group (h : Bears t d p) : Bears t d { p with grouped := true } :=
  ⟨h.sound.group, h.simple, h.has⟩

end Progress.Bears

/-- The first of the two edges that take the place of an edge with a node on it. -/
def Edge.before (e : Edge) (node : Value) : Edge := {
  id := .null, source := e.source, target := node, text := e.text, stroke := e.stroke
  sourceTip := e.sourceTip, targetTip := e.targetTip, length := e.length, style := e.style
  classes := e.classes }

/-- The second of the two edges. -/
def Edge.beyond (e : Edge) (node : Value) : Edge := {
  id := .null, source := node, target := e.target, stroke := e.stroke
  sourceTip := e.sourceTip, targetTip := e.targetTip, length := e.length, style := e.style
  classes := e.classes }

namespace Edit
variable {t : Trait} {p : Progress}

/-- The edit fails only before it does anything, leaves a sturdy diagram that still has the trait,
and has changed nothing where its answer is silent. -/
structure Serves (t : Trait) {α : Type} (edit : Edit α) (silent : α → Prop) : Prop where
  bears : ∀ d, Keeps (Bears t d) edit
  atomic : Atomic edit
  idle : ∀ p : Progress, Ends edit p (fun x q => silent x → q = p) fun _ _ => True

theorem Serves.ends {α : Type} {edit : Edit α} {silent : α → Prop} (h : Serves t edit silent)
    {d : Diagram} (sturdy : d.Sturdy) (has : d.Has t) :
    Ends edit { diagram := d } (fun x q => q.diagram.Sturdy ∧ q.diagram.Has t ∧
      (silent x → q.diagram = d)) fun _ q => q = { diagram := d } := by
  have all := ((h.bears d _ (.start sturdy has)).and (h.atomic { diagram := d } sturdy)).and
    (h.idle { diagram := d })
  refine all.imp (fun x q hq => ?_) fun _ q hq => hq.1.2
  exact ⟨hq.1.1.sturdy, hq.1.1.has, fun quiet => congrArg Progress.diagram (hq.2 quiet)⟩

theorem keeps_bears {α : Type} {edit : Edit α} (sound : ∀ d, Keeps (Sound True d) edit)
    (simple : Spreads .lookedUp edit) (has : Spreads t edit) (d : Diagram) :
    Keeps (Bears t d) edit := by
  intro p h
  have all := (sound d p h.sound).and ((simple p h.simple).and (has p h.has))
  exact all.imp (fun _ _ hq => ⟨hq.1, hq.2.1, hq.2.2⟩) fun _ _ hq => ⟨hq.1, hq.2.1, hq.2.2⟩

theorem spoken {α : Type} {edit : Edit α} (p : Progress) :
    Ends edit p (fun _ q => False → q = p) fun _ _ => True :=
  ends_always (fun _ _ => False.elim) fun _ _ => trivial

/-! ### Single edits -/

theorem addNode_bears {n : Node} (new : n.id.isSimple → t.node n) (d : Diagram) :
    Keeps (Bears t d) (addNode n) :=
  keeps_bears (fun _ => addNode_keeps n) (addNode_spreads fun simple => simple)
    (addNode_spreads new) d

theorem addNode_serves {n : Node} (new : n.id.isSimple → t.node n) :
    Serves t (addNode n) fun _ => False :=
  ⟨addNode_bears new, addNode_atomic n, spoken⟩

theorem updateNode_serves (id : Value) {changes : Fields}
    (lets : ∀ set, setAll Node.setters changes = .ok set → ∀ n : Node, n.id = id → t.node n →
      t.node (set n)) : Serves t (updateNode id changes) fun x => x.isSome = false := by
  refine ⟨keeps_bears (fun _ => updateNode_keeps id changes) (updateNode_spreads id ?_)
    (updateNode_spreads id lets), updateNode_atomic id changes,
    fun p => updateNode_idle (p := p) id changes⟩
  intro set hset n _ simple
  exact (congrArg Value.isSimple (setAll_spares spares_node_id hset n)).trans simple

theorem removeNode_serves (id : Value) : Serves t (removeNode id) fun x => x = false :=
  ⟨keeps_bears (fun _ => removeNode_keeps id) (removeNode_spreads id) (removeNode_spreads id),
    removeNode_atomic id, fun p => removeNode_idle (p := p) id⟩

theorem addEdge_bears {e : Edge}
    (new : ∀ id : Value, id.holds → (id = e.id ∨ ∃ s, id = .text s) → t.edge { e with id })
    (d : Diagram) : Keeps (Bears t d) (addEdge e) :=
  keeps_bears (fun _ => addEdge_keeps e) (addEdge_spreads fun _ _ _ _ => trivial)
    (addEdge_spreads fun id holds _ => new id holds) d

theorem addEdge_serves {e : Edge}
    (new : ∀ id : Value, id.holds → (id = e.id ∨ ∃ s, id = .text s) → t.edge { e with id }) :
    Serves t (addEdge e) fun _ => False :=
  ⟨addEdge_bears new, addEdge_atomic e, spoken⟩

theorem updateEdge_serves (id : Value) {changes : Fields} (once : (Keyed.keys changes).Nodup)
    (lets : Lets Edge.setters t.edge changes) :
    Serves t (updateEdge id changes) fun x => x.isSome = false :=
  ⟨keeps_bears (fun _ => updateEdge_keeps id fun _ => once)
      (updateEdge_spreads id fun _ _ _ _ => trivial) (updateEdge_spreads id lets),
    updateEdge_atomic id changes, fun p => updateEdge_idle (p := p) id changes⟩

theorem removeEdge_bears (id : Value) (d : Diagram) : Keeps (Bears t d) (removeEdge id) :=
  keeps_bears (fun _ => removeEdge_keeps id) (removeEdge_spreads id) (removeEdge_spreads id) d

theorem removeEdge_serves (id : Value) : Serves t (removeEdge id) fun x => x = false :=
  ⟨removeEdge_bears id, removeEdge_atomic id, fun p => removeEdge_idle (p := p) id⟩

/-! ### What comes new -/

/-- A node that is added is placed where it belongs. -/
theorem addNode_places (integral : p.diagram.Integral) (n : Node) :
    Ends (addNode n) p (fun m q => m = n ∧ n.id.isSimple ∧ q.diagram = p.diagram.place n)
      fun _ q => q = p := by
  simp only [addNode, ends_bind, ends_diagram]
  refine (checkId_guards n.id).pass (fun _ simple => ?_) fun _ => rfl
  refine (check_guards ..).pass (fun _ free => ?_) fun _ => rfl
  refine (checkParent_guards n.parent).pass (fun _ can => ?_) fun _ => rfl
  have fresh : n.id ∉ Keyed.keys p.diagram.nodes := by
    rw [← Keyed.has_iff]
    simpa [Diagram.hasNode] using free
  have placed := Diagram.place_unlisted (d := p.diagram) (n := n) fun g hg listed => by
    obtain ⟨m, hm, same, _⟩ := (integral.members g hg n.id).mp listed
    exact fresh (same ▸ Keyed.mem_keys hm)
  split
  · rename_i none
    simp only [ends_bind, ends_change, ends_pure, true_and]
    exact ⟨simple, (placed.trans (Diagram.mapSubgraphs_self fun g _ => by simp [none])).symm⟩
  · rename_i some_parent
    simp only [ends_bind, ends_group, ends_change, ends_pure, ← attachIfAny_eq some_parent]
    refine (attachIfAny_ends (integral.distinct.apply (.nodeAdded n))).imp ?_ ?_
    · rintro _ q ⟨_, same⟩
      exact ⟨trivial, simple, same.trans placed.symm⟩
    · rintro _ q ⟨_, cannot⟩
      exact absurd can cannot

/-- A node is not added if nothing can be looked up by its id, or if the id is taken. -/
theorem addNode_refuses {n : Node} (no : n.id.isSimple → p.diagram.hasNode n.id) :
    Ends (addNode n) p (fun _ _ => False) fun _ q => q = p := by
  simp only [addNode, ends_bind, ends_diagram]
  refine (checkId_guards n.id).pass (fun _ simple => ?_) fun _ => rfl
  refine (check_guards ..).pass (fun _ free => ?_) fun _ => rfl
  rw [no simple] at free
  cases free

theorem ends_checkNode (sturdy : p.diagram.Sturdy) {id : Value} (there : p.diagram.hasNode id)
    {missing : Error} {ok : Unit → Progress → Prop} {err : Error → Progress → Prop} :
    Ends (checkNode id missing) p ok err ↔ ok () p := by
  simp only [checkNode, ends_bind, ends_diagram, ends_checkId, ends_check, if_pos there,
    if_pos (sturdy.simple_of_hasNode there)]

/-- An edge without an id between nodes that are there comes last, unless no id can be made for
it. -/
theorem addEdge_draws {e : Edge} (sturdy : p.diagram.Sturdy) (unnamed : e.id = .null)
    (source : p.diagram.hasNode e.source) (target : p.diagram.hasNode e.target) :
    Ends (addEdge e) p (fun _ q => ∃ id : Text, q.diagram =
        { p.diagram with edges := p.diagram.edges ++ [{ e with id := .text id }] })
      fun _ q => q = p ∧ ∃ f, generatedId p.diagram e = .error f := by
  have nameless : ¬ e.id.holds := by
    rw [unnamed]
    decide
  simp only [addEdge, ends_bind, ends_diagram, ends_checkNode sturdy source,
    ends_checkNode sturdy target, if_neg nameless, ends_ofExcept, ends_pure, ends_change]
  refine ⟨fun id made => ⟨id, ?_⟩, fun f failed => ⟨trivial, f, failed⟩⟩
  have fresh : (.text id : Value) ∉ Keyed.keys p.diagram.edges := fun taken =>
    generatedId_not_mem made (Diagram.mem_edgeIds.mpr taken)
  exact congrArg (fun edges => { p.diagram with edges })
    (Keyed.put_of_not_mem (x := { e with id := .text id }) fresh)

/-- Why no node can be put on an edge: the edge cannot be looked up, or one of the edges in its
place gets no id. -/
def Unsplittable (e : Edge) (node : Value) : Prop :=
  e.id.isSimple = false ∨ ∃ d f, generatedId d (e.before node) = .error f ∨
    generatedId d (e.beyond node) = .error f

/-- Both edges in the place of an edge get ids, if its operator can be built and texts are what has
to be told. -/
theorem generatedId_halves {e : Edge} {node : Value} (operator : e.operator.isOk)
    (source : e.source.asText.isOk) (target : e.target.asText.isOk) (here : node.asText.isOk)
    (text : e.text.holds → e.text.asText.isOk) (d : Diagram) :
    (generatedId d (e.before node)).isOk ∧ (generatedId d (e.beyond node)).isOk := by
  constructor
  · refine isOk_bind operator fun _ _ => isOk_bind source fun _ _ => isOk_bind here fun _ _ => ?_
    dsimp only
    split
    · rename_i holds
      exact isOk_bind (text holds) fun _ _ => rfl
    · rfl
  · exact isOk_bind operator fun _ _ => isOk_bind here fun _ _ => isOk_bind target fun _ _ => rfl

/-- Edges stay when a node is put on one of them, until the last of them goes. -/
theorem removeEdge_ends (id : Value) :
    Ends (removeEdge id) p (fun _ _ => True) fun _ q => q = p ∧ id.isSimple = false := by
  simp only [removeEdge, ends_bind, ends_checkId, ends_diagram]
  split
  · split <;> trivial
  · rename_i complex
    exact ⟨trivial, Bool.eq_false_iff.mpr complex⟩

/-- One of the edges is drawn that take the place of an edge. All others stay. -/
theorem addHalf_ends {d : Diagram} (h : Bears t d p) {f : Edge} (unnamed : f.id = .null)
    (source : p.diagram.hasNode f.source) (target : p.diagram.hasNode f.target)
    (half : ∀ id : Text, t.edge { f with id := .text id }) :
    Ends (addEdge f) p (fun _ q => Bears t d q ∧ q.diagram.nodes = p.diagram.nodes ∧
        ∀ e ∈ p.diagram.edges, e ∈ q.diagram.edges)
      fun _ q => Bears t d q ∧ q = p ∧ ∃ x, generatedId p.diagram f = .error x := by
  have drawn : ∀ id : Value, id.holds → (id = f.id ∨ ∃ s, id = .text s) →
      t.edge { f with id } := by
    rintro id holds (rfl | ⟨s, rfl⟩)
    · rw [unnamed] at holds
      cases holds
    · exact half s
  refine ((addEdge_bears drawn d p h).and (addEdge_draws h.sturdy unnamed source target)).imp ?_
    fun _ _ hq => hq
  rintro _ q ⟨hq, id, added⟩
  rw [added]
  exact ⟨hq, rfl, fun e he => List.mem_append_left _ he⟩

/-- A node is put on an edge, and if there is a position for it, it gets that last. Half way it
fails only where one of the edges gets no id, or where the position cannot be found. -/
theorem splitEdge_ends {d : Diagram} (h : Bears t d p) {e : Edge} (there : e ∈ p.diagram.edges)
    {n : Node} (node : t.node n)
    (halves : ∀ id : Text, t.edge { e.before n.id with id := .text id } ∧
      t.edge { e.beyond n.id with id := .text id })
    (position : Except Error (Option Position)) :
    Ends (splitEdge e n position) p
      (fun _ q => ∃ r : Diagram, r.Sturdy ∧ r.Has t ∧ q.diagram = match position with
        | .ok (some place) => r.positioned n.id place
        | _ => r)
      fun _ q => q.diagram.Sturdy ∧ q.diagram.Has t ∧ (q = { p with grouped := true } ∨
        (∃ f, position = .error f) ∨ e ∈ q.diagram.edges ∧ Unsplittable e n.id) := by
  have source := h.sturdy.integral.source e there
  have target := h.sturdy.integral.target e there
  have placed := addNode_places (p := { p with grouped := true }) h.sturdy.integral n
  simp only [splitEdge, ends_bind, ends_group]
  refine ((addNode_bears (fun _ => node) d _ h.group).and placed).imp ?_ ?_
  rotate_left
  · rintro _ q ⟨hq, same⟩
    exact ⟨hq.sturdy, hq.has, Or.inl same⟩
  rintro m q ⟨hq, rfl, simple, placed⟩
  -- the node is there, and all that was there before
  have nodes : ∀ id, id = m.id ∨ p.diagram.hasNode id → q.diagram.hasNode id := by
    intro id hid
    rw [placed]
    exact Keyed.has_iff.mpr (Keyed.mem_keys_put.mpr (hid.imp_right Keyed.has_iff.mp))
  have edges : e ∈ q.diagram.edges := placed ▸ there
  refine (addHalf_ends hq (f := e.before m.id) rfl (nodes _ (Or.inr source)) (nodes _ (Or.inl rfl))
    fun id => (halves id).1).imp ?_ ?_
  rotate_left
  · rintro _ _ ⟨hq, rfl, f, failed⟩
    exact ⟨hq.sturdy, hq.has, Or.inr (Or.inr ⟨edges, Or.inr ⟨_, f, Or.inl failed⟩⟩)⟩
  rintro _ r ⟨hr, same, more⟩
  have nodes : ∀ id, id = m.id ∨ p.diagram.hasNode id → r.diagram.hasNode id := fun id hid =>
    (congrArg (Keyed.has id) same).trans (nodes id hid)
  have edges := more e edges
  refine (addHalf_ends hr (f := e.beyond m.id) rfl (nodes _ (Or.inl rfl)) (nodes _ (Or.inr target))
    fun id => (halves id).2).imp ?_ ?_
  rotate_left
  · rintro _ _ ⟨hr, rfl, f, failed⟩
    exact ⟨hr.sturdy, hr.has, Or.inr (Or.inr ⟨edges, Or.inr ⟨_, f, Or.inr failed⟩⟩)⟩
  rintro _ u ⟨hu, _, more⟩
  have edges := more e edges
  refine ((removeEdge_bears e.id d u hu).and (removeEdge_ends e.id)).imp ?_ ?_
  rotate_left
  · rintro _ _ ⟨hu, rfl, complex⟩
    exact ⟨hu.sturdy, hu.has, Or.inr (Or.inr ⟨edges, Or.inl complex⟩)⟩
  rintro _ v ⟨hv, _⟩
  rw [ends_ofExcept]
  refine ⟨fun found given => ?_, fun f failed => ?_⟩
  · subst given
    cases found with
    | none => exact ⟨v.diagram, hv.sturdy, hv.has, rfl⟩
    | some place =>
      simp only [ends_bind, ends_pure]
      refine (updateNode_positions hv.sturdy simple place).imp (fun _ w hw => ?_)
        fun _ _ => False.elim
      exact ⟨v.diagram, hv.sturdy, hv.has, hw.2⟩
  · exact ⟨hv.sturdy, hv.has, Or.inr (Or.inl ⟨f, failed⟩)⟩

/-- No node is put on an edge if it could not be added. -/
theorem splitEdge_refuses (e : Edge) {n : Node} (position : Except Error (Option Position))
    (no : n.id.isSimple → p.diagram.hasNode n.id) :
    Ends (splitEdge e n position) p (fun _ _ => False) fun _ q => q = { p with grouped := true } := by
  simp only [splitEdge, ends_bind, ends_group]
  exact (addNode_refuses (p := { p with grouped := true }) no).imp (fun _ _ => False.elim)
    fun _ _ same => same

end Edit
end Flowchart
