import Flowchart.Proofs.FailedCalls
import Flowchart.Proofs.Ordering
import Flowchart.Proofs.Recording

/-! Nodes that are put on edges. The new edges are drawn while the old one is still there, so
their ids differ from its id as well; then it goes. Nothing else is touched. -/
namespace Flowchart
open Action Progress

namespace Diagram

/-- The first edge from the one node to the other. -/
def firstBetween? (d : Diagram) (source target : Value) : Option Edge :=
  d.edges.find? fun e => e.source == source && e.target == target

/-- The edges without the one, and after them the two that lead to a node and on from it, with
these ids. -/
def halved (d : Diagram) (e : Edge) (node : Value) (first second : Text) : List Edge :=
  Keyed.remove e.id d.edges ++
    [{ e.before node with id := .text first }, { e.beyond node with id := .text second }]

/-- The diagram with a node on an edge. -/
def spliced (d : Diagram) (e : Edge) (n : Node) (first second : Text) : Diagram :=
  { d with nodes := d.nodes ++ [n], edges := d.halved e n.id first second }

/-- Two ids for edges that no edge has. -/
structure Fresh (d : Diagram) (first second : Text) : Prop where
  firstFree : .text first ∉ Keyed.keys d.edges
  secondFree : .text second ∉ Keyed.keys d.edges
  apart : first ≠ second

/-- Every node has an id, and every edge has one that it can be looked up by. -/
structure IsNamed (d : Diagram) : Prop where
  nodes : ∀ n ∈ d.nodes, n.id ≠ .null
  edges : ∀ e ∈ d.edges, e.id ≠ .null ∧ e.id.isSimple

variable {d : Diagram} {e : Edge} {n : Node} {first second : Text}

/-- When the two edges are there, the one goes and they stay. -/
theorem halved_eq {node : Value} (fresh : d.Fresh first second) (there : e ∈ d.edges) :
    Keyed.remove e.id (d.edges ++ [{ e.before node with id := .text first },
      { e.beyond node with id := .text second }]) = d.halved e node first second := by
  have others : ∀ id : Text, .text id ∉ Keyed.keys d.edges → (.text id : Value) ≠ e.id :=
    fun id unused same => unused (same ▸ Keyed.mem_keys there)
  simp [halved, Keyed.remove, Keyed.key, others first fresh.firstFree,
    others second fresh.secondFree]

/-- A node that has been put on an edge is moved. -/
theorem positioned_spliced (free : n.id ∉ Keyed.keys d.nodes) (p : Position) :
    (d.spliced e n first second).positioned n.id p =
      d.spliced e { n with position := some p } first second := by
  have others : d.nodes.map (fun m => if m.id = n.id then { m with position := some p } else m) =
      d.nodes := by
    refine (List.map_congr_left fun m hm => if_neg fun same => free ?_).trans (List.map_id _)
    exact same ▸ Keyed.mem_keys hm
  simp only [positioned, spliced, List.map_append, others, List.map_cons, List.map_nil, if_true]

end Diagram

/-- Can ids be made for edges that look like the edge? Its operator must not be too long to be
written, and what it says must be a text. -/
def Edge.CanBeCopied (e : Edge) : Prop := e.operator.isOk ∧ (e.text.holds → e.text.asText.isOk)

namespace Edit
variable {d : Diagram} {p : Progress} {e : Edge} {n : Node}

/-- A node outside all subgraphs whose id is free comes last. -/
theorem addNode_comes (simple : n.id.isSimple) (free : p.diagram.hasNode n.id = false)
    (outside : n.parent = .null) :
    Ends (addNode n) p (fun m q => m = n ∧
      q.diagram = { p.diagram with nodes := p.diagram.nodes ++ [n] }) fun _ _ => False := by
  have fresh : n.id ∉ Keyed.keys p.diagram.nodes := by
    rw [← Keyed.has_iff]
    exact Bool.eq_false_iff.mp free
  have parent : checkParent n.parent = pure () := if_pos outside
  simp only [addNode, ends_bind, ends_diagram, ends_checkId, ends_check, parent, ends_pure,
    if_pos simple, free, Bool.not_false, if_pos outside, if_true, ends_change, true_and]
  exact congrArg (fun nodes => { p.diagram with nodes }) (Keyed.put_of_not_mem fresh)

/-- A node whose id is taken is not added, for this reason. -/
theorem addNode_collides (simple : n.id.isSimple) (taken : p.diagram.hasNode n.id) :
    Ends (addNode n) p (fun _ _ => False) fun f q =>
      f = .duplicateId .node n.id.shown ∧ q = p := by
  simp only [addNode, ends_bind, ends_diagram, ends_checkId, ends_check, if_pos simple, taken,
    Bool.not_true, Bool.false_eq_true, if_false, and_self]

/-- An edge without an id comes last, and no edge before it has the id that it gets. -/
theorem addEdge_joins (h : Bears .lookedUp d p) (unnamed : e.id = .null)
    (source : p.diagram.hasNode e.source) (target : p.diagram.hasNode e.target)
    (drawn : (generatedId p.diagram e).isOk) :
    Ends (addEdge e) p (fun _ q => Bears .lookedUp d q ∧ ∃ id : Text,
        .text id ∉ Keyed.keys p.diagram.edges ∧ q.diagram =
          { p.diagram with edges := p.diagram.edges ++ [{ e with id := .text id }] })
      fun _ _ => False := by
  refine ((addEdge_bears (fun _ _ _ => trivial) d p h).and
    (addEdge_draws h.sturdy unnamed source target)).imp ?_ ?_
  · rintro _ q ⟨hq, id, added⟩
    refine ⟨hq, id, fun taken => ?_, added⟩
    have once := hq.sturdy.integral.distinct.edges
    rw [added, Keyed.keys_append] at once
    exact List.disjoint_of_nodup_append once taken List.mem_cons_self
  · rintro _ _ ⟨_, _, f, failed⟩
    rw [failed] at drawn
    cases drawn

/-- An edge that is there goes. -/
theorem removeEdge_removes (distinct : p.diagram.Distinct) (there : e ∈ p.diagram.edges)
    (simple : e.id.isSimple) :
    Ends (removeEdge e.id) p (fun _ q => q.diagram =
      { p.diagram with edges := Keyed.remove e.id p.diagram.edges }) fun _ _ => False := by
  have found : p.diagram.edge? e.id = some e :=
    (Keyed.find?_eq_some_iff distinct.edges).mpr ⟨there, rfl⟩
  simp only [removeEdge, ends_bind, ends_checkId, if_pos simple, ends_diagram, found, ends_change,
    ends_pure]
  rfl

/-- Where the node is there, two edges take the place of the one. -/
theorem halves_replace (h : Bears .lookedUp d p) (there : e ∈ p.diagram.edges)
    (known : e.id.isSimple) (node : p.diagram.hasNode n.id)
    (drawn : ∀ d, (generatedId d (e.before n.id)).isOk ∧ (generatedId d (e.beyond n.id)).isOk) :
    Ends (do
        let _ ← addEdge (e.before n.id)
        let _ ← addEdge (e.beyond n.id)
        removeEdge e.id) p
      (fun _ q => q.diagram.Sturdy ∧ ∃ first second, p.diagram.Fresh first second ∧
        q.diagram = { p.diagram with edges := p.diagram.halved e n.id first second })
      fun _ _ => False := by
  have source := h.sturdy.integral.source e there
  have target := h.sturdy.integral.target e there
  simp only [ends_bind]
  refine (addEdge_joins h (e := e.before n.id) rfl source node (drawn _).1).imp ?_ fun _ _ => id
  rintro _ q ⟨hq, first, firstFree, first_added⟩
  have nodes : ∀ id, q.diagram.hasNode id = p.diagram.hasNode id := fun id => by
    rw [first_added]
    rfl
  refine (addEdge_joins hq (e := e.beyond n.id) rfl ((nodes _).trans node)
    ((nodes _).trans target) (drawn _).2).imp ?_ fun _ _ => id
  rintro _ r ⟨hr, second, secondFree, second_added⟩
  have fresh : p.diagram.Fresh first second := by
    simp only [first_added, Keyed.keys_append, List.mem_append, not_or] at secondFree
    refine ⟨firstFree, secondFree.1, fun same => secondFree.2 ?_⟩
    exact List.mem_singleton.mpr (congrArg Value.text same.symm)
  have both : r.diagram = { p.diagram with
      edges := p.diagram.edges ++ [{ e.before n.id with id := .text first },
        { e.beyond n.id with id := .text second }] } := by
    rw [second_added, first_added]
    simp only [List.append_assoc, List.cons_append, List.nil_append]
  have still : e ∈ r.diagram.edges := by
    rw [both]
    exact List.mem_append_left _ there
  refine ((removeEdge_bears e.id d r hr).and
    (removeEdge_removes hr.sturdy.integral.distinct still known)).imp ?_ fun _ _ hv => hv.2
  rintro _ u ⟨hu, removed⟩
  refine ⟨hu.sturdy, first, second, fresh, ?_⟩
  rw [removed, both, Diagram.halved_eq fresh there]

/-- A node is put on an edge, and gets the position that there is for it. -/
theorem splitEdge_splices (h : Bears .lookedUp d p) (there : e ∈ p.diagram.edges)
    (known : e.id.isSimple) (simple : n.id.isSimple) (free : p.diagram.hasNode n.id = false)
    (outside : n.parent = .null) (unplaced : n.position = none)
    (drawn : ∀ d, (generatedId d (e.before n.id)).isOk ∧ (generatedId d (e.beyond n.id)).isOk)
    (position : Option Position) :
    Ends (splitEdge e n (.ok position)) p (fun m q => m = { n with position } ∧
        ∃ first second, p.diagram.Fresh first second ∧
          q.diagram = p.diagram.spliced e { n with position } first second)
      fun _ _ => False := by
  simp only [splitEdge, ends_bind, ends_group]
  refine ((addNode_bears (fun _ => simple) d _ h.group).and
    (addNode_comes simple free outside)).imp ?_ fun _ _ hq => hq.2
  rintro m q ⟨hq, rfl, added⟩
  have still : e ∈ q.diagram.edges := by
    rw [added]
    exact there
  have node : q.diagram.hasNode m.id := by
    rw [added]
    exact Diagram.hasNode_iff.mpr ⟨m, List.mem_append_right _ List.mem_cons_self, rfl⟩
  have replaced := halves_replace hq still known node drawn
  simp only [ends_bind] at replaced
  -- the rest of the edit follows after both edges have been drawn and the one has gone
  refine replaced.imp (fun _ r hr => hr.imp (fun _ u hu => hu.imp ?_ fun _ _ => id)
    fun _ _ => id) fun _ _ => id
  rintro _ v ⟨sturdy, first, second, fresh, replaced⟩
  have spliced : v.diagram = p.diagram.spliced e m first second := by
    rw [replaced, added]
    rfl
  have fresh : p.diagram.Fresh first second := by
    rw [added] at fresh
    exact ⟨fresh.firstFree, fresh.secondFree, fresh.apart⟩
  rw [ends_ofExcept]
  refine ⟨?_, by simp⟩
  rintro _ ⟨⟩
  cases position with
  | none =>
    have same : { m with position := none } = m := unplaced ▸ rfl
    exact ⟨same.symm, first, second, fresh, same.symm ▸ spliced⟩
  | some place =>
    simp only [ends_bind, ends_pure]
    refine (updateNode_positions sturdy simple place).imp ?_ fun _ _ => id
    rintro _ w ⟨rfl, moved⟩
    refine ⟨?_, first, second, fresh, ?_⟩
    · have found : v.diagram.node? m.id = some m := by
        refine (Keyed.find?_eq_some_iff sturdy.integral.distinct.nodes).mpr ⟨?_, rfl⟩
        rw [spliced]
        exact List.mem_append_right _ List.mem_cons_self
      rw [found]
      rfl
    · rw [moved, spliced]
      exact Diagram.positioned_spliced (Keyed.has_iff.not.mp (Bool.eq_false_iff.mp free)) place

/-- No node is put on an edge under an id that is taken, for this reason. -/
theorem splitEdge_collides (position : Except Error (Option Position)) (simple : n.id.isSimple)
    (taken : p.diagram.hasNode n.id) :
    Ends (splitEdge e n position) p (fun _ _ => False) fun f q =>
      f = .duplicateId .node n.id.shown ∧ q = { p with grouped := true } := by
  simp only [splitEdge, ends_bind, ends_group]
  exact (addNode_collides (p := { p with grouped := true }) simple taken).imp
    (fun _ _ => False.elim) fun _ _ hq => hq

end Edit

namespace Editor
variable {e t : Editor} {d : Diagram}

/-- The edit makes the diagram of the editor, and then the listeners are told of what it has done.
The second editor is what they leave. -/
structure Undergoes {α : Type} (e : Editor) (edit : Edit α) (d : Diagram) (t : Editor) : Prop where
  made : (edit.run.run e.opening).2.diagram = d
  told : t = ((publish (replies e.due) (edit.run.run e.opening).2.changes
    (edit.run.run e.opening).2.grouped).run.run (e.afterEdit (edit.run.run e.opening).2)).2

/-- Quiet listeners leave the diagram as the edit has made it. -/
theorem Undergoes.diagram {α : Type} {edit : Edit α} (h : e.Undergoes edit d t)
    (quiet : e.IsQuiet) : t.diagram = d := by
  have rests : Rests d (e.afterEdit (edit.run.run e.opening).2) := ⟨h.made, quiet⟩
  rw [h.told]
  exact Rests.diagram <| Ends.state <| (publish_passes (replies_passes e.due) _ _ _ rests).imp
    (fun _ _ ht => ht) fun _ _ => False.elim

end Editor

namespace Session
variable {s : Session} {d : Diagram}

/-! ### Names for new nodes -/

theorem numberedId_injective {m n : Nat} (h : numberedId m = numberedId n) : m = n :=
  EdgeId.ofNat_injective (List.cons.inj h).2

/-- The search ends at the first number from `n` on whose id is free, or where it gives up. -/
theorem freeId_spec (d : Diagram) (tries n : Nat) :
    ∃ k, n ≤ k ∧ freeId d tries n = numberedId k ∧
      (∀ j, n ≤ j → j < k → d.hasNode (.text (numberedId j))) ∧
      (d.hasNode (.text (numberedId k)) → k = n + tries) := by
  induction tries generalizing n with
  | zero => exact ⟨n, Nat.le_refl n, rfl, by omega, fun _ => rfl⟩
  | succ tries ih =>
    rw [freeId]
    split
    · rename_i taken
      obtain ⟨k, le, found, before, last⟩ := ih (n + 1)
      refine ⟨k, by omega, found, fun j hn hk => ?_, fun h => by rw [last h]; omega⟩
      by_cases first : j = n
      · exact first ▸ taken
      · exact before j (by omega) hk
    · rename_i free
      exact ⟨n, Nat.le_refl n, rfl, by omega, fun h => absurd h free⟩

/-- Among so many numbered ids there are not more taken ones than there are nodes. -/
theorem le_length_of_taken {n count : Nat}
    (taken : ∀ j, n ≤ j → j < n + count → d.hasNode (.text (numberedId j))) :
    count ≤ d.nodes.length := by
  let ids : List Value := (List.range' n count).map fun j => .text (numberedId j)
  have once : ids.Nodup := by
    refine (List.nodup_map_iff fun i j same => ?_).mpr (List.nodup_range')
    exact numberedId_injective (Value.text.inj same)
  have known : ids ⊆ Keyed.keys d.nodes := by
    intro id hid
    obtain ⟨j, hj, rfl⟩ := List.mem_map.mp hid
    rw [List.mem_range'_1] at hj
    exact Keyed.has_iff.mp (taken j hj.1 hj.2)
  simpa [ids, Keyed.keys] using (List.subperm_of_subset once known).length_le

/-- The number is the first one after the number of nodes whose id is free, and it is not far from
that. -/
structure FirstFree (d : Diagram) (k : Nat) : Prop where
  beyond : d.nodes.length < k
  near : k ≤ 2 * d.nodes.length + 1
  free : d.hasNode (.text (numberedId k)) = false
  taken : ∀ j, d.nodes.length < j → j < k → d.hasNode (.text (numberedId j))

theorem nextId_spec (d : Diagram) : ∃ k, FirstFree d k ∧ nextId d = numberedId k := by
  obtain ⟨k, le, found, before, last⟩ := freeId_spec d (d.nodes.length + 1) (d.nodes.length + 1)
  have few : k - (d.nodes.length + 1) ≤ d.nodes.length :=
    le_length_of_taken (n := d.nodes.length + 1) fun j hn hk => before j hn (by omega)
  refine ⟨k, ⟨le, by omega, Bool.eq_false_iff.mpr fun taken => ?_, before⟩, found⟩
  have far := last taken
  omega

/-- The name of a node that is put on an edge: the one that is given, or else the next one. -/
def nameFor (s : Session) (id : Option Text) : Text :=
  (id.filter fun t => !t.isEmpty).getD (nextId s.diagram)

/-- The node that is put on an edge. Without a text it shows its name. -/
def newcomer (s : Session) (shape : Text) (id text : Option Text) : Node where
  id := .text (s.nameFor id)
  text := .text ((text.filter fun t => !t.isEmpty).getD (s.nameFor id))
  shape := if shape = [] then .rect else .resolve shape

theorem orElse_ofText? (t : Option Text) (other : Text) :
    (Value.ofText? t).orElse (.text other) =
      .text ((t.filter fun t => !t.isEmpty).getD other) := by
  rcases t with _ | _ | ⟨c, t⟩ <;> rfl

theorem nodeBetween_eq (shape : Text) (id text : Option Text) :
    s.nodeBetween (.text shape) (.ofText? id) (.ofText? text) = .ok (s.newcomer shape id text) := by
  simp only [nodeBetween, orElse_ofText?]
  rcases shape with _ | ⟨c, shape⟩ <;> rfl

/-! ### Edges between two nodes -/

/-- Where edges have ids, the first of those that the graph of the diagram finds is the first of
those in the diagram. -/
theorem head?_between (edges : ∀ e ∈ d.edges, e.id ≠ .null) (source target : Value) :
    ((Graph.ofDiagram d).between source target).head? =
      (d.firstBetween? source target).map Edge.id := by
  rw [Graph.between, List.head?_mapIdx, List.head?_filter, Graph.ofDiagram, List.find?_map,
    Option.map_map]
  refine Option.map_congr fun e he => ?_
  exact if_neg (edges e (List.mem_of_find?_eq_some he))

/-- The nodes and edges of a sturdy diagram are found if they have ids. -/
theorem between?_eq (sturdy : d.Sturdy) (named : d.IsNamed) (source target : Text) :
    ∃ ids, (do (← Graph.ofDiagram? d).between? (.text source) (.text target)) = .ok ids ∧
      (ids.head?.bind fun id => d.edge? id) = d.firstBetween? (.text source) (.text target) := by
  have nodes : ∀ v, d.hasNode v → v ≠ .null ∧ v.isSimple := by
    intro v there
    obtain ⟨n, hn, rfl⟩ := Diagram.hasNode_iff.mp there
    exact ⟨named.nodes n hn, sturdy.simple.nodes n hn⟩
  have mentioned : ∀ v, d.Mentions v → v ≠ .null ∧ v.isSimple := by
    rintro v (there | ⟨e, he, rfl | rfl⟩)
    · exact nodes v there
    · exact nodes _ (sturdy.integral.source e he)
    · exact nodes _ (sturdy.integral.target e he)
  refine ⟨(Graph.ofDiagram d).between (.text source) (.text target), ?_, ?_⟩
  · refine bind_eq_ok.mpr ⟨_, Graph.ofDiagram?_eq mentioned, ?_⟩
    simp only [Graph.between?, Value.simple, Value.isSimple_text, if_true]
    split <;> rfl
  · rw [head?_between fun e he => (named.edges e he).1]
    cases found : d.firstBetween? (.text source) (.text target) with
    | none => rfl
    | some e =>
      exact (Keyed.find?_eq_some_iff sturdy.integral.distinct.edges).mpr
        ⟨List.mem_of_find?_eq_some found, rfl⟩

/-! ### Splitting -/

/-- How a session is left when a node has been put on an edge: the edit has made the diagram, then
the listeners have been told of it, and the place halfway is in the table if there is one. -/
structure Spliced (s : Session) (e : Edge) (n : Node) (middle : Option Position) (editor : Editor)
    (places : Places) : Prop where
  diagram : ∃ first second, s.diagram.Fresh first second ∧
    s.editor.Undergoes (Edit.splitEdge e n (.ok middle))
      (s.diagram.spliced e { n with position := middle } first second) editor
  places : places = middle.elim s.places fun p => Keyed.put (n.id, p) s.places

/-- When an edit has been made, the listeners are told of it, and then its answer is given. -/
theorem tell_undergoes {α : Type} {edit : Edit α}
    (heard : s.editor.Tells edit fun _ _ => True)
    (made : (edit.run.run s.editor.opening).2.diagram = d) (x : α) (places : Places) :
    Ends (do
      command fun run => Editor.publish run (edit.run.run s.editor.opening).2.changes
        (edit.run.run s.editor.opening).2.grouped
      return some (← ofExcept (.ok x)))
      { s with editor := s.editor.afterEdit (edit.run.run s.editor.opening).2, places }
      (fun y u => y = some x ∧ u.places = places ∧ s.editor.Undergoes edit d u.editor)
      fun _ _ => False := by
  simp only [command, ends_bind, ends_onEditor, Editor.attended, ends_get, ends_ofExcept, ends_pure]
  unfold Editor.Tells at heard
  refine (heard.and (leaves_self _ _)).imp (fun _ t ht => ⟨?_, by simp⟩) fun _ _ ht => ht.1
  rintro _ ⟨⟩
  exact ⟨rfl, trivial, made, ht.2⟩

theorem splitOn_splices (sturdy : s.diagram.Sturdy) {e : Edge} (there : e ∈ s.diagram.edges)
    (known : e.id.isSimple) {n : Node} (simple : n.id.isSimple)
    (free : s.diagram.hasNode n.id = false) (outside : n.parent = .null)
    (unplaced : n.position = none)
    (drawn : ∀ d, (Edit.generatedId d (e.before n.id)).isOk ∧
      (Edit.generatedId d (e.beyond n.id)).isOk)
    {middle : Option Position}
    (heard : s.editor.Tells (Edit.splitEdge e n (.ok middle)) fun _ _ => True) :
    Ends (splitOn e n n.id (.ok middle)) s
      (fun x u => x = some { n with position := middle } ∧
        s.Spliced e n middle u.editor u.places) fun _ _ => False := by
  have made := Edit.splitEdge_splices (p := s.editor.opening) (.start sturdy sturdy.simple) there
    known simple free outside unplaced drawn middle
  unfold Ends at made
  simp only [splitOn, ends_bind, ends_onEditor, Editor.ends_enact]
  split at made
  · rename_i m answer
    obtain ⟨rfl, first, second, fresh, diagram⟩ := made
    rw [answer]
    cases middle with
    | none =>
      refine (tell_undergoes heard diagram _ s.places).imp ?_ fun _ _ => id
      rintro x u ⟨answer, places, undergoes⟩
      exact ⟨answer, ⟨first, second, fresh, undergoes⟩, places⟩
    | some p =>
      dsimp only
      rw [ends_bind, ends_modify]
      refine (tell_undergoes heard diagram _ (Keyed.put (n.id, p) s.places)).imp ?_ fun _ _ => id
      rintro x u ⟨answer, places, undergoes⟩
      exact ⟨answer, ⟨first, second, fresh, undergoes⟩, places⟩
  · exact made.elim

theorem splitOn_collides (e : Edge) {n : Node} (simple : n.id.isSimple)
    (taken : s.diagram.hasNode n.id) (id : Value) (position : Except Error (Option Position)) :
    Ends (splitOn e n id position) s (fun _ _ => False) fun f u =>
      f = .duplicateId .node n.id.shown ∧ u = s := by
  have refused := Edit.splitEdge_collides (p := s.editor.opening) (e := e) position simple taken
  unfold Ends at refused
  simp only [splitOn, ends_bind, ends_onEditor, Editor.ends_enact]
  generalize (Edit.splitEdge e n position).run.run s.editor.opening = made at refused ⊢
  obtain ⟨_ | _, progress⟩ := made
  · obtain ⟨rfl, rfl⟩ := refused
    exact tell_nothing _
  · exact refused.elim

theorem Spliced.diagram_of_quiet {e : Edge} {n : Node} {middle : Option Position} {u : Session}
    (h : s.Spliced e n middle u.editor u.places) (quiet : s.editor.IsQuiet) :
    ∃ first second, s.diagram.Fresh first second ∧
      u.diagram = s.diagram.spliced e { n with position := middle } first second := by
  obtain ⟨first, second, fresh, undergoes⟩ := h.diagram
  exact ⟨first, second, fresh, undergoes.diagram quiet⟩

section Naming
variable {e : Edge} {shape : Text} {id text : Option Text} {middle : Option Position}

/-- Where its name is free, the new node comes on the edge, and that is recorded. -/
theorem newcomer_comes (sturdy : s.diagram.Sturdy) (there : e ∈ s.diagram.edges)
    (known : e.id.isSimple) (free : s.diagram.hasNode (.text (s.nameFor id)) = false)
    (drawn : ∀ d, (Edit.generatedId d (e.before (.text (s.nameFor id)))).isOk ∧
      (Edit.generatedId d (e.beyond (.text (s.nameFor id)))).isOk)
    (heard : s.editor.Tells (Edit.splitEdge e (s.newcomer shape id text) (.ok middle))
      fun _ _ => True) :
    Ends (edit Option.isSome do
        let n ← ofExcept (.ok (s.newcomer shape id text))
        splitOn e n (.text (s.nameFor id)) (.ok middle)) s
      (fun x u => Recorded s u ∧ x = some { s.newcomer shape id text with position := middle } ∧
        s.Spliced e (s.newcomer shape id text) middle u.editor u.places)
      fun _ _ => False := by
  have spliced := splitOn_splices (n := s.newcomer shape id text) sturdy there known rfl free rfl
    rfl drawn heard
  refine edit_records (fun x editor places =>
    x = some { s.newcomer shape id text with position := middle } ∧
      s.Spliced e (s.newcomer shape id text) middle editor places)
    (keeps_bind (ofExcept_confined _) fun n => splitOn_confined e n _ _) ?_
  simp only [ends_bind, ends_ofExcept]
  refine ⟨?_, by simp⟩
  rintro _ ⟨⟩
  refine spliced.imp ?_ fun _ _ => False.elim
  rintro _ u ⟨rfl, hu⟩
  exact ⟨rfl, rfl, hu⟩

/-- Where its name is taken, no node comes, and nothing else happens either. -/
theorem newcomer_collides (taken : s.diagram.hasNode (.text (s.nameFor id)))
    (position : Except Error (Option Position)) :
    Ends (edit Option.isSome do
        let n ← ofExcept (.ok (s.newcomer shape id text))
        splitOn e n (.text (s.nameFor id)) position) s (fun _ _ => False)
      fun f u => f = .duplicateId .node (s.nameFor id) ∧ u = s := by
  simp only [edit, ends_bind, ends_get, ends_ofExcept]
  refine ⟨?_, by simp⟩
  rintro _ ⟨⟩
  exact (splitOn_collides e (n := s.newcomer shape id text) rfl taken _ _).imp
    (fun _ _ => False.elim) fun _ _ hu => hu

end Naming

/-- Whoever listens without failing: where no edge leads from the one node to the other, nothing
happens. Otherwise the new node has the name that is given, or else the first free one of its form.
If the name is taken, nothing happens but that this is said. If it is free, the node is put on the
first such edge, at the place halfway between the ends if both have one, and that is recorded as one
edit. -/
theorem splitEdge_exact (sturdy : s.diagram.Sturdy) (named : s.diagram.IsNamed)
    {source target shape : Text} {id text : Option Text} {middle : Option Position}
    (heard : Step.Heard s
      (.splitEdge (.text source) (.text target) (.text shape) (.ofText? id) (.ofText? text)))
    (halfway : s.halfway (.text source) (.text target) = .ok middle)
    (copied : ∀ e, s.diagram.firstBetween? (.text source) (.text target) = some e →
      e.CanBeCopied) :
    (∃ k, FirstFree s.diagram k ∧ nextId s.diagram = numberedId k) ∧
    Ends (splitEdge (.text source) (.text target) (.text shape) (.ofText? id) (.ofText? text)) s
      (fun x u => match s.diagram.firstBetween? (.text source) (.text target) with
        | none => x = none ∧ u = s
        | some e =>
          let n := { s.newcomer shape id text with position := middle }
          s.diagram.hasNode n.id = false ∧ x = some n ∧ Recorded s u ∧
            s.Spliced e (s.newcomer shape id text) middle u.editor u.places ∧
            (s.editor.IsQuiet → ∃ first second, s.diagram.Fresh first second ∧
              u.diagram = s.diagram.spliced e n first second))
      fun f u => u = s ∧ (s.diagram.firstBetween? (.text source) (.text target)).isSome ∧
        s.diagram.hasNode (.text (s.nameFor id)) ∧ f = .duplicateId .node (s.nameFor id) := by
  obtain ⟨ids, between, first⟩ := between?_eq sturdy named source target
  refine ⟨nextId_spec s.diagram, ?_⟩
  simp only [splitEdge_eq, ends_bind, ends_get, ends_ofExcept, between]
  refine ⟨?_, by simp⟩
  rintro _ ⟨⟩
  rw [first]
  cases chosen : s.diagram.firstBetween? (.text source) (.text target) with
  | none => exact ⟨rfl, rfl⟩
  | some e =>
    have there : e ∈ s.diagram.edges := List.mem_of_find?_eq_some chosen
    have ends : e.source = .text source ∧ e.target = .text target := by
      simpa using List.find?_some chosen
    have found : s.edgeBetween? (.text source) (.text target) = .ok (some e) := by
      obtain ⟨g, graph, between⟩ := bind_eq_ok.mp between
      exact bind_eq_ok.mpr ⟨g, graph, bind_eq_ok.mpr ⟨ids, between,
        congrArg Except.ok (first.trans chosen)⟩⟩
    have heard := heard e _ found (nodeBetween_eq shape id text)
    rw [halfway] at heard
    dsimp only
    rw [halfway, nodeBetween_eq, orElse_ofText?]
    cases free : s.diagram.hasNode (.text (s.nameFor id)) with
    | false =>
      have drawn : ∀ d, (Edit.generatedId d (e.before (.text (s.nameFor id)))).isOk ∧
          (Edit.generatedId d (e.beyond (.text (s.nameFor id)))).isOk :=
        Edit.generatedId_halves (copied e chosen).1 (by rw [ends.1]; rfl) (by rw [ends.2]; rfl) rfl
          (copied e chosen).2
      refine (newcomer_comes sturdy there (named.edges e there).2 free drawn heard).imp ?_
        fun _ _ => False.elim
      rintro x u ⟨recorded, answer, spliced⟩
      exact ⟨free, answer, recorded, spliced, spliced.diagram_of_quiet⟩
    | true =>
      refine (newcomer_collides free _).imp (fun _ _ => False.elim) ?_
      rintro _ u ⟨rfl, rfl⟩
      exact ⟨rfl, rfl, rfl, rfl⟩

theorem sturdy_asked {requests : List Request} (proper : ∀ r ∈ requests, r.IsProper) :
    (brief.asked requests).diagram.Sturdy := by
  have started : start (.number (.int 2)) {} = .ok brief := rfl
  have attained : Attains Request.IsProper brief (brief.asked requests) :=
    attains_asked .start proper
  exact (attained.abides outlives_sturdy started fun _ proper => proper.uses).present.diagram

/-- The edge between the two nodes. -/
def bridge : Edge := { id := .text "e", source := .text "A", target := .text "B" }

/-- The place halfway between the two nodes. -/
def halfwayAcross : Position :=
  let one : Value := .number (.binary { negative := false, significand := 1, exponent := 0 })
  ⟨one, one⟩

theorem bridge_split_exact :
    let s := brief.asked bridging
    let n := { s.newcomer "rect" none none with position := some halfwayAcross }
    s.diagram.Sturdy ∧ s.diagram.IsNamed ∧ s.editor.IsQuiet ∧
      s.halfway (.text "A") (.text "B") = .ok (some halfwayAcross) ∧
      s.diagram.firstBetween? (.text "A") (.text "B") = some bridge ∧ bridge.CanBeCopied ∧
      n.id = .text "N3" ∧
      ∃ u first second,
        (splitEdge (.text "A") (.text "B") (.text "rect") .null .null).run.run s =
          (.ok (some n), u) ∧
        Recorded s u ∧ s.diagram.Fresh first second ∧
        u.diagram = s.diagram.spliced bridge n first second := by
  have sturdy : (brief.asked bridging).diagram.Sturdy := sturdy_asked (by
    simp [bridging, Request.IsProper, Step.IsProper, Command.IsProper, Command.reactsProperly])
  have named : (brief.asked bridging).diagram.IsNamed := ⟨by decide +kernel, by decide +kernel⟩
  have calm : ∀ l ∈ (brief.asked bridging).editor.known, l.reaction.IsCalm := by decide +kernel
  have halfway : (brief.asked bridging).halfway (.text "A") (.text "B") =
      .ok (some halfwayAcross) := by decide +kernel
  have chosen : (brief.asked bridging).diagram.firstBetween? (.text "A") (.text "B") =
      some bridge := by decide +kernel
  have copied : bridge.CanBeCopied := ⟨rfl, fun holds => absurd holds (by decide)⟩
  have name : (brief.asked bridging).nameFor none = "N3" := by decide +kernel
  have free : (brief.asked bridging).diagram.hasNode (.text "N3") = false := by decide +kernel
  -- nothing is to be computed from here on
  generalize brief.asked bridging = s at sturdy named calm halfway chosen name free ⊢
  have quiet := Editor.quiet_of_calm calm
  have heard : Step.Heard s
      (.splitEdge (.text "A") (.text "B") (.text "rect") (.ofText? none) (.ofText? none)) :=
    Step.heard_of_calm calm _
  have ends := (splitEdge_exact sturdy named heard halfway fun e found => by
    rw [chosen] at found
    cases found
    exact copied).2
  rw [chosen, name, free] at ends
  refine ⟨sturdy, named, quiet, halfway, chosen, copied, congrArg Value.text name, ?_⟩
  unfold Ends at ends
  split at ends
  · rename_i x answer
    obtain ⟨_, rfl, recorded, _, spliced⟩ := ends
    obtain ⟨first, second, fresh, diagram⟩ := spliced quiet
    exact ⟨_, first, second, Prod.ext answer rfl, recorded, fresh, diagram⟩
  · exact absurd ends.2.2.1 (by decide)

/-- No node without a name can be put on an edge that is too long: the ids of the two edges tell of
their operators, and these cannot be written. What has come of it by then stays, and nothing is
recorded. -/
theorem overlong_edge_not_split :
    ¬ ∀ s : Session, s.diagram.Sturdy → s.diagram.IsNamed → s.editor.IsQuiet →
      ∀ source target shape : Text, ∀ e,
        s.diagram.firstBetween? (.text source) (.text target) = some e →
        Ends (splitEdge (.text source) (.text target) (.text shape) .null .null) s
          (fun _ u => Recorded s u ∧ ∃ n first second, s.diagram.Fresh first second ∧
            u.diagram = s.diagram.spliced e n first second) fun _ _ => False := by
  intro splits
  have sturdy : (brief.asked stretching).diagram.Sturdy := sturdy_asked (by
    simp [stretching, Request.IsProper, Step.IsProper, Command.IsProper, Command.reactsProperly])
  have named : (brief.asked stretching).diagram.IsNamed := ⟨by decide +kernel, by decide +kernel⟩
  have calm : ∀ l ∈ (brief.asked stretching).editor.known, l.reaction.IsCalm := by decide +kernel
  have chosen : (brief.asked stretching).diagram.firstBetween? (.text "A") (.text "B") =
      some { bridge with length := .number (.int 100000000000000000000) } := by decide +kernel
  have fails : ((splitEdge (.text "A") (.text "B") (.text "rect") .null .null).run.run
      (brief.asked stretching)).1 = .error .uncountable := by decide +kernel
  generalize brief.asked stretching = s at sturdy named calm chosen fails
  have ends := splits s sturdy named (Editor.quiet_of_calm calm) _ _ "rect" _ chosen
  unfold Ends at ends
  rw [fails] at ends
  exact ends

end Session
end Flowchart
