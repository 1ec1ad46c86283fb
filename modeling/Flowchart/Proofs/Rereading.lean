import Flowchart.Proofs.Forest
import Flowchart.Proofs.Headers

/-! Nodes and subgraphs that are written and read again. Statements lead from one view of a reading
to another, and the statements of a forest lead to the view in which all of the forest has been
added, in the order in which it is laid out. -/
namespace Flowchart

/-- Each statement is written as a line. -/
def Renders (ws : List Written) (ls : List Text) : Prop :=
  List.Forall₂ (fun w l => w.line = .ok l ∧ Line l) ws ls

/-- The statements can be written, and reading them leads from one view to another. -/
def Leads (ws : List Written) (v w : View) : Prop :=
  ∃ ls, Renders ws ls ∧ ∀ r : Reading, r.Sound → r.view = v →
    ∃ r', r.readAll ls = .ok r' ∧ r'.Sound ∧ r'.view = w

namespace Leads
variable {ws ws' : List Written} {u v w : View}

theorem nil (v : View) : Leads [] v v :=
  ⟨[], .nil, fun r sound here => ⟨r, rfl, sound, here⟩⟩

theorem append (h : Leads ws u v) (h' : Leads ws' v w) : Leads (ws ++ ws') u w := by
  obtain ⟨ls, renders, reads⟩ := h
  obtain ⟨ls', renders', reads'⟩ := h'
  refine ⟨ls ++ ls', List.rel_append renders renders', fun r sound here => ?_⟩
  obtain ⟨r', read, sound', there⟩ := reads r sound here
  rw [Reading.readAll_append read]
  exact reads' r' sound' there

theorem cons {s : Written} (h : Leads [s] u v) (h' : Leads ws v w) : Leads (s :: ws) u w :=
  h.append h'

theorem one {s : Written} {l : Text} (written : s.line = .ok l) (line : Line l)
    (reads : ∀ r : Reading, r.Sound → r.view = v →
      ∃ r', r.read (.ofLine l) = .ok r' ∧ r'.view = w) : Leads [s] v w := by
  refine ⟨[l], .cons ⟨written, line⟩ .nil, fun r sound here => ?_⟩
  obtain ⟨r', read, there⟩ := reads r sound here
  refine ⟨r', ?_, sound.read read, there⟩
  rw [Reading.readAll, List.foldlM_cons, read]
  rfl

end Leads

/-- The statements can be written, and reading them leads from every view of one kind to a view of
another kind. -/
def Carries (ws : List Written) (P Q : View → Prop) : Prop :=
  ∃ ls, Renders ws ls ∧ ∀ r : Reading, r.Sound → P r.view →
    ∃ r', r.readAll ls = .ok r' ∧ r'.Sound ∧ Q r'.view

namespace Carries
variable {ws ws' : List Written} {P Q R : View → Prop}

theorem nil : Carries [] P P := ⟨[], .nil, fun r sound here => ⟨r, rfl, sound, here⟩⟩

theorem append (h : Carries ws P Q) (h' : Carries ws' Q R) : Carries (ws ++ ws') P R := by
  obtain ⟨ls, renders, reads⟩ := h
  obtain ⟨ls', renders', reads'⟩ := h'
  refine ⟨ls ++ ls', List.rel_append renders renders', fun r sound here => ?_⟩
  obtain ⟨r', read, sound', there⟩ := reads r sound here
  rw [Reading.readAll_append read]
  exact reads' r' sound' there

/-- Statement after statement, what each of them makes of a state of some kind is made. -/
theorem fold {α β : Type} {xs : List α} {w : α → List Written} {P : β → View → Prop}
    {f : β → α → β} {I : β → Prop}
    (step : ∀ x ∈ xs, ∀ b, I b → Carries (w x) (P b) (P (f b x)) ∧ I (f b x)) {b : β} (start : I b) :
    Carries (xs.flatMap w) (P b) (P (xs.foldl f b)) := by
  induction xs generalizing b with
  | nil => exact nil
  | cons x xs ih =>
    obtain ⟨first, next⟩ := step x List.mem_cons_self b start
    exact first.append (ih (fun y hy => step y (List.mem_cons_of_mem x hy)) next)

/-- Statements that each leave a kind of view as it is leave it as it is one after another. -/
theorem all (h : ∀ w ∈ ws, Carries [w] P P) : Carries ws P P := by
  induction ws with
  | nil => exact nil
  | cons w ws ih =>
    exact (h w List.mem_cons_self).append (ih fun w hw => h w (List.mem_cons_of_mem _ hw))

end Carries

theorem Leads.carries {ws : List Written} {v w : View} {Q : View → Prop} (h : Leads ws v w)
    (there : Q w) : Carries ws (· = v) Q := by
  obtain ⟨ls, renders, reads⟩ := h
  refine ⟨ls, renders, fun r sound here => ?_⟩
  obtain ⟨r', read, sound', view⟩ := reads r sound here
  exact ⟨r', read, sound', view ▸ there⟩

theorem Writing.checkIds_ok {ids : List Value} (h : ∀ id ∈ ids, id.isSimple) :
    checkIds ids = .ok () := by
  induction ids with
  | nil => rfl
  | cons id ids ih =>
    have rest := ih fun v hv => h v (List.mem_cons_of_mem id hv)
    rw [checkIds, List.forM_eq_forM] at rest ⊢
    rw [List.forM_cons, Value.simple, if_pos (h id List.mem_cons_self)]
    exact rest

/-- The node as its declaration is read in its place. -/
def Node.told (n : Node) : Node := { n.heard with parent := n.parent }

/-- The subgraph as far as its lines tell it. -/
def Subgraph.plain (g : Subgraph) : Subgraph := { g with classes := [] }

namespace View

/-- The view with further nodes and subgraphs. -/
def grow (v : View) (ns : List Node) (gs : List Subgraph) : View :=
  { v with
    nodes := v.nodes ++ ns.map Node.told
    subgraphs := v.subgraphs ++ gs.map Subgraph.plain }

/-- The view with a further subgraph open. -/
def within (v : View) (id : Text) : View := { v with opened := id :: v.opened }

/-- What a new entity is inside of. -/
def inside (v : View) : Value := .ofText? v.opened.head?

/-- There are no edges yet, and the nodes and the subgraphs are new. -/
structure Room (v : View) (ns : List Node) (gs : List Subgraph) : Prop where
  no_edges : v.edges = []
  nodes : (v.nodes.map Node.id ++ ns.map Node.id).Nodup
  subgraphs : (v.subgraphs.map Subgraph.id ++ gs.map Subgraph.id).Nodup

variable {v : View} {ns ns' : List Node} {gs gs' : List Subgraph}

@[simp] theorem grow_nil (v : View) : v.grow [] [] = v := by simp [grow]

theorem grow_grow (v : View) : (v.grow ns gs).grow ns' gs' = v.grow (ns ++ ns') (gs ++ gs') := by
  simp [grow]

theorem grow_within (id : Text) : (v.within id).grow ns gs = (v.grow ns gs).within id := rfl

theorem close_within (id : Text) : (v.within id).close = v := rfl

@[simp] theorem inside_grow : (v.grow ns gs).inside = v.inside := rfl

theorem ids_nodes_grow :
    (v.grow ns gs).nodes.map Node.id = v.nodes.map Node.id ++ ns.map Node.id := by
  simp [grow, Node.told, Function.comp_def]

theorem ids_subgraphs_grow : (v.grow ns gs).subgraphs.map Subgraph.id =
    v.subgraphs.map Subgraph.id ++ gs.map Subgraph.id := by
  simp [grow, Subgraph.plain, Function.comp_def]

namespace Room

theorem first (h : v.Room (ns ++ ns') (gs ++ gs')) : v.Room ns gs where
  no_edges := h.no_edges
  nodes := by
    have nodes := h.nodes
    rw [List.map_append, ← List.append_assoc] at nodes
    exact nodes.of_append_left
  subgraphs := by
    have subgraphs := h.subgraphs
    rw [List.map_append, ← List.append_assoc] at subgraphs
    exact subgraphs.of_append_left

theorem rest (h : v.Room (ns ++ ns') (gs ++ gs')) : (v.grow ns gs).Room ns' gs' where
  no_edges := h.no_edges
  nodes := by
    rw [ids_nodes_grow, List.append_assoc, ← List.map_append]
    exact h.nodes
  subgraphs := by
    rw [ids_subgraphs_grow, List.append_assoc, ← List.map_append]
    exact h.subgraphs

theorem fresh_node {n : Node} (h : v.Room (n :: ns) gs) : n.id ∉ v.nodes.map Node.id :=
  fun here => (List.nodup_append.mp h.nodes).2.2 _ here _ List.mem_cons_self rfl

theorem fresh_subgraph {g : Subgraph} (h : v.Room ns (g :: gs)) :
    g.id ∉ v.subgraphs.map Subgraph.id :=
  fun here => (List.nodup_append.mp h.subgraphs).2.2 _ here _ List.mem_cons_self rfl

end Room
end View

namespace Reading
variable {r : Reading}

theorem node?_eq_none {id : Value} (fresh : id ∉ r.view.nodes.map Node.id) :
    r.diagram.node? id = none :=
  Keyed.find?_eq_none_iff.mpr fresh

theorem hasSubgraph_eq_false {id : Value} (fresh : id ∉ r.view.subgraphs.map Subgraph.id) :
    r.diagram.hasSubgraph id = false := by
  rw [Diagram.hasSubgraph, ← Bool.not_eq_true, Keyed.has_iff]
  exact fresh

end Reading

section
variable {v : View} {ns : List Node}

theorem leads_node {n : Node} (h : n.Writable) (simple : n.parent.isSimple)
    (room : v.Room (n :: ns) []) : Leads [.node n] v (v.enter n.heard) := by
  obtain ⟨l, written, line, reads⟩ := Node.exists_declaredBy h
  have written : (Written.node n).line = .ok l := by
    rw [Written.line, Writing.checkIds_ok (by simpa using simple), written]
    rfl
  refine .one written line fun r sound here => ?_
  subst here
  exact reads sound room.no_edges (Reading.node?_eq_none room.fresh_node)

theorem leads_outside (h : ∀ n ∈ ns, n.Writable ∧ n.parent = .null) (outside : v.opened = [])
    (room : v.Room ns []) : Leads (ns.map .node) v (v.grow ns []) := by
  induction ns generalizing v with
  | nil => simpa using Leads.nil v
  | cons n ns ih =>
    obtain ⟨writable, free⟩ := h n List.mem_cons_self
    have entered : v.enter n.heard = v.grow [n] [] := by
      have told : n.heard = n.told := by rw [Node.told, free, ← n.heard_parent]
      simp [View.enter, outside, View.grow, ← told]
    have first := leads_node writable (by rw [free]; rfl) room
    have later : (v.grow [n] []).Room ns [] := View.Room.rest room
    have rest := ih (v := v.grow [n] []) (fun m hm => h m (List.mem_cons_of_mem n hm)) outside later
    rw [entered] at first
    rw [View.grow_grow] at rest
    exact first.cons rest

/-- The view in which a subgraph is open and some of its nodes have come. -/
def View.filled (v : View) (id : Text) (g : Subgraph) (ns : List Node) : View :=
  (v.grow ns [{ g with members := ns.map Node.id }]).within id

theorem enter_filled {id : Text} {g : Subgraph} (hid : g.id = .text id) {n : Node}
    (parent : n.parent = .text id) (fresh : g.id ∉ v.subgraphs.map Subgraph.id)
    (new : n.id ∉ ns.map Node.id) :
    (v.filled id g ns).enter n.heard = v.filled id g (ns ++ [n]) := by
  have others : v.subgraphs.map (fun k => if k.id = .text id then k.enlist n.id else k) =
      v.subgraphs := by
    refine (List.map_congr_left fun k hk => if_neg fun same => fresh ?_).trans (List.map_id' _)
    rw [hid, ← same]
    exact List.mem_map_of_mem hk
  have unlisted :
      ¬ Subgraph.lists { g with members := ns.map Node.id, classes := [] } n.id = true :=
    fun listed => new (Subgraph.lists_iff.mp listed)
  have listed : Subgraph.enlist { g with members := ns.map Node.id, classes := [] } n.id =
      { g with members := (ns ++ [n]).map Node.id, classes := [] } := by
    rw [Subgraph.enlist, if_neg unlisted]
    simp
  simp only [View.enter, View.filled, View.within, View.grow, List.head?_cons, List.map_append,
    List.map_cons, List.map_nil, others, Subgraph.plain, Node.told, Node.heard_id, parent,
    if_pos hid, listed, List.append_assoc]

theorem leads_members {id : Text} {g : Subgraph} (hid : g.id = .text id)
    (fresh : g.id ∉ v.subgraphs.map Subgraph.id) {ns' : List Node}
    (h : ∀ n ∈ ns', n.Writable ∧ n.parent = .text id) (room : v.Room (ns ++ ns') []) :
    Leads (ns'.map .node) (v.filled id g ns) (v.filled id g (ns ++ ns')) := by
  induction ns' generalizing ns with
  | nil => simpa using Leads.nil _
  | cons n ns' ih =>
    obtain ⟨writable, parent⟩ := h n List.mem_cons_self
    have later : (v.grow ns []).Room (n :: ns') [] := View.Room.rest room
    have here : (v.filled id g ns).Room (n :: ns') [] := ⟨later.no_edges, later.nodes, by
      have grown : (v.filled id g ns).subgraphs.map Subgraph.id =
          v.subgraphs.map Subgraph.id ++ [g.id] := by
        simp [View.filled, View.within, View.grow, Subgraph.plain]
      have old : (v.subgraphs.map Subgraph.id).Nodup := by simpa using room.subgraphs
      rw [grown, List.map_nil, List.append_nil]
      refine List.nodup_append.mpr ⟨old, List.nodup_singleton _, ?_⟩
      rintro a ha b hb rfl
      exact fresh (List.mem_singleton.mp hb ▸ ha)⟩
    have new : n.id ∉ ns.map Node.id := by
      have nodes := room.nodes.of_append_right
      rw [List.map_append] at nodes
      exact fun old => (List.nodup_append.mp nodes).2.2 _ old _ List.mem_cons_self rfl
    have first := leads_node writable (by rw [parent]; rfl) here
    rw [enter_filled hid parent fresh new] at first
    have whole : ns ++ n :: ns' = (ns ++ [n]) ++ ns' := by simp
    rw [whole] at room ⊢
    exact first.cons (ih (fun m hm => h m (List.mem_cons_of_mem n hm)) room)

/-! ### Subgraphs -/

theorem leads_header {id : Text} {g : Subgraph} (h : g.Writable) (hid : g.id = .text id)
    (inside : g.parent = v.inside) (simple : ∀ m ∈ g.members, m.isSimple)
    (fresh : g.id ∉ v.subgraphs.map Subgraph.id) :
    Leads [.subgraph g] v (v.filled id { g with direction := none } []) := by
  obtain ⟨id', title, header, hid', htitle, written, line, reads⟩ := Subgraph.subgraph_eq h
  obtain rfl : id = id' := Value.text.inj (hid.symm.trans hid')
  have parent : ∀ p ∈ [g.parent], p.isSimple := by
    rw [inside, View.inside]
    cases v.opened.head? <;> simp [Value.ofText?, Value.isSimple]
  have written : (Written.subgraph g).line = .ok ("subgraph ".toList ++ header) := by
    rw [Written.line, Writing.checkIds_ok parent, written, Writing.checkIds_ok simple]
    rfl
  refine .one written (Subgraph.line_header line) fun r _ here => ?_
  subst here
  obtain ⟨r', read, view⟩ := Reading.read_subgraph line reads
    (Reading.hasSubgraph_eq_false (hid ▸ fresh))
  refine ⟨r', read, view.trans ?_⟩
  simp [View.opening, View.filled, View.within, View.grow, Subgraph.plain, hid, htitle, inside,
    View.inside]

theorem turn_filled {id : Text} {g : Subgraph} (hid : g.id = .text id)
    (fresh : g.id ∉ v.subgraphs.map Subgraph.id) (direction : Direction) :
    (v.filled id { g with direction := none } []).turn id direction =
      v.filled id { g with direction := some direction } [] := by
  have others : v.subgraphs.map (fun k => if k.id = .text id then
      { k with direction := some direction } else k) = v.subgraphs := by
    refine (List.map_congr_left fun k hk => if_neg fun same => fresh ?_).trans (List.map_id' _)
    rw [hid, ← same]
    exact List.mem_map_of_mem hk
  simp only [View.turn, View.filled, View.within, View.grow, List.map_append, List.map_cons,
    List.map_nil, others, Subgraph.plain, if_pos hid]

theorem leads_direction {id : Text} {g : Subgraph} (hid : g.id = .text id)
    (fresh : g.id ∉ v.subgraphs.map Subgraph.id) :
    Leads (g.direction.map .direction).toList (v.filled id { g with direction := none } [])
      (v.filled id g []) := by
  cases given : g.direction with
  | none =>
    have same : { g with direction := none } = g := by rw [← given]
    rw [same]
    exact .nil _
  | some direction =>
    have same : { g with direction := some direction } = g := by rw [← given]
    have line : Line ("direction ".toList ++ direction.name) := by
      have chars :
          ∀ c ∈ "direction ".toList ++ direction.name, isLineBreak c = false ∧ c ≠ '%' := by
        cases direction <;> decide
      refine ⟨.of_chars chars, ⟨?_, ?_⟩, ?_, ?_⟩
      · cases direction <;> exact Text.stops_cons.mpr (by decide)
      · cases direction <;> exact Text.stops_cons.mpr (by decide)
      · cases direction <;> decide
      · cases direction <;> decide
    refine .one rfl line fun r sound here => ?_
    have opened : r.opened.head? = some id := congrArg (fun v => v.opened.head?) here
    obtain ⟨r', read, view⟩ := Reading.read_direction sound opened direction
    refine ⟨r', read, ?_⟩
    rw [view, here, turn_filled hid fresh, same]

theorem leads_close (v : View) (id : Text) : Leads [.close] (v.within id) v := by
  have line : Line "end".toList := by
    refine ⟨.of_chars (by decide), ⟨?_, ?_⟩, by decide, by decide⟩
    · exact Text.stops_cons.mpr (by decide)
    · exact Text.stops_cons.mpr (by decide)
  refine .one rfl line fun r _ here => ?_
  have opened : r.opened = id :: v.opened := congrArg View.opened here
  obtain ⟨r', read, view⟩ := Reading.read_close opened
  exact ⟨r', read, by rw [view, here, View.close_within]⟩

theorem leads_flatMap {α : Type} {xs : List α} {f : α → List Written} {ns : α → List Node}
    {gs : α → List Subgraph} {parent : Value} (h : ∀ x ∈ xs, ∀ v : View, v.inside = parent →
      v.Room (ns x) (gs x) → Leads (f x) v (v.grow (ns x) (gs x)))
    (inside : v.inside = parent) (room : v.Room (xs.flatMap ns) (xs.flatMap gs)) :
    Leads (xs.flatMap f) v (v.grow (xs.flatMap ns) (xs.flatMap gs)) := by
  induction xs generalizing v with
  | nil => simpa using Leads.nil v
  | cons x xs ih =>
    simp only [List.flatMap_cons] at room ⊢
    have first := h x List.mem_cons_self v inside room.first
    have rest := ih (v := v.grow (ns x) (gs x)) (fun y hy => h y (List.mem_cons_of_mem x hy)) inside
      room.rest
    rw [View.grow_grow] at rest
    exact first.append rest

end

namespace Diagram
variable {d : Diagram}

theorem flatMap_enclosed_succ (d : Diagram) (levels : Nat) (g : Subgraph) :
    (d.enclosed (levels + 1) g).flatMap d.nodesOf = d.nodesOf g ++
      (d.childrenOf g.id).flatMap fun c => (d.enclosed levels c).flatMap d.nodesOf := by
  rw [enclosed, List.flatMap_cons, List.flatMap_assoc]

theorem statements_blockOf_succ (d : Diagram) (levels depth : Nat) (g : Subgraph) :
    (d.blockOf (levels + 1) depth g).map (·.2) = [.subgraph g] ++
      (g.direction.map .direction).toList ++ (d.nodesOf g).map .node ++
      (d.childrenOf g.id).flatMap (fun c => (d.blockOf levels (depth + 1) c).map (·.2)) ++
      [.close] := by
  cases given : g.direction <;> simp [blockOf, given, List.map_flatMap]

/-- All that the diagram encloses can be written and read. -/
structure Forested (d : Diagram) : Prop extends d.Integral where
  writableNodes : ∀ n ∈ d.nodes, n.Writable
  writableSubgraphs : ∀ g ∈ d.subgraphs, g.Writable

namespace Forested

theorem simple_members (h : d.Forested) {g : Subgraph} (hg : g ∈ d.subgraphs) :
    ∀ m ∈ g.members, m.isSimple := by
  intro m hm
  obtain ⟨n, hn, rfl, _⟩ := (h.members g hg m).mp hm
  obtain ⟨t, id, _⟩ := (h.writableNodes n hn).id
  rw [id]
  rfl

theorem filled_nodesOf (h : d.Forested) {g : Subgraph} (hg : g ∈ d.subgraphs) (id : Text)
    (v : View) : v.filled id g (d.nodesOf g) = (v.grow (d.nodesOf g) [g]).within id := by
  rw [View.filled, h.ids_nodesOf hg]

/-- The block of a subgraph adds all that the subgraph encloses. -/
theorem leads_block (h : d.Forested) {levels depth : Nat} {g : Subgraph} (hg : g ∈ d.subgraphs)
    {v : View} (inside : v.inside = g.parent)
    (room : v.Room ((d.enclosed levels g).flatMap d.nodesOf) (d.enclosed levels g)) :
    Leads ((d.blockOf levels depth g).map (·.2)) v
      (v.grow ((d.enclosed levels g).flatMap d.nodesOf) (d.enclosed levels g)) := by
  induction levels generalizing g v depth with
  | zero => simpa [blockOf, enclosed] using Leads.nil v
  | succ levels ih =>
    obtain ⟨id, hid, _⟩ := (h.writableSubgraphs g hg).id
    rw [flatMap_enclosed_succ, enclosed] at room ⊢
    have fresh := room.fresh_subgraph
    have own : v.Room ([] ++ d.nodesOf g) ([] ++ []) := View.Room.first room
    have nodes : ∀ n ∈ d.nodesOf g, n.Writable ∧ n.parent = .text id := by
      intro n hn
      obtain ⟨there, parent⟩ := (h.mem_nodesOf hg).mp hn
      exact ⟨h.writableNodes n there, parent.trans hid⟩
    have header :=
      leads_header (h.writableSubgraphs g hg) hid inside.symm (h.simple_members hg) fresh
    have members := leads_members hid fresh nodes own
    -- what is below has room once the subgraph and its own nodes are there
    have later : ((v.grow (d.nodesOf g) [g]).within id).Room
        ((d.childrenOf g.id).flatMap fun c => (d.enclosed levels c).flatMap d.nodesOf)
        ((d.childrenOf g.id).flatMap (d.enclosed levels)) := by
      have rest : (v.grow (d.nodesOf g) [g]).Room _ _ := View.Room.rest room
      exact ⟨rest.no_edges, rest.nodes, rest.subgraphs⟩
    have inner : ∀ c ∈ d.childrenOf g.id, ∀ v : View, v.inside = g.id →
        v.Room ((d.enclosed levels c).flatMap d.nodesOf) (d.enclosed levels c) →
        Leads ((d.blockOf levels (depth + 1) c).map (·.2)) v
          (v.grow ((d.enclosed levels c).flatMap d.nodesOf) (d.enclosed levels c)) :=
      fun c hc v inside room =>
        ih (mem_childrenOf.mp hc).1 (inside.trans (mem_childrenOf.mp hc).2.symm) room
    have here : ((v.grow (d.nodesOf g) [g]).within id).inside = g.id := hid.symm
    have children := leads_flatMap inner here later
    rw [List.nil_append, h.filled_nodesOf hg] at members
    rw [View.grow_within, View.grow_grow] at children
    rw [statements_blockOf_succ]
    exact (((header.append (leads_direction hid fresh)).append members).append children).append
      (leads_close _ id)

/-- The nodes outside and the blocks add all nodes and all subgraphs. -/
theorem leads_forest (h : d.Forested) (direction : Direction) :
    Leads (d.outsideNodes.map .node ++ d.blocks.map (·.2)) { direction }
      (View.grow { direction } (d.outsideNodes ++ d.inOrder.flatMap d.nodesOf)
        d.inOrder) := by
  have room : View.Room { direction } (d.outsideNodes ++ d.inOrder.flatMap d.nodesOf)
      ([] ++ d.inOrder) := by
    refine ⟨rfl, ?_, ?_⟩
    · exact (h.perm_nodes.map Node.id).nodup_iff.mpr h.distinct.nodes
    · exact (h.perm_inOrder.map Subgraph.id).nodup_iff.mpr h.distinct.subgraphs
  have outside : ∀ n ∈ d.outsideNodes, n.Writable ∧ n.parent = .null := by
    intro n hn
    obtain ⟨hn, free⟩ := List.mem_filter.mp hn
    exact ⟨h.writableNodes n hn, (outside_iff (h.nodeParent n hn)).mp free⟩
  have blocks : d.blocks.map (·.2) = d.outermost.flatMap fun g =>
      (d.blockOf d.subgraphs.length 1 g).map (·.2) := by
    rw [Diagram.blocks, List.map_flatMap]
    rfl
  have split : d.inOrder.flatMap d.nodesOf = d.outermost.flatMap fun g =>
      (d.enclosed d.subgraphs.length g).flatMap d.nodesOf := by
    rw [inOrder, List.flatMap_assoc]
  have alone : View.Room { direction } d.outsideNodes [] := View.Room.first room
  have first := leads_outside outside rfl alone
  have later : (View.grow { direction } d.outsideNodes []).Room _ _ :=
    View.Room.rest room
  rw [split, inOrder] at later ⊢
  have block : ∀ g ∈ d.outermost, ∀ v : View, v.inside = .null →
      v.Room ((d.enclosed d.subgraphs.length g).flatMap d.nodesOf)
        (d.enclosed d.subgraphs.length g) →
      Leads ((d.blockOf d.subgraphs.length 1 g).map (·.2)) v
        (v.grow ((d.enclosed d.subgraphs.length g).flatMap d.nodesOf)
          (d.enclosed d.subgraphs.length g)) :=
    fun g hg v inside room =>
      h.leads_block (h.mem_outermost.mp hg).1 (inside.trans (h.mem_outermost.mp hg).2.symm) room
  have rest := leads_flatMap block rfl later
  rw [View.grow_grow, List.nil_append] at rest
  rw [blocks]
  exact first.append rest

end Forested
end Diagram
end Flowchart
