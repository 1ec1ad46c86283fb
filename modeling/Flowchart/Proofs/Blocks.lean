import Flowchart.Proofs.Assembling

/-! The statements of an integral diagram, in blocks. A block opens with the header of a subgraph
and closes with one end, and between them stand the nodes and the blocks that the subgraph encloses.
All nodes, subgraphs and edges are told, each of them once and in its place. -/
namespace Flowchart

namespace Written

/-- The node that the statement declares. -/
def node? : Written → Option Node
  | .node n => some n
  | _ => none

/-- The subgraph that the statement opens. -/
def subgraph? : Written → Option Subgraph
  | .subgraph g => some g
  | _ => none

/-- The edge that the statement draws. -/
def edge? : Written → Option Edge
  | .edge e => some e
  | _ => none

/-- Does the statement only say more of what came before it? -/
def dresses : Written → Bool
  | .properties _ | .define _ | .assign _ _ | .style _ _ | .linkStyle _ _ | .click _ _ _ _ => true
  | _ => false

/-- The subgraphs that are open after the statement, the innermost first. -/
def after (opened : List Value) : Written → List Value
  | .subgraph g => g.id :: opened
  | .close => opened.tail
  | _ => opened

/-- The subgraph that the statement closes. -/
def closed? (opened : List Value) : Written → Option Value
  | .close => opened.head?
  | _ => none

/-- The statement stands in its place: nodes and subgraphs in the subgraph that is their parent, or
in none where that is null, and a direction in the subgraph that has it. What is no part of a block
stands outside all of them. -/
def Suits (d : Diagram) (opened : List Value) : Written → Prop
  | .node n => n.parent = opened.headD .null
  | .subgraph g => g.parent = opened.headD .null
  | .direction dir => ∃ g ∈ d.subgraphs, opened.head? = some g.id ∧ g.direction = some dir
  | .close => opened ≠ []
  | _ => opened = []

theorem nothing_of_dresses {w : Written} (h : w.dresses = true) :
    w.node? = none ∧ w.subgraph? = none ∧ w.edge? = none := by
  cases w with
  | properties | define | assign | style | linkStyle | click => exact ⟨rfl, rfl, rfl⟩
  | _ => cases h

theorem flat_of_dresses {d : Diagram} {w : Written} (h : w.dresses = true) :
    w.after [] = [] ∧ w.closed? [] = none ∧ w.subgraph? = none ∧ w.Suits d [] := by
  cases w with
  | properties | define | assign | style | linkStyle | click => exact ⟨rfl, rfl, rfl, rfl⟩
  | _ => cases h

end Written

/-- The statements, each with the subgraphs that are open where it stands. -/
def standing (opened : List Value) : List Written → List (List Value × Written)
  | [] => []
  | w :: ws => (opened, w) :: standing (w.after opened) ws

/-- The subgraphs that are open after the statements. -/
def openAfter (opened : List Value) (ws : List Written) : List Value :=
  ws.foldl Written.after opened

theorem standing_append (opened : List Value) (ws vs : List Written) :
    standing opened (ws ++ vs) = standing opened ws ++ standing (openAfter opened ws) vs := by
  induction ws generalizing opened with
  | nil => rfl
  | cons w ws ih => exact congrArg (_ :: ·) (ih _)

theorem openAfter_append (opened : List Value) (ws vs : List Written) :
    openAfter opened (ws ++ vs) = openAfter (openAfter opened ws) vs := List.foldl_append

/-- Every statement stands in its place, every subgraph that is opened is closed once, and nothing
else is. -/
structure InPlace (d : Diagram) (opened : List Value) (ws : List Written) : Prop where
  suits : ∀ p ∈ standing opened ws, p.2.Suits d p.1
  ends : ((standing opened ws).filterMap fun p => p.2.closed? p.1).Perm
    ((ws.filterMap Written.subgraph?).map Subgraph.id)
  settled : openAfter opened ws = opened

namespace InPlace
variable {d : Diagram} {opened : List Value} {ws vs : List Written}

theorem nil (d : Diagram) (opened : List Value) : InPlace d opened [] :=
  ⟨by simp [standing], .nil, rfl⟩

theorem append (h : InPlace d opened ws) (h' : InPlace d opened vs) :
    InPlace d opened (ws ++ vs) where
  suits := by
    rw [standing_append, h.settled]
    intro p hp
    exact (List.mem_append.mp hp).elim (h.suits p) (h'.suits p)
  ends := by
    rw [standing_append, h.settled, List.filterMap_append, List.filterMap_append, List.map_append]
    exact h.ends.append h'.ends
  settled := by rw [openAfter_append, h.settled, h'.settled]

/-- Statements that open and close nothing. -/
theorem of_flat (flat : ∀ w ∈ ws, w.after opened = opened ∧ w.closed? opened = none ∧
    w.subgraph? = none ∧ w.Suits d opened) : InPlace d opened ws := by
  induction ws with
  | nil => exact .nil d opened
  | cons w ws ih =>
    obtain ⟨same, not_end, no_header, suits⟩ := flat w List.mem_cons_self
    have first : InPlace d opened [w] :=
      ⟨by simpa [standing] using suits, by simp [standing, not_end, no_header], same⟩
    exact first.append (ih fun v hv => flat v (List.mem_cons_of_mem w hv))

/-- What is in its place inside a subgraph is so between the header and the end of it. -/
theorem wrap {g : Subgraph} (outer : g.parent = opened.headD .null)
    (h : InPlace d (g.id :: opened) ws) : InPlace d opened (.subgraph g :: ws ++ [.close]) where
  suits := by
    rw [List.cons_append, standing, standing_append, Written.after, h.settled]
    simp only [List.forall_mem_cons, List.forall_mem_append]
    exact ⟨outer, h.suits, by simp [standing, Written.Suits]⟩
  ends := by
    rw [List.cons_append, standing, standing_append, Written.after, h.settled]
    simp only [standing, Written.closed?, Written.subgraph?, List.filterMap_cons,
      List.filterMap_append, List.filterMap_nil, List.head?_cons, List.append_nil, List.map_cons]
    exact (List.perm_append_singleton _ _).trans (h.ends.cons _)
  settled := by
    rw [List.cons_append, openAfter, List.foldl_cons]
    exact (openAfter_append _ _ _).trans (congrArg List.tail h.settled)

end InPlace

/-! ### Blocks -/

/-- The blocks of subgraphs at a depth, one after another. A block is the header of its subgraph,
the direction if there is one, the members in their order, the blocks of the subgraphs inside, and
one end. -/
inductive Blocks (d : Diagram) : Nat → List Subgraph → List (Nat × Written) → Prop
  | nil {depth : Nat} : Blocks d depth [] []
  | cons {depth : Nat} {g : Subgraph} {gs : List Subgraph} {nodes : List Node}
      {inner rest : List (Nat × Written)} (members : nodes.map Node.id = g.members)
      (there : ∀ n ∈ nodes, n ∈ d.nodes) (inside : Blocks d (depth + 1) (d.childrenOf g.id) inner)
      (next : Blocks d depth gs rest) :
      Blocks d depth (g :: gs) ([(depth, .subgraph g)] ++
        (g.direction.map fun dir => (depth + 1, .direction dir)).toList ++
        nodes.map (fun n => (depth + 1, .node n)) ++ inner ++ [(depth, .close)] ++ rest)

namespace Diagram
variable {d : Diagram}

/-- The subgraph itself and the subgraphs that it encloses. -/
def under (d : Diagram) (id : Value) : List Subgraph :=
  d.subgraphs.filter fun k => Edit.wouldCycle d id k.id

theorem mem_under_self {g : Subgraph} (hg : g ∈ d.subgraphs) : g ∈ d.under g.id :=
  List.mem_filter.mpr ⟨hg, wouldCycle_iff.mpr .refl⟩

namespace Integral

theorem length_under_child (h : d.Integral) {g c : Subgraph} (hg : g ∈ d.subgraphs)
    (hc : c ∈ d.childrenOf g.id) : (d.under c.id).length < (d.under g.id).length := by
  have step := h.under_child hg hc
  have fewer : d.under c.id = (d.under g.id).filter fun k => Edit.wouldCycle d c.id k.id := by
    rw [under, under, List.filter_filter]
    apply List.filter_congr
    intro k _
    rw [Bool.eq_iff_iff, Bool.and_eq_true, wouldCycle_iff, wouldCycle_iff]
    exact ⟨fun way => ⟨way, way.tail step⟩, And.left⟩
  rw [fewer]
  apply List.length_filter_lt_length_iff_exists.mpr
  refine ⟨g, mem_under_self hg, ?_⟩
  rw [wouldCycle_iff]
  intro way
  exact h.acyclic g.id (.tail' way step)

/-- What is laid out for subgraphs are their blocks, if the levels suffice for what they enclose. -/
theorem blocks_flatMap (h : d.Integral) {levels depth : Nat} {gs : List Subgraph}
    (there : ∀ g ∈ gs, g ∈ d.subgraphs) (enough : ∀ g ∈ gs, (d.under g.id).length ≤ levels) :
    Blocks d depth gs (gs.flatMap (d.blockOf levels depth)) := by
  induction levels generalizing depth gs with
  | zero =>
    cases gs with
    | nil => exact .nil
    | cons g gs =>
      have some_level := List.length_pos_of_mem (mem_under_self (there g List.mem_cons_self))
      have none_left := enough g List.mem_cons_self
      omega
  | succ levels deeper =>
    induction gs with
    | nil => exact .nil
    | cons g gs ih =>
      obtain ⟨hg, there⟩ := List.forall_mem_cons.mp there
      obtain ⟨room, enough⟩ := List.forall_mem_cons.mp enough
      rw [List.flatMap_cons, blockOf]
      have known : ∀ n ∈ d.nodesOf g, n ∈ d.nodes := fun n hn => ((h.mem_nodesOf hg).mp hn).1
      refine .cons (h.ids_nodesOf hg) known ?_ (ih there enough)
      apply deeper
      · intro c hc
        exact (mem_childrenOf.mp hc).1
      · intro c hc
        have less := h.length_under_child hg hc
        omega

end Integral

/-- A member of a subgraph is a node that has the subgraph as its parent. -/
theorem Integral.parent_member (h : d.Integral) {g : Subgraph} (hg : g ∈ d.subgraphs) {n : Node}
    (hn : n ∈ d.nodes) (member : n.id ∈ g.members) : n.parent = g.id := by
  obtain ⟨m, hm, same, parent⟩ := (h.members g hg n.id).mp member
  obtain rfl : m = n := Keyed.eq_of_key_eq h.distinct.nodes hm hn same
  exact parent

/-- In blocks all statements are in their places. -/
theorem Integral.inPlace_blocks (h : d.Integral) {depth : Nat} {gs : List Subgraph}
    {ws : List (Nat × Written)} (blocks : Blocks d depth gs ws) {opened : List Value}
    (there : ∀ g ∈ gs, g ∈ d.subgraphs ∧ g.parent = opened.headD .null) :
    InPlace d opened (ws.map (·.2)) := by
  induction blocks generalizing opened with
  | nil => exact .nil d opened
  | @cons depth g gs nodes inner rest members known _ _ inside next =>
    obtain ⟨⟨hg, outer⟩, there⟩ := List.forall_mem_cons.mp there
    have direction : InPlace d (g.id :: opened) (g.direction.map Written.direction).toList := by
      apply InPlace.of_flat
      intro w hw
      obtain ⟨dir, given, rfl⟩ : ∃ dir, g.direction = some dir ∧ Written.direction dir = w := by
        simpa using hw
      exact ⟨rfl, rfl, rfl, g, hg, rfl, given⟩
    have own : InPlace d (g.id :: opened) (nodes.map .node) := by
      apply InPlace.of_flat
      intro w hw
      obtain ⟨n, hn, rfl⟩ := List.mem_map.mp hw
      have member : n.id ∈ g.members := members ▸ List.mem_map_of_mem hn
      exact ⟨rfl, rfl, rfl, h.parent_member hg (known n hn) member⟩
    have children : InPlace d (g.id :: opened) (inner.map (·.2)) := by
      apply inside
      intro c hc
      exact mem_childrenOf.mp hc
    have block := (InPlace.wrap outer ((direction.append own).append children)).append (next there)
    cases given : g.direction <;> simpa [given, Function.comp_def] using block

/-! ### Everything once -/

/-- What is gathered from a block is what is gathered from the headers and the nodes in it. -/
theorem filterMap_blockOf {α : Type} {f : Written → Option α}
    (turns : ∀ dir, f (.direction dir) = none) (ends : f .close = none) (levels depth : Nat)
    (g : Subgraph) :
    ((d.blockOf levels depth g).map (·.2)).filterMap f = (d.enclosed levels g).flatMap fun k =>
      (f (.subgraph k)).toList ++ (d.nodesOf k).filterMap fun n => f (.node n) := by
  induction levels generalizing depth g with
  | zero => rfl
  | succ levels ih =>
    have header : [Written.subgraph g].filterMap f = (f (.subgraph g)).toList := by
      cases got : f (.subgraph g) <;> simp [got]
    have direction : (g.direction.map Written.direction).toList.filterMap f = [] := by
      cases g.direction <;> simp [turns]
    rw [statements_blockOf_succ, enclosed, List.flatMap_cons, List.flatMap_assoc]
    simp only [List.filterMap_append, List.filterMap_map, List.filterMap_flatMap, header, direction,
      List.filterMap_cons, ends, List.filterMap_nil, List.append_nil, ih]
    rfl

theorem Integral.blocks (h : d.Integral) : Blocks d 1 (d.childrenOf .null) d.blocks := by
  have whole : d.blocks = (d.childrenOf .null).flatMap (d.blockOf d.subgraphs.length 1) := by
    rw [← h.outermost_eq]
    rfl
  rw [whole]
  apply h.blocks_flatMap
  · intro g hg
    exact (List.mem_filter.mp hg).1
  · intro g _
    exact List.length_filter_le _ _

/-- The statements after the heading tell the diagram in blocks: first the nodes outside of them, in
the order of the diagram, then the blocks of the outermost subgraphs, then the edges, and last what
says more of these. -/
structure ToldInBlocks (d : Diagram) (ds : List (Nat × Written)) : Prop where
  sequence : ∃ blocks more, Blocks d 1 (d.childrenOf .null) blocks ∧
    (∀ m ∈ more, m.2.dresses = true) ∧
    ds = (d.nodes.filter fun n => n.parent == .null).map (fun n => (1, .node n)) ++ blocks ++
      d.edges.map (fun e => (1, .edge e)) ++ more
  /-- Every node is declared once. -/
  nodes : ((ds.map (·.2)).filterMap Written.node?).Perm d.nodes
  /-- Every subgraph has one header. -/
  subgraphs : ((ds.map (·.2)).filterMap Written.subgraph?).Perm d.subgraphs
  /-- Every edge has one statement, in the order of the diagram. -/
  edges : (ds.map (·.2)).filterMap Written.edge? = d.edges
  places : InPlace d [] (ds.map (·.2))

theorem dresses_classLines : ∀ w ∈ d.classLines, w.dresses = true := by
  intro w hw
  rcases List.mem_append.mp hw with hw | hw
  · obtain ⟨_, _, rfl⟩ := List.mem_map.mp hw
    rfl
  · obtain ⟨_, _, rfl⟩ := List.mem_map.mp hw
    rfl

theorem dresses_styleLines : ∀ w ∈ d.styleLines, w.dresses = true := by
  intro w hw
  rcases List.mem_append.mp hw with hw | hw
  · obtain ⟨n, _, styled⟩ := List.mem_filterMap.mp hw
    obtain ⟨_, _, rfl⟩ := Option.map_eq_some_iff.mp styled
    rfl
  · obtain ⟨e, _, styled⟩ := List.mem_filterMap.mp hw
    obtain ⟨_, _, rfl⟩ := Option.map_eq_some_iff.mp styled
    rfl

theorem dresses_clickLines : ∀ w ∈ d.clickLines, w.dresses = true := by
  intro w hw
  obtain ⟨n, _, linked⟩ := List.mem_filterMap.mp hw
  obtain ⟨_, _, rfl⟩ := Option.map_eq_some_iff.mp linked
  rfl

theorem exists_body_eq (layout : Layout) (d : Diagram) : ∃ more : List (Nat × Written),
    (∀ m ∈ more, m.2.dresses = true) ∧ d.body layout =
      d.outsideNodes.map (fun n => (1, .node n)) ++ d.blocks ++
        d.edges.map (fun e => (1, .edge e)) ++ more := by
  have same : d.body layout = d.outsideNodes.map (fun n => (1, .node n)) ++ d.blocks ++
      d.edges.map (fun e => (1, .edge e)) ++
      ((d.edges.filter fun e => !(Writing.edgeProperties e).isEmpty).map Written.properties ++
        (if layout.classes then d.classLines else []) ++
        (if layout.styles then d.styleLines else []) ++ d.clickLines).map (1, ·) := by
    cases classes : layout.classes <;> cases styles : layout.styles <;>
      simp [body, layOut, outsideNodes, classes, styles, Function.comp_def]
  refine ⟨_, ?_, same⟩
  intro m hm
  obtain ⟨w, hw, rfl⟩ := List.mem_map.mp hm
  simp only [List.mem_append] at hw
  rcases hw with ((hw | hw) | hw) | hw
  · obtain ⟨_, _, rfl⟩ := List.mem_map.mp hw
    rfl
  · split at hw
    · exact dresses_classLines w hw
    · cases hw
  · split at hw
    · exact dresses_styleLines w hw
    · cases hw
  · exact dresses_clickLines w hw

/-- What is gathered from the statements after the heading is what is gathered from the nodes
outside, from the headers and the nodes in the blocks, and from the edges. -/
theorem filterMap_body {α : Type} {f : Written → Option α}
    (turns : ∀ dir, f (.direction dir) = none) (ends : f .close = none)
    (dressing : ∀ w, w.dresses = true → f w = none) (layout : Layout) :
    ((d.body layout).map (·.2)).filterMap f = d.outsideNodes.filterMap (fun n => f (.node n)) ++
      (d.inOrder.flatMap fun k =>
        (f (.subgraph k)).toList ++ (d.nodesOf k).filterMap fun n => f (.node n)) ++
      d.edges.filterMap fun e => f (.edge e) := by
  obtain ⟨more, dresses, whole⟩ := exists_body_eq layout d
  have blocks : (d.blocks.map (·.2)).filterMap f = d.inOrder.flatMap fun k =>
      (f (.subgraph k)).toList ++ (d.nodesOf k).filterMap fun n => f (.node n) := by
    rw [Diagram.blocks, List.map_flatMap, List.filterMap_flatMap, inOrder, List.flatMap_assoc]
    simp only [filterMap_blockOf turns ends]
    rfl
  have nothing : (more.map (·.2)).filterMap f = [] := by
    rw [List.filterMap_eq_nil_iff]
    intro w hw
    obtain ⟨m, hm, rfl⟩ := List.mem_map.mp hw
    exact dressing m.2 (dresses m hm)
  rw [whole]
  simp only [List.map_append, List.map_map, List.filterMap_append, List.filterMap_map, blocks,
    nothing, List.append_nil]
  rfl

theorem Integral.inPlace_body (h : d.Integral) (layout : Layout) :
    InPlace d [] ((d.body layout).map (·.2)) := by
  obtain ⟨more, dresses, whole⟩ := exists_body_eq layout d
  have outside : InPlace d [] (d.outsideNodes.map .node) := by
    apply InPlace.of_flat
    intro w hw
    obtain ⟨n, hn, rfl⟩ := List.mem_map.mp hw
    rw [h.outsideNodes_eq] at hn
    exact ⟨rfl, rfl, rfl, beq_iff_eq.mp (List.mem_filter.mp hn).2⟩
  have blocks : InPlace d [] (d.blocks.map (·.2)) := by
    apply h.inPlace_blocks h.blocks
    intro g hg
    exact ⟨(List.mem_filter.mp hg).1, beq_iff_eq.mp (List.mem_filter.mp hg).2⟩
  have edges : InPlace d [] (d.edges.map .edge) := by
    apply InPlace.of_flat
    intro w hw
    obtain ⟨e, _, rfl⟩ := List.mem_map.mp hw
    exact ⟨rfl, rfl, rfl, rfl⟩
  have dressing : InPlace d [] (more.map (·.2)) := by
    apply InPlace.of_flat
    intro w hw
    obtain ⟨m, hm, rfl⟩ := List.mem_map.mp hw
    exact Written.flat_of_dresses (dresses m hm)
  rw [whole]
  simpa [Function.comp_def] using ((outside.append blocks).append edges).append dressing

theorem Integral.toldInBlocks (h : d.Integral) (layout : Layout) :
    d.ToldInBlocks (d.body layout) where
  sequence := by
    obtain ⟨more, dresses, whole⟩ := exists_body_eq layout d
    rw [h.outsideNodes_eq] at whole
    exact ⟨d.blocks, more, h.blocks, dresses, whole⟩
  nodes := by
    rw [filterMap_body (fun _ => rfl) rfl fun w hw => (Written.nothing_of_dresses hw).1]
    simpa [Written.node?, Written.subgraph?] using h.perm_nodes
  subgraphs := by
    rw [filterMap_body (fun _ => rfl) rfl fun w hw => (Written.nothing_of_dresses hw).2.1]
    simpa [Written.node?, Written.subgraph?] using h.perm_inOrder
  edges := by
    rw [filterMap_body (fun _ => rfl) rfl fun w hw => (Written.nothing_of_dresses hw).2.2]
    simp [Written.edge?]
  places := h.inPlace_body layout

/-- An integral diagram is told in blocks. Its text, if it can be written, is the heading and the
lines of these statements one after another. -/
theorem statements_in_blocks (h : d.Integral) (layout : Layout) :
    d.ToldInBlocks (d.body layout) ∧ ∀ s, d.write layout = .ok s ↔
      ∃ ls, Lined (d.body layout) ls ∧
        s = assemble (([], heading d.direction) :: layout.lines (d.body layout) ls) := by
  constructor
  · exact h.toldInBlocks layout
  · intro s
    exact write_eq_ok_iff

/-- A text with subgraphs in subgraphs. A node of the first one comes before the subgraph does. -/
def nested : Text :=
  "graph LR\nw --> z\nsubgraph b [B]\nx\nsubgraph c\ndirection BT\ny\nsubgraph d\nend\nend\nz\n" ++
  "end\nsubgraph e\nv --> y\nend"

/-- The text of the diagram that is read of it, indented by tabs. -/
def nestedText : Text :=
  "flowchart LR\n\tw\n\tsubgraph b[B]\n\t\tx\n\t\tz\n\t\tsubgraph c\n" ++
  "\t\t\tdirection BT\n\t\t\ty\n\t\t\tsubgraph d\n\t\t\tend\n\t\tend\n\tend\n" ++
  "\tsubgraph e\n\t\tv\n\tend\n\tw --> z\n\tv --> y\n"

/-- Statements are indented by tabs. -/
def tabs : Layout := { indent := "\t" }

theorem nested_in_blocks : ∃ d, Diagram.read nested = .ok d ∧ d.write tabs = .ok nestedText ∧
    d.ToldInBlocks (d.body tabs) ∧ ∃ ls, Lined (d.body tabs) ls ∧
      nestedText = assemble (([], heading d.direction) :: tabs.lines (d.body tabs) ls) := by
  have whole : (Diagram.read nested >>= fun d => d.write tabs) = .ok nestedText := by
    decide +kernel
  obtain ⟨d, read, written⟩ := bind_eq_ok.mp whole
  obtain ⟨told, text⟩ := statements_in_blocks (integral_read read) tabs
  exact ⟨d, read, written, told, (text nestedText).mp written⟩

end Diagram
end Flowchart
