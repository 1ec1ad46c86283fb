import Flowchart.Proofs.Redrawing
import Flowchart.Proofs.Settling

/-! A diagram that is written and read again. Where its statements can be written, the text is
their lines, and reading the text takes them in one after another; so what they say comes back:
the nodes, the subgraphs with their members, and the edges in their order. -/
namespace Flowchart
open Text

/-! ### Statements as one text -/

/-- What a statement at a depth is indented by. -/
def Layout.margin (layout : Layout) (depth : Nat) : Text :=
  (List.replicate depth layout.indent).flatten

theorem Layout.mem_margin {layout : Layout} {depth : Nat} {c : Char}
    (h : c ∈ layout.margin depth) : c ∈ layout.indent := by
  obtain ⟨t, ht, hc⟩ := List.mem_flatten.mp h
  rwa [List.eq_of_mem_replicate ht] at hc

theorem Layout.indent_margin {layout : Layout} (blank : Indent layout.indent) (depth : Nat) :
    Indent (layout.margin depth) :=
  fun c hc => blank c (Layout.mem_margin hc)

/-- The lines of statements, each with its margin. -/
def Layout.lines (layout : Layout) (ds : List (Nat × Written)) (ls : List Text) :
    List (Text × Text) :=
  ds.zipWith (fun d l => (layout.margin d.1, l)) ls

/-- The statements have these lines, one after another. -/
abbrev Lined (ds : List (Nat × Written)) (ls : List Text) : Prop :=
  List.Forall₂ (fun d l => d.2.line = .ok l) ds ls

namespace Lined
variable {layout : Layout} {ds : List (Nat × Written)} {ls : List Text}

theorem mapM (layout : Layout) (h : Lined ds ls) :
    (ds.mapM fun d => do return layout.margin d.1 ++ (← d.2.line) ++ ['\n']) =
      .ok ((layout.lines ds ls).map fun l => l.1 ++ l.2 ++ ['\n']) := by
  rw [mapM_eq_ok]
  induction h with
  | nil => exact .nil
  | cons written _ ih =>
    refine .cons ?_ ih
    rw [written]
    rfl

theorem lines_eq (h : Lined ds ls) : (layout.lines ds ls).map (·.2) = ls := by
  induction h with
  | nil => rfl
  | cons _ _ ih => exact congrArg (_ :: ·) ih

theorem mem_lines {l : Text × Text} (h : l ∈ layout.lines ds ls) :
    ∃ depth, l.1 = layout.margin depth ∧ l.2 ∈ ls := by
  obtain ⟨n, here, rfl⟩ := List.mem_iff_getElem.mp h
  simp only [Layout.lines, List.getElem_zipWith]
  exact ⟨_, rfl, List.getElem_mem _⟩

theorem exists_of_written {ws : List Text} (h : List.Forall₂
    (fun d w => (do return layout.margin d.1 ++ (← d.2.line) ++ ['\n']) = Except.ok w) ds ws) :
    ∃ ls, Lined ds ls := by
  induction h with
  | nil => exact ⟨[], .nil⟩
  | cons one _ ih =>
    obtain ⟨l, line, -⟩ := bind_eq_ok.mp one
    obtain ⟨ls, lined⟩ := ih
    exact ⟨l :: ls, .cons line lined⟩

end Lined

namespace Renders
variable {layout : Layout} {ds : List (Nat × Written)} {ls : List Text}

theorem lined (h : Renders (ds.map (·.2)) ls) : Lined ds ls :=
  (List.forall₂_map_left_iff.mp h).imp fun _ _ one => one.1

theorem assembled (h : Renders (ds.map (·.2)) ls) (blank : Indent layout.indent) :
    Assembled (layout.lines ds ls) := by
  intro l hl
  obtain ⟨depth, margin, there⟩ := Lined.mem_lines hl
  obtain ⟨_, _, _, line⟩ := exists_of_forall₂ h l.2 there
  exact ⟨margin ▸ Layout.indent_margin blank depth, line⟩

end Renders

namespace Diagram
variable {d : Diagram}

/-- The statements of the diagram after its declaration. -/
def body (layout : Layout) (d : Diagram) : List (Nat × Written) := (d.layOut layout).tail

theorem layOut_eq (layout : Layout) (d : Diagram) :
    d.layOut layout = (0, .declaration d.direction) :: d.body layout := rfl

theorem write_lined {layout : Layout} {ls : List Text} (h : Lined (d.body layout) ls) :
    d.write layout =
      .ok (assemble (([], heading d.direction) :: layout.lines (d.body layout) ls)) := by
  have whole : Lined (d.layOut layout) (heading d.direction :: ls) := .cons rfl h
  exact congrArg (· >>= fun ls => pure ls.flatten) (whole.mapM layout)

/-- A text that is written is its heading and the lines of the statements, one after another. -/
theorem write_eq_ok_iff {layout : Layout} {s : Text} : d.write layout = .ok s ↔
    ∃ ls, Lined (d.body layout) ls ∧
      s = assemble (([], heading d.direction) :: layout.lines (d.body layout) ls) := by
  constructor
  · intro written
    obtain ⟨_, all, -⟩ := bind_eq_ok.mp written
    have each := mapM_eq_ok.mp all
    rw [layOut_eq] at each
    obtain ⟨_, _, _, rest, -⟩ := List.forall₂_cons_left_iff.mp each
    obtain ⟨ls, lined⟩ := Lined.exists_of_written rest
    exact ⟨ls, lined, Except.ok.inj (written.symm.trans (write_lined lined))⟩
  · rintro ⟨ls, lined, rfl⟩
    exact write_lined lined

/-- Statements after a declaration that can be written are read one after another. -/
theorem read_carried {layout : Layout} (blank : Indent layout.indent) {Q : View → Prop}
    (carries : Carries ((d.body layout).map (·.2)) (· = { direction := d.direction }) Q) :
    ∃ s v, d.write layout = .ok s ∧ Diagram.read s = .ok v.toDiagram.settle ∧ Q v := by
  obtain ⟨ls, renders, reads⟩ := carries
  have sound : Reading.Sound { diagram.direction := d.direction } :=
    ⟨integral_empty.turned d.direction [], by simp, by simp, by simp⟩
  obtain ⟨r, read, _, there⟩ := reads { diagram.direction := d.direction } sound rfl
  refine ⟨_, r.view, write_lined renders.lined, ?_, there⟩
  rw [Diagram.read, ofText_assemble (renders.assembled blank), renders.lined.lines_eq, read]
  rfl

theorem read_write {layout : Layout} (blank : Indent layout.indent) {v : View}
    (leads : Leads ((d.body layout).map (·.2)) { direction := d.direction } v) :
    ∃ s, d.write layout = .ok s ∧ Diagram.read s = .ok v.toDiagram.settle := by
  obtain ⟨s, w, written, read, rfl⟩ := read_carried blank (leads.carries (Q := (· = v)) rfl)
  exact ⟨s, written, read⟩

/-! ### The diagram as a whole -/

/-- All that the diagram says is in its nodes, its edges and its subgraphs. -/
structure Bare (d : Diagram) : Prop where
  properties : ∀ e ∈ d.edges, Writing.edgeProperties e = []
  unclassed : d.classLines = []
  unstyled : d.styleLines = []
  unlinked : d.clickLines = []

theorem bare_of_plain (nodes : ∀ n ∈ d.nodes, n.classes = [] ∧ n.style = none ∧ n.link = .null)
    (edges : ∀ e ∈ d.edges, e.classes = [] ∧ e.style = none ∧ Writing.edgeProperties e = [])
    (classes : d.classes = []) : d.Bare where
  properties e he := (edges e he).2.2
  unclassed := by
    have ofNodes : d.nodes.flatMap (fun n => n.classes.map fun c => (c, n.id)) = [] := by
      refine List.flatMap_eq_nil_iff.mpr fun n hn => ?_
      rw [(nodes n hn).1, List.map_nil]
    have ofEdges : d.edges.flatMap (fun e => e.classes.map fun c => (c, e.id)) = [] := by
      refine List.flatMap_eq_nil_iff.mpr fun e he => ?_
      rw [(edges e he).1, List.map_nil]
    simp [classLines, classUses, ofNodes, ofEdges, classes]
  unstyled := by
    rw [styleLines, List.append_eq_nil_iff]
    constructor
    · refine List.filterMap_eq_nil_iff.mpr fun n hn => ?_
      rw [(nodes n hn).2.1]
      rfl
    · refine List.filterMap_eq_nil_iff.mpr fun p hp => ?_
      have plain := (edges p.1 (List.fst_mem_of_mem_zipIdx hp)).2.1
      simp only [plain]
      rfl
  unlinked := by
    refine List.filterMap_eq_nil_iff.mpr fun n hn => ?_
    rw [(nodes n hn).2.2]
    rfl

/-- All of a diagram that is bare can be written and read again. -/
structure Tellable (d : Diagram) : Prop extends d.Forested, d.Bare where
  writableEdges : ∀ e ∈ d.edges, e.Writable
  authored : ∀ e ∈ d.edges, Writing.needsId e → ∀ t, e.id = .text t →
    ¬ EdgeId.generatedMark <+: t

theorem statements_body (d : Diagram) : (d.body {}).map (·.2) =
    ((d.outsideNodes.map .node ++ d.blocks.map (·.2)) ++ d.edges.map .edge) ++
      (d.edges.filter (fun e => !(Writing.edgeProperties e).isEmpty)).map .properties ++
      d.classLines ++ d.styleLines ++ d.clickLines := by
  simp [body, layOut, outsideNodes, Function.comp_def]

/-- The nodes in the order in which they are laid out. -/
def nodesInOrder (d : Diagram) : List Node := d.outsideNodes ++ d.inOrder.flatMap d.nodesOf

/-- The diagram as its text tells it: nodes and subgraphs come in the order in which they are laid
out, and all of them as their lines say. -/
def retold (d : Diagram) (edges : List Edge) : Diagram where
  direction := d.direction
  nodes := d.nodesInOrder.map Node.told
  edges := edges
  subgraphs := d.inOrder.map Subgraph.plain

theorem Bare.body_eq (h : d.Bare) (layout : Layout) :
    d.body layout = d.outsideNodes.map (fun n => (1, .node n)) ++ d.blocks ++
      d.edges.map fun e => (1, .edge e) := by
  have properties : d.edges.filter (fun e => !(Writing.edgeProperties e).isEmpty) = [] := by
    refine List.filter_eq_nil_iff.mpr fun e he => ?_
    simp [h.properties e he]
  simp [body, layOut, outsideNodes, properties, h.unclassed, h.unstyled, h.unlinked]

/-- The edges as their lines are read one after another. -/
def redrawn (d : Diagram) : List Edge := Edge.allRedrawn [] d.edges

namespace Tellable

theorem leads_body (h : d.Tellable) (layout : Layout) :
    List.Forall₂ Edge.Tells d.edges d.redrawn ∧
      Leads ((d.body layout).map (·.2)) { direction := d.direction } ⟨d.retold d.redrawn, []⟩ := by
  let v := View.grow { direction := d.direction } d.nodesInOrder d.inOrder
  have forest : Leads (d.outsideNodes.map .node ++ d.blocks.map (·.2)) _ v :=
    h.leads_forest d.direction
  have there : ∀ {id : Value}, d.hasNode id → id ∈ v.nodes.map Node.id := by
    intro id there
    rw [View.ids_nodes_grow]
    exact (h.perm_nodes.map Node.id).mem_iff.mpr (Keyed.has_iff.mp there)
  have ready : ∀ e ∈ d.edges, e.Writable ∧ e.Joins v ∧ e.Fresh v := by
    intro e he
    exact ⟨h.writableEdges e he, ⟨there (h.source e he), there (h.target e he)⟩,
      fun needs t ht => ⟨h.authored e he needs t ht, List.not_mem_nil⟩⟩
  obtain ⟨told, drawn⟩ := Edge.leads_edges ready rfl h.distinct.edges
  have statements : (d.body layout).map (·.2) =
      (d.outsideNodes.map .node ++ d.blocks.map (·.2)) ++ d.edges.map .edge := by
    simp [h.body_eq, Function.comp_def]
  refine ⟨told, ?_⟩
  rw [statements]
  exact forest.append drawn

theorem mem_nodesInOrder (h : d.Tellable) {n : Node} : n ∈ d.nodesInOrder ↔ n ∈ d.nodes :=
  h.perm_nodes.mem_iff

theorem has_retold (h : d.Tellable) {fs : List Edge} (told : List.Forall₂ Edge.Tells d.edges fs) :
    (d.retold fs).Has .lasting where
  nodes n' there := by
    obtain ⟨n, hn, rfl⟩ := List.mem_map.mp there
    have named := (h.writableNodes n (h.mem_nodesInOrder.mp hn)).shapeName.some_text
    show n.heard.shape.name ≠ []
    rwa [n.heard_shape]
  classes := trivial
  edges f hf := by
    obtain ⟨e, _, tells⟩ := exists_of_forall₂ told f hf
    obtain ⟨id, rfl⟩ := tells.redrawn
    rfl
  subgraphs g' there := by
    obtain ⟨g, hg, rfl⟩ := List.mem_map.mp there
    obtain ⟨title, htitle, _, untitled⟩ := (h.writableSubgraphs g (h.mem_inOrder.mp hg)).title
    show g.title.orElse g.id = g.title
    by_cases empty : title = []
    · rw [← untitled empty, Value.orElse, ite_self]
    · simp [Value.orElse, htitle, empty]

/-- What is written of the diagram is a text, and reading the text gives what it tells. -/
theorem read_retold (h : d.Tellable) {layout : Layout} (blank : Indent layout.indent) :
    ∃ s, d.write layout = .ok s ∧ List.Forall₂ Edge.Tells d.edges d.redrawn ∧
      Diagram.read s = .ok (d.retold d.redrawn) := by
  obtain ⟨told, leads⟩ := h.leads_body layout
  obtain ⟨s, written, read⟩ := Diagram.read_write blank leads
  rw [(h.has_retold told).settle_eq] at read
  exact ⟨s, written, told, read⟩

end Tellable
end Diagram

/-! ### What comes back -/

/-- The node without its styles, its link and its further properties. -/
def Node.core (n : Node) : Node :=
  { id := n.id, text := n.text, shape := n.shape, parent := n.parent, classes := n.classes }

/-- The node with its text, its shape and its place alone. -/
def Node.plain (n : Node) : Node :=
  { id := n.id, text := n.text, shape := n.shape, parent := n.parent }

theorem Node.core_told (n : Node) : n.told.core = n.plain := by simp [core, told, plain]

/-- The edge without its style, its classes and its animation. -/
def Edge.core (e : Edge) : Edge :=
  { id := e.id, source := e.source, target := e.target, text := e.text, stroke := e.stroke
    sourceTip := e.sourceTip, targetTip := e.targetTip, length := e.length }

/-- The edge comes back as another one: all that its line says is the same, and so is the id if the
line tells it. -/
structure Edge.Returns (e f : Edge) : Prop where
  core : f.core = { e.core with id := f.id }
  id : Writing.needsId e → f.id = e.id

theorem Edge.Tells.returns {e f : Edge} (h : e.Tells f) : e.Returns f := by
  obtain ⟨id, rfl⟩ := h.redrawn
  exact ⟨rfl, h.id⟩

namespace Diagram
variable {d : Diagram}

/-- The diagram comes back as another one: every node with its text, its shape, its place and no
class, every subgraph with its title, its members, its place and its direction, and every edge. -/
structure Returns (d d' : Diagram) : Prop where
  direction : d'.direction = d.direction
  nodes : ∀ id, (d'.node? id).map Node.core = (d.node? id).map Node.plain
  edges : List.Forall₂ Edge.Returns d.edges d'.edges
  subgraphs : ∀ id, d'.subgraph? id = (d.subgraph? id).map Subgraph.plain

namespace Tellable

theorem returns_retold (h : d.Tellable) {fs : List Edge}
    (told : List.Forall₂ Edge.Tells d.edges fs) : d.Returns (d.retold fs) where
  direction := rfl
  nodes id := by
    have key : ∀ n : Node, Keyed.key n.told = Keyed.key n := fun n => n.heard_id
    have same : Node.core ∘ Node.told = Node.plain := funext Node.core_told
    rw [node?, retold, nodesInOrder, Keyed.find?_map key,
      Keyed.find?_perm h.perm_nodes h.distinct.nodes, Option.map_map, same, node?]
  edges := told.imp fun _ _ => Edge.Tells.returns
  subgraphs id := by
    have key : ∀ g : Subgraph, Keyed.key g.plain = Keyed.key g := fun _ => rfl
    rw [subgraph?, retold, Keyed.find?_map key,
      Keyed.find?_perm h.perm_inOrder h.distinct.subgraphs, subgraph?]

/-- What is written of the diagram is a text from which the diagram comes back. -/
theorem read_write (h : d.Tellable) {layout : Layout} (blank : Indent layout.indent) :
    ∃ s d', d.write layout = .ok s ∧ Diagram.read s = .ok d' ∧ d.Returns d' := by
  obtain ⟨s, written, told, read⟩ := h.read_retold blank
  exact ⟨s, _, written, read, h.returns_retold told⟩

end Tellable
end Diagram
end Flowchart
