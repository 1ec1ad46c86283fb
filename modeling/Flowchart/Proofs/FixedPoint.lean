import Flowchart.Proofs.RoundTrip

/-! Texts that are read and written again. What is read of a text and is clean comes back from the
text that it is written as, and that text stays as it is: what it tells is laid out as the diagram
was, since siblings keep their order, members stay in their places, and every statement has the
line that it had. -/
namespace Flowchart

/-- Two statements at one depth with the same line. -/
def SameLine (v w : Nat × Written) : Prop := v.1 = w.1 ∧ v.2.line = w.2.line

theorem mapM_congr_lines {ds es : List (Nat × Written)} (h : List.Forall₂ SameLine ds es) (layout : Layout) :
    (ds.mapM fun d => do return layout.margin d.1 ++ (← d.2.line) ++ ['\n']) =
      es.mapM fun d => do return layout.margin d.1 ++ (← d.2.line) ++ ['\n'] := by
  induction h with
  | nil => rfl
  | cons same _ ih =>
    obtain ⟨depth, line⟩ := same
    rw [List.mapM_cons, List.mapM_cons, ih, depth, line]

theorem sameLines_flatMap {α : Type} {xs : List α} {f g : α → List (Nat × Written)}
    (h : ∀ x ∈ xs, List.Forall₂ SameLine (f x) (g x)) :
    List.Forall₂ SameLine (xs.flatMap f) (xs.flatMap g) := by
  induction xs with
  | nil => exact .nil
  | cons x xs ih =>
    rw [List.flatMap_cons, List.flatMap_cons]
    exact List.rel_append (h x List.mem_cons_self) (ih fun y hy => h y (List.mem_cons_of_mem x hy))

/-- Diagrams whose statements have the same lines are written as the same text. -/
theorem Diagram.write_congr {d d' : Diagram} {layout : Layout}
    (h : List.Forall₂ SameLine (d.layOut layout) (d'.layOut layout)) :
    d.write layout = d'.write layout := by
  have lines := mapM_congr_lines h layout
  exact congrArg (· >>= fun ls => pure ls.flatten) lines

/-! ### Lines -/

theorem Edge.Tells.line_eq {e f : Edge} (h : e.Tells f) : Writing.edge f = Writing.edge e := by
  obtain ⟨i, rfl⟩ := h.redrawn
  have needs : Writing.needsId (e.redrawn i) = Writing.needsId e := by
    change (Writing.needsId e || false || Value.null.isSome || false) = _
    simp [Value.isSome]
  have operator : (e.redrawn i).operator = e.operator := rfl
  have id : (if Writing.needsId e then (e.redrawn i).id.shown ++ ['@'] else []) =
      if Writing.needsId e then e.id.shown ++ ['@'] else [] := by
    split
    · rename_i needed
      rw [h.id needed]
    · rfl
  rw [Writing.edge, Writing.edge, operator, needs, id]
  rfl

namespace Diagram
variable {d : Diagram} {fs : List Edge}

/-- Every node as it is read has the line that it was read from. -/
abbrev KeepsLines (d : Diagram) : Prop := ∀ n ∈ d.nodes, Writing.node n.told = Writing.node n

/-! ### The forest -/

namespace Tellable

theorem node?_retold (h : d.Tellable) (id : Value) :
    (d.retold fs).node? id = (d.node? id).map Node.told := by
  have key : ∀ n : Node, Keyed.key n.told = Keyed.key n := fun n => n.heard_id
  rw [node?, retold, nodesInOrder, Keyed.find?_map key,
    Keyed.find?_perm h.perm_nodes h.distinct.nodes, node?]

theorem childrenOf_retold (h : d.Tellable) (parent : Value) :
    (d.retold fs).childrenOf parent = (d.childrenOf parent).map Subgraph.plain := by
  rw [← h.filter_inOrder, childrenOf, retold, List.filter_map]
  rfl

theorem outsideNodes_retold (h : d.Tellable) (whole : (d.retold fs).Integral) :
    (d.retold fs).outsideNodes = d.outsideNodes.map Node.told := by
  have outside : d.outsideNodes.filter (fun n => n.parent == .null) = d.outsideNodes := by
    rw [h.outsideNodes_eq]
    exact List.filter_filter.trans (by simp)
  have inside : (d.inOrder.flatMap d.nodesOf).filter (fun n => n.parent == .null) = [] := by
    refine List.filter_eq_nil_iff.mpr fun n hn => ?_
    obtain ⟨g, hg, hn⟩ := List.mem_flatMap.mp hn
    have hg := h.mem_inOrder.mp hg
    rw [beq_iff_eq, ((h.mem_nodesOf hg).mp hn).2]
    exact h.named g hg
  rw [whole.outsideNodes_eq, retold, nodesInOrder, List.filter_map]
  change List.map Node.told ((d.outsideNodes ++ d.inOrder.flatMap d.nodesOf).filter
    fun n => n.parent == .null) = _
  rw [List.filter_append, outside, inside, List.append_nil]

theorem nodesOf_retold (h : d.Tellable) (whole : (d.retold fs).Integral) {g : Subgraph}
    (hg : g ∈ d.subgraphs) : (d.retold fs).nodesOf g.plain = (d.nodesOf g).map Node.told := by
  have there : g.plain ∈ (d.retold fs).subgraphs := List.mem_map_of_mem (h.mem_inOrder.mpr hg)
  rw [whole.nodesOf_eq there, h.nodesOf_eq hg, List.map_filterMap]
  refine List.filterMap_congr fun id _ => ?_
  rw [h.node?_retold, Option.filter_map]
  rfl

theorem sameLines_nodes {ns : List Node} (same : ∀ n ∈ ns, Writing.node n.told = Writing.node n)
    (depth : Nat) : List.Forall₂ SameLine ((ns.map Node.told).map fun n => (depth, .node n))
      (ns.map fun n => (depth, .node n)) := by
  rw [List.map_map, List.forall₂_map_left_iff, List.forall₂_map_right_iff, List.forall₂_same]
  intro n hn
  refine ⟨rfl, ?_⟩
  show (do Writing.checkIds [n.parent]; Writing.node n.told) =
    do Writing.checkIds [n.parent]; Writing.node n
  rw [same n hn]

theorem sameLines_block (h : d.Tellable) (whole : (d.retold fs).Integral) (same : KeepsLines d)
    {levels depth : Nat} {g : Subgraph} (hg : g ∈ d.subgraphs) :
    List.Forall₂ SameLine ((d.retold fs).blockOf levels depth g.plain) (d.blockOf levels depth g) := by
  induction levels generalizing g depth with
  | zero => exact .nil
  | succ levels ih =>
    have nodes : ∀ n ∈ d.nodesOf g, Writing.node n.told = Writing.node n :=
      fun n hn => same n ((h.mem_nodesOf hg).mp hn).1
    have header : List.Forall₂ SameLine [(depth, Written.subgraph g.plain)] [(depth, .subgraph g)] :=
      .cons ⟨rfl, rfl⟩ .nil
    have direction : List.Forall₂ SameLine
        (g.direction.map fun dir => (depth + 1, Written.direction dir)).toList
        (g.direction.map fun dir => (depth + 1, Written.direction dir)).toList :=
      List.forall₂_same.mpr fun _ _ => ⟨rfl, rfl⟩
    have children : List.Forall₂ SameLine
        (((d.childrenOf g.id).map Subgraph.plain).flatMap
          ((d.retold fs).blockOf levels (depth + 1)))
        ((d.childrenOf g.id).flatMap (d.blockOf levels (depth + 1))) := by
      rw [List.flatMap_map]
      exact sameLines_flatMap fun c hc => ih (mem_childrenOf.mp hc).1
    have close : List.Forall₂ SameLine [(depth, Written.close)] [(depth, .close)] :=
      .cons ⟨rfl, rfl⟩ .nil
    have all := List.rel_append (List.rel_append (List.rel_append (List.rel_append header direction)
      (sameLines_nodes nodes (depth + 1))) children) close
    rw [← h.nodesOf_retold whole hg, ← h.childrenOf_retold] at all
    exact all

theorem sameLines_blocks (h : d.Tellable) (whole : (d.retold fs).Integral) (same : KeepsLines d) :
    List.Forall₂ SameLine (d.retold fs).blocks d.blocks := by
  have levels : (d.retold fs).subgraphs.length = d.subgraphs.length := by
    rw [retold, List.length_map, h.perm_inOrder.length_eq]
  have outermost : (d.retold fs).outermost = d.outermost.map Subgraph.plain := by
    rw [whole.outermost_eq, h.outermost_eq, h.childrenOf_retold]
  change List.Forall₂ SameLine ((d.retold fs).outermost.flatMap
    ((d.retold fs).blockOf (d.retold fs).subgraphs.length 1))
    (d.outermost.flatMap (d.blockOf d.subgraphs.length 1))
  rw [outermost, levels, List.flatMap_map]
  exact sameLines_flatMap fun g hg => h.sameLines_block whole same (h.mem_outermost.mp hg).1

/-! ### The whole text -/

theorem bare_retold (told : List.Forall₂ Edge.Tells d.edges fs) : (d.retold fs).Bare := by
  refine bare_of_plain (fun n' hn => ?_) (fun f hf => ?_) rfl
  · obtain ⟨n, _, rfl⟩ := List.mem_map.mp hn
    exact ⟨n.heard_classes, n.heard_style, n.heard_link⟩
  · obtain ⟨e, _, tells⟩ := exists_of_forall₂ told f hf
    obtain ⟨i, rfl⟩ := tells.redrawn
    exact ⟨rfl, rfl, rfl⟩

/-- The diagram that is read of the text of a diagram is written as this text. -/
theorem write_retold (h : d.Tellable) (told : List.Forall₂ Edge.Tells d.edges fs)
    (whole : (d.retold fs).Integral) (same : KeepsLines d) (layout : Layout) :
    (d.retold fs).write layout = d.write layout := by
  have edges : List.Forall₂ SameLine (fs.map fun e => (1, .edge e))
      (d.edges.map fun e => (1, .edge e)) := by
    refine List.forall₂_map_left_iff.mpr (List.forall₂_map_right_iff.mpr (told.flip.imp ?_))
    exact fun f e tells => ⟨rfl, tells.line_eq⟩
  have outside : ∀ n ∈ d.outsideNodes, Writing.node n.told = Writing.node n :=
    fun n hn => same n (List.mem_of_mem_filter hn)
  have body := List.rel_append (List.rel_append (sameLines_nodes outside 1)
    (h.sameLines_blocks whole same)) edges
  rw [← h.outsideNodes_retold whole] at body
  refine write_congr ?_
  rw [layOut_eq, layOut_eq, (bare_retold told).body_eq, h.body_eq]
  exact .cons ⟨rfl, rfl⟩ body

end Tellable
end Diagram

/-! ### Clean diagrams -/

namespace Node.Clean
variable {n : Node}

theorem properties_eq (h : n.Clean) :
    n.properties = [.plain "shape" n.shape.name, .ofText ("label", n.text)] := by
  simp [properties, quotedFields, shownFields, tooltips, Writing.pictures, Writing.placements,
    Writing.extents, Writing.hasOwnTooltip, setFields, h.further n.icon, h.further n.image,
    h.further n.form, h.further n.labelPosition, h.further n.width, h.further n.height,
    h.further n.tooltip, Value.holds, Value.isSome]

theorem heard_eq (h : n.Clean) : n.heard = n.spoken := by
  have absent : ∀ key ∈ ["icon".toList, "img", "form", "pos", "tooltip", "w", "h"],
      Reading.property? n.readProperties key = none := by
    have others : ∀ key ∈ ["icon".toList, "img", "form", "pos", "tooltip", "w", "h"],
        "shape".toList ≠ key ∧ "label".toList ≠ key := by decide
    intro key hk
    obtain ⟨shape, label⟩ := others key hk
    have nothing : Keyed.find? key n.readProperties = none := by
      rw [readProperties, h.properties_eq, List.map_cons, List.map_cons, List.map_nil,
        Keyed.find?_cons, Keyed.find?_cons]
      exact (if_neg shape).trans ((if_neg label).trans rfl)
    rw [Reading.property?, nothing]
    rfl
  have read : Reading.withProperties n.spoken n.readProperties = .ok n.spoken := by
    simp only [Reading.withProperties, absent "icon" (by simp), absent "img" (by simp),
      absent "form" (by simp), absent "pos" (by simp), absent "tooltip" (by simp),
      absent "w" (by simp), absent "h" (by simp)]
    rfl
  rw [heard, read]
  split <;> rfl

theorem line_eq (h : n.Clean) : Writing.node n.told = Writing.node n := by
  have plain : n.told = n.plain := by
    rw [told, h.heard_eq, spoken, Node.plain]
  rw [plain]
  obtain ⟨id, text, shape, style, classes, link, linkTarget, tooltip, parent, position, size, icon,
    image, form, labelPosition, width, height⟩ := n
  obtain ⟨rfl, rfl, rfl, rfl, rfl, rfl, rfl, rfl, -⟩ := by
    simpa only [List.forall_mem_cons] using h.further
  rfl

end Node.Clean

namespace Diagram

/-- What is written of a diagram whose nodes keep their lines is read as a diagram that is written
as the same text. -/
theorem Tellable.text_stays {d : Diagram} (h : d.Tellable) (same : KeepsLines d) {layout : Layout}
    (blank : Indent layout.indent) :
    ∃ s d', d.write layout = .ok s ∧ Diagram.read s = .ok d' ∧ d'.write layout = .ok s := by
  obtain ⟨s, written, told, read⟩ := h.read_retold blank
  refine ⟨s, _, written, read, ?_⟩
  rw [h.write_retold told (integral_read read) same, written]

/-- A subgraph with a node in it, another node, and an edge with a label. -/
def groupedText : Text :=
  "flowchart LR\n    B\x7btwo\x7d\n    subgraph g[a title]\n        A([\"one & two\"])\n    end\n".toList ++
  "    A e1@-.->|maybe| B\n".toList

/-- What is read of it. -/
def grouped : Diagram where
  direction := .lr
  nodes := [
    { id := .text "B", text := .text "two", shape := .diamond },
    { id := .text "A", text := .text "one & two", shape := .stadium, parent := .text "g" }]
  edges := [{
    id := .text "e1", source := .text "A", target := .text "B", text := .text "maybe"
    stroke := .dotted, named := .bool true }]
  subgraphs := [{ id := .text "g", title := .text "a title", members := [.text "A"] }]

theorem read_groupedText : Diagram.read groupedText = .ok grouped := by decide +kernel

theorem grouped_clean : grouped.Clean := by
  refine ⟨fun n hn => ?_, fun e he => ?_, fun g hg => ?_, rfl⟩
  · simp only [grouped, List.mem_cons, List.not_mem_nil, or_false] at hn
    rcases hn with rfl | rfl
    · exact ⟨⟨_, rfl, by decide, by decide, by decide⟩, ⟨_, rfl, by decide⟩, by decide, rfl, rfl,
        by decide⟩
    · exact ⟨⟨_, rfl, by decide, by decide, by decide⟩, ⟨_, rfl, by decide⟩, by decide, rfl, rfl,
        by decide⟩
  · obtain rfl := List.mem_singleton.mp he
    exact ⟨Or.inr ⟨_, rfl, by decide, by decide⟩, ⟨1, rfl, by decide⟩, by decide,
      fun _ => ⟨_, rfl, by decide, by decide⟩, rfl, rfl, rfl, rfl⟩
  · obtain rfl := List.mem_singleton.mp hg
    exact ⟨⟨_, rfl, by decide, by decide⟩, _, rfl, by decide, by decide⟩

end Diagram
end Flowchart
