import Flowchart.Proofs.Drafts

/-! Edges that are added to a diagram of nodes, each without an id, and what is read of them again.
The id that is made for an edge and the id that its line asks for tell the same content, unless the
edge is invisible: its tips are left out of its line, but they are told of in its id. -/
namespace Flowchart
open Action

namespace Edge
variable {e : Edge}

/-- The line of the edge leaves no tips out. -/
def Headless (e : Edge) : Prop :=
  e.stroke = .invisible → e.sourceTip = .none ∧ e.targetTip = .none

/-- The second edge is drawn as the first one is; an invisible edge has no tips. -/
structure Redraws (e f : Edge) : Prop where
  stroke : f.stroke = e.stroke
  source : f.sourceTip = if e.stroke = .invisible then .none else e.sourceTip
  target : f.targetTip = if e.stroke = .invisible then .none else e.targetTip

theorem Headless.tips (h : e.Headless) :
    e.drawn.sourceTip = e.sourceTip ∧ e.drawn.targetTip = e.targetTip := by
  by_cases invisible : e.stroke = .invisible
  · obtain ⟨source, target⟩ := h invisible
    exact ⟨(if_pos invisible).trans source.symm, (if_pos invisible).trans target.symm⟩
  · exact ⟨if_neg invisible, if_neg invisible⟩

theorem Headless.alike (h : e.Headless) : e.Alike e.drawn := by
  obtain ⟨source, target⟩ := h.tips
  have symbols : e.drawn.symbols = e.symbols := by
    rw [Edge.symbols, source, target]
    exact Operator.write_max_one ..
  have label : e.drawn.text.text?.getD [] = e.text.text?.getD [] := by
    by_cases holds : e.text.holds = true
    · have same : e.drawn.text = e.text := if_pos holds
      rw [same]
    · have none_here : e.drawn.text = .null := if_neg holds
      rw [none_here]
      cases text : e.text with
      | text t =>
        obtain rfl : t = [] := by simpa [text] using holds
        rfl
      | _ => rfl
  refine ⟨rfl, rfl, ?_⟩
  rw [generated, generated, symbols, source, target]
  exact congrArg (fun label => EdgeId.ofContent e.source.shown e.target.shown e.symbols (some label)
    e.stroke e.sourceTip e.targetTip) label

end Edge

/-- The edges have the ids that were made for them one after another, and no styles. -/
structure Diagram.Sketched (d : Diagram) : Prop where
  areDrawn : Edge.AreDrawn [] d.edges
  unstyled : ∀ e ∈ d.edges, e.style = none

/-- An edge is added without an id and without a style. -/
def Command.Sketches : Command → Prop
  | .addEdge e => e.Draft ∧ e.style = none
  | _ => False

theorem Command.Sketches.drafts {c : Command} (h : c.Sketches) : c.Drafts := by
  cases c with
  | addEdge e => exact h.1
  | _ => exact h.elim

theorem Edit.addEdge_sketches {e : Edge} (unnamed : e.id.holds = false)
    (unstyled : e.style = none) : Keeps (fun p : Progress => p.diagram.Sketched) (addEdge e) := by
  intro p h
  refine (addEdge_ends unnamed).imp (fun _ q drawn => ?_) fun _ q same => same ▸ h
  rw [drawn.2]
  refine ⟨h.areDrawn.concat fun _ => rfl, fun f hf => ?_⟩
  rcases List.mem_append.mp hf with old | new
  · exact h.unstyled f old
  · rw [List.mem_singleton.mp new]
    exact unstyled

namespace Editor

theorem makes_sketched : Makes (fun _ edit => Keeps (fun p : Progress => p.diagram.Sketched) edit)
    Command.Sketches :=
  makes_of_drafts Command.Sketches.drafts False.elim
    (fun h => Edit.addEdge_sketches h.1.unnamed h.2) False.elim

theorem sketched_after {d : Diagram} (h : d.Sketched) {cs : List Command}
    (sketches : ∀ c ∈ cs, c.Sketches) : (d.edited cs).Sketched := by
  have upholds := fun run keeps => upholds_hosts makes_sketched
    (fun _ keeps d hd => (keeps { diagram := d } hd).state) False.elim
    (fun _ _ hd => ⟨hd.areDrawn, hd.unstyled⟩) False.elim False.elim run keeps
  exact (after_keeps upholds sketches (hosts_ofDiagram h)).diagram

end Editor

namespace Diagram

/-- The nodes, and the edges that have been added to them. -/
def sketch (direction : Direction) (ns : List Node) (es : List Edge) : Diagram :=
  edited { direction, nodes := ns } (es.map .addEdge)

theorem integral_nodes (direction : Direction) {ns : List Node} (once : (ns.map Node.id).Nodup)
    (outside : ∀ n ∈ ns, n.parent = .null) : Integral { direction, nodes := ns } where
  distinct := ⟨once, List.nodup_nil, List.nodup_nil⟩
  source := by simp
  target := by simp
  nodeParent n hn some_parent := absurd (outside n hn) some_parent
  subgraphParent := by simp
  acyclic := by
    intro v cycle
    obtain ⟨w, ⟨g, found, _⟩, _⟩ := Relation.TransGen.head'_iff.mp cycle
    cases found
  membersNodup := by simp
  members := by simp
  named := by simp
  simple := by simp

/-- Edges that are added without ids come back in their order, each with its stroke and its tips,
but an invisible edge without tips. Their ids come back as far as no invisible edge was given a
tip. -/
theorem added_edges_come_back {direction : Direction} {ns : List Node} {es : List Edge}
    (nodes : ∀ n ∈ ns, n.Legible ∧ n.parent = .null ∧ ∃ t, n.id = .text t ∧ PlainId t)
    (once : (ns.map Node.id).Nodup) (drafts : ∀ e ∈ es, e.Draft ∧ e.style = none) :
    ∃ s d', (sketch direction ns es).write {} = .ok s ∧ Diagram.read s = .ok d' ∧
      List.Forall₂ Edge.Redraws (sketch direction ns es).edges d'.edges ∧
      ∀ k, (∀ e ∈ (sketch direction ns es).edges.take k, e.Headless) →
        (d'.edges.map Edge.id).take k = ((sketch direction ns es).edges.map Edge.id).take k := by
  have sketches : ∀ c ∈ es.map Command.addEdge, c.Sketches := by
    intro c hc
    obtain ⟨e, he, rfl⟩ := List.mem_map.mp hc
    exact drafts e he
  have start : Has .drafted { direction, nodes := ns } :=
    ⟨fun n hn => ⟨(nodes n hn).1, (nodes n hn).2.2⟩, by simp, by simp, rfl⟩
  obtain ⟨has, integral⟩ := Editor.drafted_after start
    (integral_nodes direction once fun n hn => (nodes n hn).2.1) fun c hc => (sketches c hc).drafts
  have sketched := Editor.sketched_after (d := { direction, nodes := ns }) ⟨trivial, by simp⟩
    sketches
  change Has .drafted (sketch direction ns es) at has
  change Integral (sketch direction ns es) at integral
  change Sketched (sketch direction ns es) at sketched
  generalize sketch direction ns es = d at *
  have legible : d.Legible := legible_of_drafted has integral fun e he seen => by
    rw [Edge.visible, sketched.unstyled e he] at seen
    cases seen
  obtain ⟨s, d', written, read, _, told⟩ := legible.read_write integral
  refine ⟨s, d', written, read, ?_, fun k headless => ?_⟩
  · refine (edges_told told).imp ?_
    rintro e f ⟨id, same⟩
    rw [same]
    exact ⟨rfl, rfl, rfl⟩
  · refine ids_come_back legible integral.distinct.edges told ((sketched.areDrawn.take k).alike ?_)
    rw [List.forall₂_map_right_iff, List.forall₂_same]
    exact fun e he => (headless e he).alike

def pair : List Node := [.bare (.text "A"), .bare (.text "B")]

theorem legible_pair :
    ∀ n ∈ pair, n.Legible ∧ n.parent = .null ∧ ∃ t, n.id = .text t ∧ PlainId t := by
  simp only [pair, List.forall_mem_cons]
  have first : PlainId "A".toList := ⟨by decide, by decide, by decide⟩
  have second : PlainId "B".toList := ⟨by decide, by decide, by decide⟩
  exact ⟨⟨Node.legible_bare first, rfl, _, rfl, first⟩,
    ⟨Node.legible_bare second, rfl, _, rfl, second⟩, by simp⟩

/-- Two equal edges, one with a label that has to be escaped, one to a node that is not there, and
an invisible one. -/
def drafts : List Edge := [
  { id := .null, source := .text "A", target := .text "B" },
  { id := .text [], source := .text "A", target := .text "B" },
  { id := .null, source := .text "B", target := .text "A", text := .text "a|b", stroke := .thick
    sourceTip := .circle, length := .number (.int (-2)) },
  { id := .null, source := .text "A", target := .text "C" },
  { id := .null, source := .text "A", target := .text "B", stroke := .invisible }]

theorem fitted_drafts : ∀ e ∈ drafts, e.Draft ∧ e.style = none := by
  intro e he
  simp only [drafts, List.mem_cons, List.not_mem_nil, or_false] at he
  rcases he with rfl | rfl | rfl | rfl | rfl
  · exact ⟨.of_plain (by simp [Value.holds]) rfl (by decide) (by decide), rfl⟩
  · exact ⟨.of_plain (by simp [Value.holds]) rfl (by decide) (by decide), rfl⟩
  · exact ⟨.of_plain (fun _ => ⟨_, rfl, by decide⟩) rfl (by decide) (by decide), rfl⟩
  · exact ⟨.of_plain (by simp [Value.holds]) rfl (by decide) (by decide), rfl⟩
  · exact ⟨.of_plain (by simp [Value.holds]) rfl (by decide) (by decide), rfl⟩

theorem drafts_come_back : ∃ s d', (sketch .lr pair drafts).write {} = .ok s ∧
    Diagram.read s = .ok d' ∧ List.Forall₂ Edge.Redraws (sketch .lr pair drafts).edges d'.edges ∧
    ∀ k, (∀ e ∈ (sketch .lr pair drafts).edges.take k, e.Headless) →
      (d'.edges.map Edge.id).take k = ((sketch .lr pair drafts).edges.map Edge.id).take k :=
  added_edges_come_back legible_pair (by decide) fitted_drafts

example : (sketch .lr pair drafts).edges.length = 4 := by decide +kernel

/-- The tip of an invisible edge does not come back. -/
theorem hidden_tips_do_not_come_back : ¬ ∀ es : List Edge, (∀ e ∈ es, e.Draft ∧ e.style = none) →
    ∃ s d', (sketch .tb pair es).write {} = .ok s ∧ Diagram.read s = .ok d' ∧
      d'.edges.map Edge.id = (sketch .tb pair es).edges.map Edge.id ∧
      d'.edges.map Edge.stroke = (sketch .tb pair es).edges.map Edge.stroke ∧
      d'.edges.map Edge.sourceTip = (sketch .tb pair es).edges.map Edge.sourceTip ∧
      d'.edges.map Edge.targetTip = (sketch .tb pair es).edges.map Edge.targetTip := by
  intro stays
  let hidden : List Edge := [
    { id := .null, source := .text "A", target := .text "B", stroke := .invisible }]
  obtain ⟨s, d', written, read, _, _, _, tips⟩ := stays hidden fun e he => by
    rw [List.mem_singleton.mp he]
    exact ⟨.of_plain (by simp [Value.holds]) rfl (by decide) (by decide), rfl⟩
  have line : (sketch .tb pair hidden).write {} =
      .ok "flowchart TB\n    A\n    B\n    A ~~~ B\n".toList := by decide +kernel
  have headless : (Diagram.read "flowchart TB\n    A\n    B\n    A ~~~ B\n".toList).map
      (·.edges.map Edge.targetTip) = .ok [.none] := by decide +kernel
  have given : (sketch .tb pair hidden).edges.map Edge.targetTip = [.arrow] := by decide +kernel
  obtain rfl := Except.ok.inj (line.symm.trans written)
  rw [read] at headless
  rw [given] at tips
  exact absurd (tips.symm.trans (Except.ok.inj headless)) (by decide)

end Diagram
end Flowchart
