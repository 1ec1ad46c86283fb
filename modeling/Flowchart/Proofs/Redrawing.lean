import Flowchart.Proofs.Rereading

/-! Edges that are written and read again. They are drawn one after another between nodes that are
there. An author's id comes back: ids that are generated begin otherwise, and authors' ids differ
from each other. -/
namespace Flowchart

/-- The line of the edge tells another one: all that it says is the same, and so is the id if the
line tells it. -/
structure Edge.Tells (e f : Edge) : Prop where
  redrawn : ∃ id, f = e.redrawn id
  id : Writing.needsId e → f.id = e.id

namespace View

/-- The ids of the edges that are texts. -/
def edgeIds (v : View) : List Text := v.edges.filterMap fun e => e.id.text?

theorem drew_drew (v : View) (es fs : List Edge) : (v.drew es).drew fs = v.drew (es ++ fs) := by
  simp [drew]

@[simp] theorem drew_nil (v : View) : v.drew [] = v := by simp [drew]

theorem edgeIds_drew {v : View} {e : Edge} {id : Text} (hid : e.id = .text id) :
    (v.drew [e]).edgeIds = v.edgeIds ++ [id] := by
  simp [edgeIds, drew, hid, Value.text?]

theorem mem_edgeIds_drew {v : View} {e : Edge} {id i : Text} (hid : e.id = .text id) :
    i ∈ (v.drew [e]).edgeIds ↔ i ∈ v.edgeIds ∨ i = id := by
  simp [edgeIds_drew hid]

end View

namespace Reading
variable {r : Reading}

theorem edgeIds_view : r.diagram.edgeIds = r.view.edgeIds := rfl

theorem hasNode_of_view {id : Value} (there : id ∈ r.view.nodes.map Node.id) :
    r.diagram.hasNode id :=
  Keyed.has_iff.mpr there

end Reading

namespace Edge
variable {e : Edge} {v : View}

/-- The ends of the edge are among the nodes. -/
structure Joins (e : Edge) (v : View) : Prop where
  source : e.source ∈ v.nodes.map Node.id
  target : e.target ∈ v.nodes.map Node.id

/-- An id in the line of an edge is the author's, and no edge has it yet. -/
def Fresh (e : Edge) (v : View) : Prop :=
  Writing.needsId e → ∀ t, e.id = .text t → ¬ EdgeId.generatedMark <+: t ∧ t ∉ v.edgeIds

theorem leads_edge (h : e.Writable) (joins : e.Joins v) (outside : v.opened = []) :
    Leads [.edge e] v (v.drew [e.redrawn (EdgeId.distinct e.asked v.edgeIds)]) := by
  obtain ⟨l, written, line, reads⟩ := read_edge h
  refine .one written line fun r _ here => ?_
  subst here
  obtain ⟨r', read, view⟩ := reads (Reading.hasNode_of_view joins.source)
    (Reading.hasNode_of_view joins.target) outside
  rw [Reading.edgeIds_view] at view
  exact ⟨r', read, view⟩

/-- Edges as their lines are read one after another, when some ids are taken. -/
def allRedrawn (taken : List Text) : List Edge → List Edge
  | [] => []
  | e :: es =>
    let id := EdgeId.distinct e.asked taken
    e.redrawn id :: allRedrawn (taken ++ [id]) es

theorem tells_redrawn (h : e.Writable) (fresh : e.Fresh v) :
    e.Tells (e.redrawn (EdgeId.distinct e.asked v.edgeIds)) := by
  refine ⟨⟨_, rfl⟩, fun needs => ?_⟩
  have same := id_eq_asked h needs
  rw [redrawn, EdgeId.distinct_eq_self (fresh needs _ same).2, same]

/-- An edge that is drawn takes no id that another one needs. -/
theorem Fresh.drew {f : Edge} (fresh : f.Fresh v) (h : e.Writable) (here : e.Fresh v)
    (other : e.id ≠ f.id) : f.Fresh (v.drew [e.redrawn (EdgeId.distinct e.asked v.edgeIds)]) := by
  intro needs t ht
  obtain ⟨own, new⟩ := fresh needs t ht
  refine ⟨own, fun taken => ?_⟩
  rcases (View.mem_edgeIds_drew rfl).mp taken with old | rfl
  · exact new old
  cases needs' : Writing.needsId e with
  | true =>
    have same := id_eq_asked h needs'
    rw [EdgeId.distinct_eq_self (here needs' _ same).2] at ht
    exact other (same.trans ht.symm)
  | false =>
    have mark : EdgeId.generatedMark <+: e.asked := by
      rw [asked_eq_generated needs']
      exact EdgeId.prefix_ofContent ..
    exact own (mark.trans (EdgeId.prefix_distinct e.asked v.edgeIds))

/-- Edges between nodes that are there come back in their order. -/
theorem leads_edges {es : List Edge} (h : ∀ e ∈ es, e.Writable ∧ e.Joins v ∧ e.Fresh v)
    (outside : v.opened = []) (nodup : (es.map Edge.id).Nodup) :
    List.Forall₂ Edge.Tells es (allRedrawn v.edgeIds es) ∧
      Leads (es.map .edge) v (v.drew (allRedrawn v.edgeIds es)) := by
  induction es generalizing v with
  | nil => exact ⟨.nil, by simpa [allRedrawn] using Leads.nil v⟩
  | cons e es ih =>
    obtain ⟨writable, joins, fresh⟩ := h e List.mem_cons_self
    have first := leads_edge writable joins outside
    have later : ∀ f ∈ es, f.Writable ∧
        f.Joins (v.drew [e.redrawn (EdgeId.distinct e.asked v.edgeIds)]) ∧
        f.Fresh (v.drew [e.redrawn (EdgeId.distinct e.asked v.edgeIds)]) := by
      intro f hf
      obtain ⟨writable', joins, fresh'⟩ := h f (List.mem_cons_of_mem e hf)
      have other : e.id ≠ f.id := fun same =>
        (List.nodup_cons.mp nodup).1 (same ▸ List.mem_map_of_mem hf)
      exact ⟨writable', ⟨joins.source, joins.target⟩, fresh'.drew writable fresh other⟩
    obtain ⟨told, rest⟩ := ih later outside (List.nodup_cons.mp nodup).2
    rw [View.drew_drew, View.edgeIds_drew rfl] at rest
    rw [View.edgeIds_drew rfl] at told
    exact ⟨.cons (tells_redrawn writable fresh) told, first.cons rest⟩

end Edge
end Flowchart
