import Flowchart.Proofs.ReadingIntegrity
import Flowchart.Proofs.Scanning

/-! What of a reading a second reading has to find again: the diagram that has been read so far, and
which subgraphs are open. How a node that is met for the first time changes this view. -/
namespace Flowchart

/-- What is found again of a reading. -/
structure View extends Diagram where
  opened : List Text := []

namespace View

/-- A node is met for the first time: it joins the innermost open subgraph. -/
def enter (v : View) (n : Node) : View :=
  match v.opened.head? with
  | none => { v with nodes := v.nodes ++ [n] }
  | some id =>
    { v with
      nodes := v.nodes ++ [{ n with parent := .text id }]
      subgraphs := v.subgraphs.map fun g => if g.id = .text id then g.enlist n.id else g }

/-- The view with further edges. -/
def drew (v : View) (es : List Edge) : View := { v with edges := v.edges ++ es }

end View

namespace Reading
variable {r r' : Reading}

/-- The part of a reading that is found again. -/
def view (r : Reading) : View := ⟨r.diagram, r.opened⟩

/-- A node that is not there yet is met. -/
def enrol (r : Reading) (n : Node) : Reading := (r.join n).1.putNode (r.join n).2

theorem nodes_put_fresh {n : Node} (fresh : r.diagram.node? n.id = none) :
    Keyed.put n r.diagram.nodes = r.diagram.nodes ++ [n] :=
  Keyed.put_of_not_mem (Keyed.find?_eq_none_iff.mp fresh)

theorem view_enrol (h : r.Sound) {n : Node} (fresh : r.diagram.node? n.id = none)
    (outside : n.parent = .null) : (r.enrol n).view = r.view.enter n := by
  unfold enrol join View.enter
  cases opened : r.opened.head? with
  | none =>
    have head : r.view.opened.head? = none := opened
    simp only [head]
    simp [view, putNode, nodes_put_fresh fresh]
  | some id =>
    have head : r.view.opened.head? = some id := opened
    have there := h.opened id (List.mem_of_mem_head? opened)
    obtain ⟨g, found⟩ : ∃ g, r.diagram.subgraph? (.text id) = some g :=
      Option.isSome_iff_exists.mp (Keyed.isSome_find?.trans there)
    have listed := congrArg Diagram.subgraphs
      (Diagram.put_enlist h.integral.distinct found n.id)
    have placed : Keyed.put { n with parent := .text id } r.diagram.nodes =
        r.diagram.nodes ++ [{ n with parent := .text id }] :=
      nodes_put_fresh (n := { n with parent := .text id }) fresh
    simp only [outside, found, head]
    simp only [view, putNode, putSubgraph, listed, placed]
    rfl

theorem join_outside (opened : r.opened.head? = none) (n : Node) : r.join n = (r, n) := by
  unfold join
  rw [opened]

theorem join_inside {i : Text} (opened : r.opened.head? = some i) {n : Node}
    (outside : n.parent = .null) : r.join n = (((r.diagram.subgraph? (.text i)).map fun g =>
      r.putSubgraph (g.enlist n.id)).getD r, { n with parent := .text i }) := by
  cases found : r.diagram.subgraph? (.text i) <;> simp [join, opened, outside, found]

theorem id_join (n : Node) : (r.join n).2.id = n.id := by
  unfold join
  split <;> rfl

theorem join_rest (n : Node) : (r.join n).2 = { n with parent := (r.join n).2.parent } := by
  unfold join
  split <;> rfl

theorem node?_enrol (n : Node) : (r.enrol n).diagram.node? n.id = some (r.join n).2 := by
  rw [← id_join (r := r) n]
  exact Keyed.find?_put_self (r.join n).2 (r.join n).1.diagram.nodes

/-- A node that changes in nothing but further properties might have been met like this. -/
theorem putNode_enrol {n m : Node} (id : m.id = n.id) (outside : n.parent = .null)
    (outside' : m.parent = .null) :
    (r.enrol n).putNode { m with parent := (r.join n).2.parent } = r.enrol m := by
  have joined : r.join m = ((r.join n).1, { m with parent := (r.join n).2.parent }) := by
    cases opened : r.opened.head? with
    | none =>
      rw [join_outside opened, join_outside opened, outside, ← outside']
    | some i =>
      rw [join_inside opened outside, join_inside opened outside', id]
  have called : (r.join n).2.id = n.id := id_join n
  simp only [enrol, joined, putNode]
  rw [Keyed.put_put]
  exact called.trans id.symm

theorem meet_fresh {id : Text} (fresh : r.diagram.node? (.text id) = none) (text : Text)
    {shape : Shape} (named : shape.name ≠ []) :
    r.meet id (some text) (some shape) = r.enrol { id := .text id, text := .text text, shape } := by
  have some_name : shape.name.isEmpty = false := by simpa using named
  unfold meet
  simp only [fresh, Option.getD_some, some_name, Bool.false_eq_true, if_false]
  rfl

theorem meet_fresh_bare {id : Text} (fresh : r.diagram.node? (.text id) = none) :
    r.meet id none none = r.enrol (.bare (.text id)) := by
  unfold meet
  simp only [fresh]
  rfl

/-- A node that is met again by its id alone stays as it is if it has nothing to join. -/
theorem meet_again {id : Text} {n : Node} (there : r.diagram.node? (.text id) = some n)
    (joined : r.opened = [] ∨ n.parent ≠ .null) : r.meet id none none = r := by
  have key : n.id = .text id := Keyed.key_of_find? there
  have same : Keyed.put n r.diagram.nodes = r.diagram.nodes := by
    refine Keyed.put_self ?_
    rw [Node.key_eq, key]
    exact there
  have alone : r.join n = (r, n) := by
    unfold join
    split
    · rename_i i _ opened outside
      rcases joined with none_open | inside
      · simp [none_open] at opened
      · exact absurd outside inside
    · rfl
  unfold meet
  simp only [there, alone]
  simp [putNode, same]

theorem meet_there {id : Text} {n : Node} (there : r.diagram.node? (.text id) = some n)
    (opened : r.opened = []) : r.meet id none none = r := meet_again there (Or.inl opened)

/-! ### Chains -/

theorem takeClasses_of_none {s : Text} (h : classSuffix? s = none) (more : Nat) :
    takeClasses more s = (s, []) := by
  cases more with
  | zero => rfl
  | succ more =>
    rw [takeClasses, h]

/-- A node text that is one node, without classes. -/
structure Single (s : Text) : Prop where
  tight : Text.Tight s
  alone : group s = [s]
  unclassed : classSuffix? s = none

theorem meetPiece_single {s id : Text} (h : Single s)
    (meets : r.meetNode s = .ok (some id, r')) : r.meetPiece s = .ok (some id, r') := by
  have trimmed : Text.trim s = s := Text.trim_tight h.tight
  rw [meetPiece, takeClasses_of_none h.unclassed]
  simp only [trimmed, meets, bind, Except.bind, Option.bind_some]
  cases there : r'.diagram.node? (.text id) with
  | none => rfl
  | some n =>
    have same : r'.putNode { n with classes := addClasses [] n.classes } = r' := by
      have key : n.id = .text id := Keyed.key_of_find? there
      have put : Keyed.put n r'.diagram.nodes = r'.diagram.nodes := by
        refine Keyed.put_self ?_
        rw [Node.key_eq, key]
        exact there
      change { r' with diagram.nodes := Keyed.put n r'.diagram.nodes } = r'
      rw [put]
    simp only [same]
    rfl

theorem meetPieces_single {s id : Text} (h : Single s)
    (meets : r.meetNode s = .ok (some id, r')) : r.meetPieces (group s) = .ok ([id], r') := by
  rw [h.alone, meetPieces, meetPiece_single h meets]
  rfl

theorem readChain_node {s id : Text} (h : Single s) (whole : Chain.ofLine s = ⟨s, []⟩)
    (meets : r.meetNode s = .ok (some id, r')) : r.readChain s = .ok r' := by
  have texts : r.meetTexts s [s] = .ok (some [[id]], r') := by
    rw [meetTexts, meetPieces_single h meets]
    rfl
  rw [readChain, whole]
  simp only [Chain.texts, Chain.links, List.map_nil, texts]
  rfl

theorem readChain_edge {line s t source target : Text} {link : Link} {op : Operator}
    (hs : Single s) (ht : Single t) (whole : Chain.ofLine line = ⟨s, [(link, t)]⟩)
    (meets : r.meetNode s = .ok (some source, r)) (meets' : r.meetNode t = .ok (some target, r))
    (op_read : Operator.read? link.symbols = some op) :
    r.readChain line = r.draw link op source target := by
  have texts : r.meetTexts line [s, t] = .ok (some [[source], [target]], r) := by
    rw [meetTexts, meetPieces_single hs meets]
    change (r.meetTexts line [t] >>= fun p => Except.ok (p.1.map ([source] :: ·), p.2)) = _
    rw [meetTexts, meetPieces_single ht meets']
    rfl
  have drawn : r.drawLinks [link] [[source], [target]] = r.draw link op source target := by
    rw [drawLinks, op_read]
    change (List.foldlM (fun r p => draw r link op p.1 p.2) r [(source, target)]
      >>= fun r => r.drawLinks [] [[target]]) = _
    rw [List.foldlM_cons]
    cases r.draw link op source target <;> rfl
  rw [readChain, whole]
  simp only [Chain.texts, Chain.links, List.map_cons, List.map_nil, texts]
  exact drawn

end Reading
end Flowchart
