import Flowchart.Proofs.Declarations
import Flowchart.Proofs.Meeting

/-! Lines that are skipped. The line of a chain is given up at the first node text that holds no
node. The nodes before it have been met by then and stay as they were met; nothing else of the line
is taken in, and no edge of it is drawn. -/
namespace Flowchart.Reading
variable {r r' : Reading}

/-- Is the text a node: with properties, with brackets, or as an id alone? -/
def isNode (s : Text) : Bool :=
  (propertied? s).isSome || (readBracketed? s).isSome || isBareId s

/-- Is the piece of a node text a node, with classes or without? -/
def isNodePiece (piece : Text) : Bool := isNode (Text.trim (takeClasses piece.length piece).1)

/-- None of the pieces of the node text is a node. -/
def Unreadable (text : Text) : Prop := ∀ piece ∈ group text, isNodePiece piece = false

instance (text : Text) : Decidable (Unreadable text) :=
  inferInstanceAs (Decidable (∀ piece ∈ group text, isNodePiece piece = false))

theorem isSome_nodeId? (s : Text) : (nodeId? s).isSome = isNode s := by
  by_cases bare : isBareId s
  · simp [nodeId?, isNode, bare]
  · simp [nodeId?, isNode, bare]

theorem meetNode_of_not_isNode {s : Text} (h : isNode s = false) (r : Reading) :
    r.meetNode s = .ok (none, r) := by
  simp only [isNode, Bool.or_eq_false_iff, Option.isSome_eq_false_iff, Option.isNone_iff_eq_none]
    at h
  obtain ⟨⟨no_properties, no_brackets⟩, not_bare⟩ := h
  rw [meetNode, no_properties, no_brackets]
  simp [not_bare]

theorem meetPiece_of_not_isNodePiece {piece : Text} (h : isNodePiece piece = false) (r : Reading) :
    r.meetPiece piece = .ok (none, r) := by
  rw [meetPiece]
  simp only [meetNode_of_not_isNode h]
  rfl

theorem meetPieces_unreadable {pieces : List Text} (h : ∀ p ∈ pieces, isNodePiece p = false)
    (r : Reading) : r.meetPieces pieces = .ok ([], r) := by
  induction pieces with
  | nil => rfl
  | cons piece pieces ih =>
    rw [meetPieces, meetPiece_of_not_isNodePiece (h piece List.mem_cons_self)]
    change (r.meetPieces pieces >>= fun p => pure p) = _
    rw [ih fun p hp => h p (List.mem_cons_of_mem piece hp)]
    rfl

theorem unreadable_of_meetPieces {pieces : List Text} (met : r.meetPieces pieces = .ok ([], r')) :
    ∀ p ∈ pieces, isNodePiece p = false := by
  intro p hp
  have none_here := List.filterMap_eq_nil_iff.mp (ids_of_meetPieces met).symm p hp
  rw [isNodePiece, ← isSome_nodeId?]
  exact congrArg Option.isSome none_here

/-- A line is given up at the first node text without a node: what stands before it has been met,
and what stands after it is not looked at. -/
theorem meetTexts_unreadable {before : List Text} (readable : ∀ text ∈ before, ¬ Unreadable text)
    {bad : Text} (unreadable : Unreadable bad) (r : Reading) (line : Text) (after : List Text) :
    r.meetTexts line (before ++ bad :: after) = (r.meetPieces (before.flatMap group)).map
      fun met => (none, met.2.note (.unreadableNode bad line)) := by
  induction before generalizing r with
  | nil =>
    rw [List.nil_append, meetTexts, meetPieces_unreadable unreadable]
    rfl
  | cons text before ih =>
    have rest := ih fun t ht => readable t (List.mem_cons_of_mem text ht)
    rw [List.cons_append, meetTexts, List.flatMap_cons, meetPieces_append]
    cases met : r.meetPieces (group text) with
    | error e => rfl
    | ok p =>
      obtain ⟨ids, q⟩ := p
      have some_id : ids.isEmpty = false := by
        rw [List.isEmpty_eq_false_iff]
        rintro rfl
        exact readable text List.mem_cons_self (unreadable_of_meetPieces met)
      change (if ids.isEmpty then _ else q.meetTexts line (before ++ bad :: after) >>= _) = _
      rw [some_id, rest q]
      change ((q.meetPieces (before.flatMap group)).map _ >>= _) =
        (q.meetPieces (before.flatMap group) >>= _).map _
      cases q.meetPieces (before.flatMap group) <;> rfl

/-! ### Nodes that are there already -/

/-- The piece is the id of a node that is there and has nothing to join. -/
structure Settled (r : Reading) (piece : Text) : Prop where
  id : NodeId piece
  there : ∃ n, r.diagram.node? (.text piece) = some n ∧ (r.opened = [] ∨ n.parent ≠ .null)

theorem meetPieces_settled {pieces : List Text} (h : ∀ p ∈ pieces, r.Settled p) :
    r.meetPieces pieces = .ok (pieces, r) := by
  induction pieces with
  | nil => rfl
  | cons piece pieces ih =>
    obtain ⟨name, n, there, joined⟩ := h piece List.mem_cons_self
    have meets : r.meetNode piece = .ok (some piece, r) := by
      rw [name.meetNode, meet_again there joined]
    rw [meetPieces, meetPiece_single name.single meets]
    change (r.meetPieces pieces >>= fun p => pure ([piece] ++ p.1, p.2)) = _
    rw [ih fun p hp => h p (List.mem_cons_of_mem piece hp)]
    rfl

/-! ### Lines that are skipped -/

/-- The line is a chain here: it has no form of its own, or that of the properties of an edge that
there is not. -/
def ReadsChain (r : Reading) (line : Text) : Prop :=
  Statement.ofLine line = .chain line ∨
    ∃ id body, Statement.ofLine line = .properties id body line ∧ r.diagram.edge? (.text id) = none

theorem ReadsChain.read {line : Text} (h : r.ReadsChain line) :
    r.read (.ofLine line) = r.readChain line := by
  rcases h with chain | ⟨id, body, properties, none_there⟩
  · rw [chain]
    rfl
  · rw [properties, Reading.read]
    simp only [none_there]

/-- A skipped line leaves what the nodes before its first unreadable part leave, and a note. So it
leaves no edge; and it leaves no trace in the diagram at all if it begins with the unreadable part,
or if nothing but ids of nodes that are there already stands before it. -/
theorem skipped_line_leaves_nodes_before {line bad : Text} {before after : List Text}
    (chain : r.ReadsChain line) (parts : (Chain.ofLine line).texts = before ++ bad :: after)
    (readable : ∀ text ∈ before, ¬ Unreadable text) (unreadable : Unreadable bad) :
    r.read (.ofLine line) = (r.meetPieces (before.flatMap group)).map
      (fun met => met.2.note (.unreadableNode bad line)) ∧
    (∀ r', r.read (.ofLine line) = .ok r' → r'.diagram.edges = r.diagram.edges ∧
      r'.diagram.edgeIds = r.diagram.edgeIds ∧ r'.diagram.classes = r.diagram.classes ∧
      r'.diagram.direction = r.diagram.direction ∧ r'.opened = r.opened ∧
      Keyed.keys r'.diagram.subgraphs = Keyed.keys r.diagram.subgraphs ∧
      Keyed.keys r.diagram.nodes <+: Keyed.keys r'.diagram.nodes) ∧
    ((∀ piece ∈ before.flatMap group, r.Settled piece) →
      r.read (.ofLine line) = .ok (r.note (.unreadableNode bad line))) := by
  have left : r.read (.ofLine line) = (r.meetPieces (before.flatMap group)).map
      fun met => met.2.note (.unreadableNode bad line) := by
    rw [chain.read, readChain]
    simp only [parts, meetTexts_unreadable readable unreadable]
    cases r.meetPieces (before.flatMap group) <;> rfl
  refine ⟨left, ?_, ?_⟩
  · intro r' read
    obtain ⟨⟨ids, q⟩, met, rfl⟩ := map_eq_ok.mp (left ▸ read)
    have meets := meetPieces_meets met
    exact ⟨meets.edges, meets.edgeIds, meets.classes, meets.direction, meets.opened,
      meets.subgraphs, meets.nodes⟩
  · intro settled
    rw [left, meetPieces_settled settled]
    rfl

theorem broken_fan_leaves_nodes_before :
    ReadsChain {} "A & B[x]:::hot --> C --> d! e --> F" ∧
    (Chain.ofLine "A & B[x]:::hot --> C --> d! e --> F").texts =
      ["A & B[x]:::hot".toList, "C"] ++ "d! e".toList :: ["F".toList] ∧
    (∀ text ∈ ["A & B[x]:::hot".toList, "C"], ¬ Unreadable text) ∧ Unreadable "d! e" ∧
    (meetPieces {} ["A", "B[x]:::hot", "C"]).map (·.1) = .ok ["A", "B", "C"] ∧
    read {} (.ofLine "A & B[x]:::hot --> C --> d! e --> F") =
      (meetPieces {} ["A", "B[x]:::hot", "C"]).map fun met =>
        met.2.note (.unreadableNode "d! e" "A & B[x]:::hot --> C --> d! e --> F") := by
  have chain : ReadsChain {} "A & B[x]:::hot --> C --> d! e --> F" :=
    Or.inl (Statement.ofLine_chain (by decide) (by decide))
  have parts : (Chain.ofLine "A & B[x]:::hot --> C --> d! e --> F").texts =
      ["A & B[x]:::hot".toList, "C"] ++ "d! e".toList :: ["F".toList] := by decide +kernel
  have readable : ∀ text ∈ ["A & B[x]:::hot".toList, "C"], ¬ Unreadable text := by decide
  have unreadable : Unreadable "d! e" := by decide
  refine ⟨chain, parts, readable, unreadable, ?_⟩
  have left := (skipped_line_leaves_nodes_before chain parts readable unreadable).1
  have pieces : ["A & B[x]:::hot".toList, "C"].flatMap group = ["A", "B[x]:::hot", "C"] := by
    decide
  rw [pieces] at left
  exact ⟨by decide +kernel, left⟩

/-- A line that is skipped may leave a node that was not there. -/
theorem skipped_line_leaves_trace : ¬ ∀ (r r' : Reading) (line bad : Text),
    r.ReadsChain line → bad ∈ (Chain.ofLine line).texts → Unreadable bad →
      r.read (.ofLine line) = .ok r' → r'.diagram = r.diagram := by
  intro none_left
  have chain : ReadsChain {} "A --> B C" :=
    Or.inl (Statement.ofLine_chain (by decide) (by decide))
  have here : "B C".toList ∈ (Chain.ofLine "A --> B C").texts := by decide
  have same := none_left {} _ _ _ chain here (by decide) rfl
  exact absurd same (by decide)

end Flowchart.Reading
