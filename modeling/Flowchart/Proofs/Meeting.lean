import Flowchart.Proofs.Keyed
import Flowchart.Proofs.Results
import Flowchart.Source.Reading

/-! Nodes that are met. Whatever a node text says, meeting its nodes touches only nodes and the
members of the innermost open subgraph: no edge, no class, no direction and no subgraph comes or
goes, and every node that was there stays in its place. Which nodes are met goes by the text
alone. -/
namespace Flowchart.Reading
variable {r r' r'' : Reading}

/-- Nodes are met on the way from one reading to another, and nothing else happens. -/
structure Meets (r r' : Reading) : Prop where
  edges : r'.diagram.edges = r.diagram.edges
  classes : r'.diagram.classes = r.diagram.classes
  direction : r'.diagram.direction = r.diagram.direction
  subgraphs : Keyed.keys r'.diagram.subgraphs = Keyed.keys r.diagram.subgraphs
  opened : r'.opened = r.opened
  notes : r'.notes = r.notes
  nodes : Keyed.keys r.diagram.nodes <+: Keyed.keys r'.diagram.nodes

theorem Meets.refl (r : Reading) : Meets r r := ⟨rfl, rfl, rfl, rfl, rfl, rfl, List.prefix_rfl⟩

theorem Meets.trans (h : Meets r r') (h' : Meets r' r'') : Meets r r'' where
  edges := h'.edges.trans h.edges
  classes := h'.classes.trans h.classes
  direction := h'.direction.trans h.direction
  subgraphs := h'.subgraphs.trans h.subgraphs
  opened := h'.opened.trans h.opened
  notes := h'.notes.trans h.notes
  nodes := h.nodes.trans h'.nodes

theorem Meets.edgeIds (h : Meets r r') : r'.diagram.edgeIds = r.diagram.edgeIds := by
  simp only [Diagram.edgeIds, h.edges]

theorem prefix_keys_put (n : Node) (ns : List Node) :
    Keyed.keys ns <+: Keyed.keys (Keyed.put n ns) := by
  by_cases there : Keyed.key n ∈ Keyed.keys ns
  · have same := Keyed.keys_put_of_mem there
    exact same ▸ List.prefix_rfl
  · rw [Keyed.put_of_not_mem there, Keyed.keys_append]
    exact List.prefix_append _ _

theorem putNode_meets (r : Reading) (n : Node) : Meets r (r.putNode n) :=
  ⟨rfl, rfl, rfl, rfl, rfl, rfl, prefix_keys_put n r.diagram.nodes⟩

theorem enlist_meets {id : Value} {g : Subgraph} (there : r.diagram.subgraph? id = some g)
    (node : Value) : Meets r (r.putSubgraph (g.enlist node)) where
  edges := rfl
  classes := rfl
  direction := rfl
  subgraphs := by
    have same : Keyed.key (g.enlist node) = Keyed.key g := by
      change (g.enlist node).id = g.id
      rw [Subgraph.enlist]
      split <;> rfl
    refine Keyed.keys_put_of_mem ?_
    rw [same]
    exact Keyed.mem_keys (Keyed.mem_of_find? there)
  opened := rfl
  notes := rfl
  nodes := List.prefix_rfl

theorem join_meets (r : Reading) (n : Node) : Meets r (r.join n).1 := by
  unfold join
  split
  · dsimp only
    split
    · exact enlist_meets ‹_› n.id
    · exact .refl r
  · exact .refl r

theorem meet_meets (r : Reading) (id : Text) (text : Option Text) (shape : Option Shape) :
    Meets r (r.meet id text shape) := (join_meets r _).trans (putNode_meets _ _)

theorem meetNode_meets {s : Text} {found : Option Text} (met : r.meetNode s = .ok (found, r')) :
    Meets r r' := by
  unfold meetNode at met
  split at met
  · obtain ⟨properties, _, met⟩ := bind_eq_ok.mp met
    dsimp only at met
    split at met
    · simp only [bind_eq_ok, pure_eq_ok, Prod.mk.injEq] at met
      obtain ⟨m, _, _, rfl⟩ := met
      exact (meet_meets r _ _ _).trans (putNode_meets _ m)
    · obtain ⟨_, rfl⟩ := Prod.mk.inj (pure_eq_ok.mp met)
      exact meet_meets r _ _ _
  · split at met
    · simp only [bind_eq_ok, pure_eq_ok, Prod.mk.injEq] at met
      obtain ⟨_, _, _, rfl⟩ := met
      exact meet_meets r _ _ _
    · split at met
      · obtain ⟨_, rfl⟩ := Prod.mk.inj (Except.ok.inj met)
        exact meet_meets r _ _ _
      · obtain ⟨_, rfl⟩ := Prod.mk.inj (Except.ok.inj met)
        exact .refl r

theorem meetPiece_meets {piece : Text} {found : Option Text}
    (met : r.meetPiece piece = .ok (found, r')) : Meets r r' := by
  unfold meetPiece at met
  obtain ⟨⟨id, q⟩, first, met⟩ := bind_eq_ok.mp met
  have before : Meets r q := meetNode_meets first
  dsimp only at met
  split at met
  · obtain ⟨_, rfl⟩ := Prod.mk.inj (pure_eq_ok.mp met)
    exact before.trans (putNode_meets q _)
  · obtain ⟨_, rfl⟩ := Prod.mk.inj (pure_eq_ok.mp met)
    exact before

theorem meetPieces_meets {pieces ids : List Text} (met : r.meetPieces pieces = .ok (ids, r')) :
    Meets r r' := by
  induction pieces generalizing r ids with
  | nil =>
    obtain ⟨_, rfl⟩ := Prod.mk.inj (Except.ok.inj met)
    exact .refl r
  | cons piece pieces ih =>
    simp only [meetPieces, bind_eq_ok, pure_eq_ok, Prod.mk.injEq] at met
    obtain ⟨⟨id, q⟩, first, ⟨ids, q'⟩, rest, _, rfl⟩ := met
    exact (meetPiece_meets first).trans (ih rest)

/-- Pieces are met one after another. -/
theorem meetPieces_append (r : Reading) (ps qs : List Text) : r.meetPieces (ps ++ qs) = (do
    let (ids, r) ← r.meetPieces ps
    let (more, r) ← r.meetPieces qs
    return (ids ++ more, r)) := by
  have none_before : r.meetPieces [] = pure ([], r) := rfl
  induction ps generalizing r with
  | nil => simp [none_before]
  | cons piece ps ih => simp [meetPieces, ih _ rfl]

/-! ### Which nodes are met -/

/-- The id of the node that a text is: with properties, with brackets, or as an id alone. -/
def nodeId? (s : Text) : Option Text :=
  ((propertied? s).map (·.1)).or
    (((readBracketed? s).map (·.1)).or (if isBareId s then some s else none))

/-- The id of the node that a piece of a node text is, with classes or without. -/
def pieceId? (piece : Text) : Option Text :=
  nodeId? (Text.trim (takeClasses piece.length piece).1)

/-- The ids of the nodes in a node text. -/
def groupIds (text : Text) : List Text := (group text).filterMap pieceId?

/-- The ids of the nodes in each of several node texts, if there is one at least in each. -/
def groups? (texts : List Text) : Option (List (List Text)) :=
  texts.mapM fun text => if (groupIds text).isEmpty then none else some (groupIds text)

theorem groups?_cons (text : Text) (texts : List Text) : groups? (text :: texts) =
    if (groupIds text).isEmpty then none else (groups? texts).map (groupIds text :: ·) := by
  rw [groups?, List.mapM_cons]
  split
  · rfl
  · change groups? texts >>= (fun groups => some (groupIds text :: groups)) = _
    cases groups? texts <;> rfl

theorem found_of_meetNode {s : Text} {found : Option Text} (met : r.meetNode s = .ok (found, r')) :
    found = nodeId? s := by
  unfold meetNode at met
  split at met
  · rename_i id body propertied
    obtain ⟨properties, _, met⟩ := bind_eq_ok.mp met
    have here : found = some id := by
      dsimp only at met
      split at met
      · simp only [bind_eq_ok, pure_eq_ok, Prod.mk.injEq] at met
        obtain ⟨_, _, same, _⟩ := met
        exact same.symm
      · exact (Prod.mk.inj (pure_eq_ok.mp met)).1.symm
    rw [here, nodeId?, propertied]
    rfl
  · rename_i no_properties
    split at met
    · rename_i id text shape bracketed
      simp only [bind_eq_ok, pure_eq_ok, Prod.mk.injEq] at met
      obtain ⟨_, _, rfl, _⟩ := met
      rw [nodeId?, no_properties, bracketed]
      rfl
    · rename_i no_brackets
      rw [nodeId?, no_properties, no_brackets]
      split at met
      · rename_i bare
        obtain ⟨rfl, _⟩ := Prod.mk.inj (Except.ok.inj met)
        exact (if_pos bare).symm
      · rename_i not_bare
        obtain ⟨rfl, _⟩ := Prod.mk.inj (Except.ok.inj met)
        exact (if_neg not_bare).symm

theorem found_of_meetPiece {piece : Text} {found : Option Text}
    (met : r.meetPiece piece = .ok (found, r')) : found = pieceId? piece := by
  unfold meetPiece at met
  obtain ⟨⟨id, q⟩, first, met⟩ := bind_eq_ok.mp met
  have same : id = found := by
    dsimp only at met
    split at met <;> exact (Prod.mk.inj (pure_eq_ok.mp met)).1
  rw [← same]
  exact found_of_meetNode first

theorem ids_of_meetPieces {pieces ids : List Text} (met : r.meetPieces pieces = .ok (ids, r')) :
    ids = pieces.filterMap pieceId? := by
  induction pieces generalizing r ids with
  | nil => exact (Prod.mk.inj (Except.ok.inj met)).1.symm
  | cons piece pieces ih =>
    simp only [meetPieces, bind_eq_ok, pure_eq_ok, Prod.mk.injEq] at met
    obtain ⟨⟨id, q⟩, first, ⟨ids, q'⟩, rest, rfl, rfl⟩ := met
    rw [ih rest, found_of_meetPiece first]
    cases found : pieceId? piece <;> simp [found]

/-- Met one after another, the node texts give their ids, unless there is no node in one. No edge
comes or goes. -/
theorem groups_of_meetTexts {line : Text} {texts : List Text} {groups : Option (List (List Text))}
    (met : r.meetTexts line texts = .ok (groups, r')) :
    groups = groups? texts ∧ r'.diagram.edges = r.diagram.edges := by
  induction texts generalizing r groups with
  | nil =>
    obtain ⟨rfl, rfl⟩ := Prod.mk.inj (Except.ok.inj met)
    exact ⟨rfl, rfl⟩
  | cons text texts ih =>
    simp only [meetTexts, bind_eq_ok] at met
    obtain ⟨⟨ids, q⟩, first, met⟩ := met
    have edges := (meetPieces_meets first).edges
    obtain rfl : ids = groupIds text := ids_of_meetPieces first
    split at met
    · rename_i none_here
      obtain ⟨rfl, rfl⟩ := Prod.mk.inj (pure_eq_ok.mp met)
      exact ⟨by rw [groups?_cons, if_pos none_here], edges⟩
    · rename_i some_here
      simp only [bind_eq_ok, pure_eq_ok, Prod.mk.injEq] at met
      obtain ⟨⟨rest, q'⟩, more, rfl, rfl⟩ := met
      obtain ⟨rfl, same⟩ := ih more
      exact ⟨by rw [groups?_cons, if_neg some_here], same.trans edges⟩

end Flowchart.Reading
