import Flowchart.Proofs.Chaining

/-! The edges that the statements of a source text tell, and the edges that are read. There is one
for each, in the same order, and none is lost: an id that an earlier edge has is told apart by the
least number that makes it new. -/
namespace Flowchart

/-- An edge as a statement tells it: the link that draws it, the operator that the link is read as,
and the ids of the nodes at its ends. -/
structure Said where
  link : Link
  op : Operator
  source : Text
  target : Text
  deriving DecidableEq, Repr

namespace Said

/-- The text of the edge. -/
def text (e : Said) : Option Text := (Reading.linkLabel e.link e.op).toOption.join

/-- The id that the author gave the edge, or the hash of its content. -/
def wanted (e : Said) : Text := Edge.wanted e.link e.op e.source e.target e.text

/-- The ids of edges that are drawn one after another, after others with ids that are taken. -/
def ids (taken : List Text) : List Said → List Text
  | [] => []
  | e :: es =>
    let id := EdgeId.distinct e.wanted taken
    id :: ids (taken ++ [id]) es

/-- The edge that is read is the one that was told, whatever its id is and however it was dressed
later on. -/
structure Drawn (e : Said) (f : Edge) : Prop where
  label : Reading.linkLabel e.link e.op = .ok e.text
  source : f.source = .text e.source
  target : f.target = .text e.target
  text : f.text = .ofText? e.text
  stroke : f.stroke = e.op.stroke
  sourceTip : f.sourceTip = e.op.source
  targetTip : f.targetTip = e.op.target
  length : f.length = .number (.int e.op.length)
  named : f.named = .bool (e.link.id.filter fun id => !id.isEmpty).isSome

end Said

/-! ### What a text tells -/

/-- The edge that a link tells between two nodes, if its operator can be read. -/
def Said.ofPair? (p : Link × Text × Text) : Option Said :=
  (Operator.read? p.1.symbols).map fun op => ⟨p.1, op, p.2.1, p.2.2⟩

/-- The edges that a chain tells. There is none if there is no node in one of its texts. -/
def Chain.edges (c : Chain) : List Said :=
  match Reading.groups? c.texts with
  | some (group :: groups) => (pairs group (c.links.zip groups)).filterMap Said.ofPair?
  | _ => []

/-- The edges that a statement tells where some ids are taken. Properties under an id that no edge
has are a chain. -/
def Statement.edges (taken : List Text) : Statement → List Said
  | .chain line => (Chain.ofLine line).edges
  | .properties id _ line => if taken.contains id then [] else (Chain.ofLine line).edges
  | _ => []

/-- The edges that statements tell one after another. -/
def Statement.allEdges (taken : List Text) : List Statement → List Said
  | [] => []
  | s :: ss =>
    let here := s.edges taken
    here ++ allEdges (taken ++ Said.ids taken here) ss

namespace Source

/-- The statements of a source text that is read as a flowchart. -/
def statements (s : Text) : List Statement :=
  ((Reading.begin ((meaningful s).map Reading.strip)).2.filter fun l => !l.isEmpty).map
    Statement.ofLine

/-- The edges that a source text tells. Diagrams of other kinds tell none. -/
def edges (s : Text) : List Said :=
  let kind := DiagramKind.detect s
  if kind.isEditable || kind = .unknown then Statement.allEdges [] (statements s) else []

end Source

/-! ### Ids -/

/-- The id is the wanted one if no earlier edge has it, and otherwise the one with the least number
that no earlier edge has. -/
structure EdgeId.TellsApart (earlier : List Text) (wanted id : Text) : Prop where
  new : wanted ∉ earlier → id = wanted
  taken : wanted ∈ earlier → ∃ n, 1 ≤ n ∧ id = numbered wanted n ∧ numbered wanted n ∉ earlier ∧
    ∀ k, 1 ≤ k → k < n → numbered wanted k ∈ earlier

theorem EdgeId.tellsApart_distinct (earlier : List Text) (wanted : Text) :
    TellsApart earlier wanted (distinct wanted earlier) where
  new fresh := distinct_eq_self fresh
  taken old := by
    rw [distinct, if_pos old]
    exact firstFree_spec wanted earlier 1

namespace Said
variable {taken : List Text}

theorem ids_append (taken : List Text) (es fs : List Said) :
    ids taken (es ++ fs) = ids taken es ++ ids (taken ++ ids taken es) fs := by
  induction es generalizing taken with
  | nil => simp [ids]
  | cons e es ih => simp [ids, ih]

theorem nodup_ids (nodup : taken.Nodup) (es : List Said) : (taken ++ ids taken es).Nodup := by
  induction es generalizing taken with
  | nil => simpa [ids] using nodup
  | cons e es ih =>
    have new : EdgeId.distinct e.wanted taken ∉ taken := EdgeId.distinct_not_mem _ _
    have more : (taken ++ [EdgeId.distinct e.wanted taken]).Nodup := by
      rw [List.nodup_append]
      refine ⟨nodup, List.nodup_singleton _, ?_⟩
      rintro id old _ here rfl
      exact new (List.mem_singleton.mp here ▸ old)
    simpa [ids] using ih more

theorem tellsApart_ids {es : List Said} {i : Nat} {e : Said} {id : Text} (told : es[i]? = some e)
    (got : (ids taken es)[i]? = some id) :
    EdgeId.TellsApart (taken ++ (ids taken es).take i) e.wanted id := by
  induction es generalizing taken i with
  | nil => cases told
  | cons f es ih =>
    cases i with
    | zero =>
      obtain rfl := Option.some.inj told
      obtain rfl := Option.some.inj got
      rw [List.take_zero, List.append_nil]
      exact EdgeId.tellsApart_distinct taken f.wanted
    | succ i => simpa [ids] using ih told got

end Said

/-! ### Reading -/

theorem Said.Drawn.kept {e : Said} {f g : Edge} (h : e.Drawn f) (kept : f.Kept g) : e.Drawn g := by
  rw [kept]
  exact ⟨h.label, h.source, h.target, h.text, h.stroke, h.sourceTip, h.targetTip, h.length, h.named⟩

namespace Reading
variable {r r' : Reading} {es : List Said}

/-- The edges that have been read are those that have been told. -/
structure HasDrawn (r : Reading) (es : List Said) : Prop where
  drawn : List.Forall₂ Said.Drawn es r.diagram.edges
  ids : r.diagram.edges.map Edge.id = (Said.ids [] es).map .text

namespace HasDrawn

theorem edgeIds (h : r.HasDrawn es) : r.diagram.edgeIds = Said.ids [] es := by
  have all : r.diagram.edgeIds = (r.diagram.edges.map Edge.id).filterMap Value.text? := by
    rw [List.filterMap_map]
    rfl
  rw [all, h.ids, List.filterMap_map]
  exact List.filterMap_some

theorem nodup (h : r.HasDrawn es) : (Keyed.keys r.diagram.edges).Nodup := by
  have distinct : (Said.ids [] es).Nodup := Said.nodup_ids List.nodup_nil es
  have keys : Keyed.keys r.diagram.edges = (Said.ids [] es).map .text := h.ids
  rw [keys]
  exact distinct.map fun _ _ => Value.text.inj

theorem kept (h : r.HasDrawn es)
    (kept : List.Forall₂ Edge.Kept r.diagram.edges r'.diagram.edges) : r'.HasDrawn es where
  drawn := forall₂_trans h.drawn kept fun _ _ _ => Said.Drawn.kept
  ids := by
    have keys : r'.diagram.edges.map Edge.id = r.diagram.edges.map Edge.id := Edge.keys_kept kept
    rw [keys, h.ids]

theorem same (h : r.HasDrawn es) (same : r'.diagram.edges = r.diagram.edges) :
    r'.HasDrawn es := ⟨same ▸ h.drawn, same ▸ h.ids⟩

/-- An edge that is drawn comes last, and its id is new. -/
theorem draw (h : r.HasDrawn es) {link : Link} {op : Operator} {source target : Text}
    (read : r.draw link op source target = .ok r') :
    r'.HasDrawn (es ++ [⟨link, op, source, target⟩]) := by
  have ⟨text, label, _⟩ := bind_eq_ok.mp read
  obtain ⟨q, drawn, view⟩ := Edge.view_draw label r source target
  obtain rfl : q = r' := Except.ok.inj (drawn.symm.trans read)
  have told : Said.text ⟨link, op, source, target⟩ = text := by
    rw [Said.text, label]
    rfl
  have edges : q.diagram.edges = r.diagram.edges ++ _ := congrArg (·.edges) view
  constructor
  · rw [edges]
    apply List.rel_append h.drawn
    exact .cons ⟨told ▸ label, rfl, rfl, told ▸ rfl, rfl, rfl, rfl, rfl, rfl⟩ .nil
  · rw [edges, List.map_append, h.ids, Said.ids_append, List.map_append, h.edgeIds]
    simp only [Said.ids, Said.wanted, told]
    rfl

theorem draws (h : r.HasDrawn es) {link : Link} {op : Operator} {ps : List (Text × Text)}
    (read : ps.foldlM (fun r p => r.draw link op p.1 p.2) r = .ok r') :
    r'.HasDrawn (es ++ ps.map fun p => ⟨link, op, p.1, p.2⟩) := by
  induction ps generalizing r es with
  | nil =>
    obtain rfl := pure_eq_ok.mp read
    simpa using h
  | cons p ps ih =>
    rw [List.foldlM_cons] at read
    obtain ⟨q, first, rest⟩ := bind_eq_ok.mp read
    simpa using ih (h.draw first) rest

theorem drawLinks (h : r.HasDrawn es) {links : List Link} {group : List Text}
    {groups : List (List Text)} (read : r.drawLinks links (group :: groups) = .ok r') :
    r'.HasDrawn (es ++ (Chain.pairs group (links.zip groups)).filterMap Said.ofPair?) := by
  induction links generalizing r es group groups with
  | nil =>
    cases read
    simpa [Chain.pairs] using h
  | cons link links ih =>
    cases groups with
    | nil =>
      cases read
      simpa [Chain.pairs] using h
    | cons targets groups =>
      rw [Reading.drawLinks] at read
      rw [List.zip_cons_cons, Chain.pairs, List.filterMap_append, ← List.append_assoc,
        Chain.pairs_link, List.filterMap_map]
      cases found : Operator.read? link.symbols with
      | none =>
        rw [found] at read
        have noted : (r.note (.unknownOperator link.symbols)).HasDrawn es := h.same rfl
        have nothing : (Said.ofPair? ∘ fun p : Text × Text => (link, p.1, p.2)) =
            fun _ => none := by
          funext p
          simp [Said.ofPair?, found]
        rw [nothing, List.filterMap_none, List.append_nil]
        exact ih noted read
      | some op =>
        rw [found] at read
        obtain ⟨q, here, rest⟩ := bind_eq_ok.mp read
        have each : (Said.ofPair? ∘ fun p : Text × Text => (link, p.1, p.2)) =
            some ∘ fun p => ⟨link, op, p.1, p.2⟩ := by
          funext p
          simp [Said.ofPair?, found]
        rw [each, List.filterMap_eq_map]
        exact ih (h.draws here) rest

theorem readChain (h : r.HasDrawn es) {line : Text} (read : r.readChain line = .ok r') :
    r'.HasDrawn (es ++ (Chain.ofLine line).edges) := by
  obtain ⟨⟨groups, q⟩, met, read⟩ := bind_eq_ok.mp read
  obtain ⟨rfl, same⟩ := groups_of_meetTexts met
  rw [Chain.edges]
  cases found : groups? (Chain.ofLine line).texts with
  | none =>
    rw [found] at read
    cases read
    simpa using h.same same
  | some groups =>
    rw [found] at read
    cases groups with
    | nil =>
      have unchanged : q = r' := by
        simpa [Reading.drawLinks] using read
      simpa [← unchanged] using h.same same
    | cons group groups => exact (h.same same).drawLinks read

/-- A statement adds the edges that it tells. -/
theorem read (h : r.HasDrawn es) {s : Statement} (read : r.read s = .ok r') :
    r'.HasDrawn (es ++ s.edges (Said.ids [] es)) := by
  have other (unlinked : s.links = []) : r'.HasDrawn es := by
    apply h.kept
    exact (read_proceeds (by simp [unlinked]) read).edges h.nodup
  cases s with
  | chain line => exact h.readChain read
  | properties id body line =>
    have known : (Said.ids [] es).contains id ↔ (r.diagram.edge? (.text id)).isSome := by
      rw [List.contains_iff_mem, ← h.edgeIds, Diagram.mem_edgeIds, Diagram.edge?,
        Keyed.isSome_find?, Keyed.has_iff]
    rw [Statement.edges]
    rw [Reading.read] at read
    split at read
    · rename_i e there
      rw [if_pos (known.mpr (by simp [there])), List.append_nil]
      obtain ⟨f, made, rfl⟩ := map_eq_ok.mp read
      exact h.kept ((putEdge_proceeds there (.withProperties body made)).edges h.nodup)
    · rename_i nowhere
      rw [if_neg fun taken => by simpa [nowhere] using known.mp taken]
      exact h.readChain read
  | _ => simpa [Statement.edges] using other rfl

theorem readAll (h : r.HasDrawn es) {ss : List Statement}
    (read : ss.foldlM Reading.read r = .ok r') :
    r'.HasDrawn (es ++ Statement.allEdges (Said.ids [] es) ss) := by
  induction ss generalizing r es with
  | nil =>
    obtain rfl := pure_eq_ok.mp read
    simpa [Statement.allEdges] using h
  | cons s ss ih =>
    rw [List.foldlM_cons] at read
    obtain ⟨q, first, rest⟩ := bind_eq_ok.mp read
    have later := ih (h.read first) rest
    rw [Said.ids_append, List.nil_append] at later
    simpa [Statement.allEdges] using later

theorem settle (h : r.HasDrawn es) : HasDrawn { r with diagram := r.diagram.settle } es where
  drawn := by
    show List.Forall₂ _ es (r.diagram.edges.map Diagram.settleEdge)
    rw [List.forall₂_map_right_iff]
    apply h.drawn.imp
    intro e f drawn
    refine ⟨drawn.label, drawn.source, drawn.target, drawn.text, drawn.stroke, drawn.sourceTip,
      drawn.targetTip, drawn.length, ?_⟩
    rw [Diagram.settleEdge, drawn.named]
    rfl
  ids := by
    rw [← h.ids]
    exact List.map_map

end HasDrawn

/-- The edges that are read of a text are those that it tells. -/
theorem hasDrawn_ofText {strict : Bool} {s : Text} (read : ofText strict s = .ok r) :
    r.HasDrawn (Source.edges s) := by
  have none_yet {q : Reading} (no_edge : q.diagram.edges = []) : q.HasDrawn [] :=
    ⟨no_edge ▸ .nil, by rw [no_edge]; rfl⟩
  simp only [ofText] at read
  rw [Source.edges]
  split at read
  · rename_i drawing
    rw [if_pos drawing]
    obtain ⟨direction, begun⟩ := diagram_begin ((Source.meaningful s).map strip)
    obtain ⟨q, lines, read⟩ := bind_eq_ok.mp read
    have statements : (Source.statements s).foldlM Reading.read
        (begin ((Source.meaningful s).map strip)).1 = .ok q := by
      rw [Source.statements, List.foldlM_map]
      exact lines
    cases read
    exact ((none_yet (by rw [begun])).readAll statements).settle
  · rename_i other
    rw [if_neg other]
    split at read
    · cases read
    · cases read
      exact none_yet rfl

/-- What is read of a text has one edge for every edge that the text tells, in the same order. The
ids are all different: each is the author's or the hash of the content, told apart from the ids of
the earlier edges. -/
theorem edges_told_apart {strict : Bool} {s : Text} (read : ofText strict s = .ok r) :
    List.Forall₂ Said.Drawn (Source.edges s) r.diagram.edges ∧
    ∃ ids : List Text, r.diagram.edges.map Edge.id = ids.map .text ∧ ids.Nodup ∧
      ∀ (i : Nat) (e : Said) (id : Text), (Source.edges s)[i]? = some e → ids[i]? = some id →
        EdgeId.TellsApart (ids.take i) e.wanted id := by
  have whole := hasDrawn_ofText read
  have nodup := Said.nodup_ids List.nodup_nil (Source.edges s)
  refine ⟨whole.drawn, Said.ids [] (Source.edges s), whole.ids, nodup, ?_⟩
  intro i e id told got
  exact Said.tellsApart_ids told got

/-- A text whose authors give ids twice, and give ids that look numbered or generated. -/
def crowded : Text :=
  "graph LR\nA e@--> B\nA e-dup1@--> B & C\nB e@--> A\nA edge-763a13f8@--x C\nA --> B"

theorem crowded_told_apart : ∃ r, ofText true crowded = .ok r ∧
    (Source.edges crowded).map Said.wanted =
      ["e".toList, "e-dup1", "e-dup1", "e", "edge-763a13f8", "edge-763a13f8"] ∧
    r.diagram.edges.map Edge.id = [.text "e", .text "e-dup1", .text "e-dup1-dup1", .text "e-dup2",
      .text "edge-763a13f8", .text "edge-763a13f8-dup1"] ∧
    List.Forall₂ Said.Drawn (Source.edges crowded) r.diagram.edges ∧
    ∃ ids : List Text, r.diagram.edges.map Edge.id = ids.map .text ∧ ids.Nodup ∧
      ∀ (i : Nat) (e : Said) (id : Text), (Source.edges crowded)[i]? = some e → ids[i]? = some id →
        EdgeId.TellsApart (ids.take i) e.wanted id := by
  have ids : (ofText true crowded).map (fun r => r.diagram.edges.map Edge.id) =
      .ok [.text "e", .text "e-dup1", .text "e-dup1-dup1", .text "e-dup2", .text "edge-763a13f8",
        .text "edge-763a13f8-dup1"] := by decide +kernel
  obtain ⟨r, read, same⟩ := map_eq_ok.mp ids
  exact ⟨r, read, by decide +kernel, same, edges_told_apart read⟩

end Reading
end Flowchart
