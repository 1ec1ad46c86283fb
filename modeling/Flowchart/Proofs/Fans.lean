import Flowchart.Proofs.Chaining
import Flowchart.Proofs.Splitting
import Flowchart.Proofs.Styling

/-! Chains and fans. A line with several links between groups of nodes says no more than the lines
of its edges say one after another: the same edges in the same order, with the same ids, and the
same nodes. -/
namespace Flowchart
open Text Chain

/-! ### Links that are written -/

/-- The link can be written: its operator can be built, its label is one that is written for a text,
and its id is a word. -/
structure Link.Written (link : Link) : Prop where
  symbols : ∃ stroke source target length,
    Operator.build stroke source target length = .ok link.symbols
  label : ∀ l, link.label = some l →
    ∃ t, t ≠ [] ∧ (∀ c ∈ t, isLineBreak c = false) ∧ l = Quoted.label t
  id : ∀ i, link.id = some i → HyphenatedWord i

namespace Link.Written
variable {link : Link}

theorem exists_tips (h : link.Written) : ∃ stroke a b length,
    (stroke = .invisible → a = .none ∧ b = .none) ∧
      link.symbols = Operator.write stroke a b length := by
  obtain ⟨stroke, source, target, length, built⟩ := h.symbols
  obtain ⟨a, b, tips, same⟩ := Operator.exists_tips stroke source target length
  exact ⟨stroke, a, b, length, tips, (Operator.eq_write_of_build built).trans same⟩

theorem found (h : link.Written) : link.Found := by
  obtain ⟨stroke, a, b, length, tips, same⟩ := h.exists_tips
  have no_pipe : ∀ l, link.label = some l → '|' ∉ l := by
    intro l labelled
    obtain ⟨t, _, _, rfl⟩ := h.label l labelled
    exact Quoted.not_mem_label (by decide) (by decide) t
  have found := Link.found_write tips length no_pipe fun i tag => (h.id i tag).tag
  rwa [← same] at found

theorem read? (h : link.Written) :
    ∃ op, Operator.read? link.symbols = some op ∧ op.label = none := by
  obtain ⟨stroke, a, b, length, tips, same⟩ := h.exists_tips
  rw [same]
  exact ⟨_, Operator.read?_write tips length, rfl⟩

theorem isSome_read? (h : link.Written) : (Operator.read? link.symbols).isSome := by
  obtain ⟨op, read, _⟩ := h.read?
  rw [read]
  rfl

theorem inline (h : link.Written) : Inline link.spelled := by
  obtain ⟨stroke, a, b, length, _, same⟩ := h.exists_tips
  have label : Inline (piped link.label) := by
    cases labelled : link.label with
    | none => exact .nil
    | some l =>
      obtain ⟨t, _, unbroken, rfl⟩ := h.label l labelled
      exact Quoted.inline_piped (onlyFeeds_of_unbroken unbroken)
  have symbols : ∀ c ∈ link.symbols, isLineBreak c = false ∧ c ≠ '%' := by
    rw [same]
    exact unbroken_write stroke a b length
  exact .before (unbroken_tagged fun i tag => (h.id i tag).tag) (.before symbols label)

theorem linkLabel (h : link.Written) {op : Operator} (none_inside : op.label = none) :
    ∃ text, Reading.linkLabel link op = .ok text := by
  cases labelled : link.label with
  | none =>
    rw [Reading.linkLabel, labelled, none_inside]
    exact ⟨none, rfl⟩
  | some l =>
    obtain ⟨t, some_text, unbroken, rfl⟩ := h.label l labelled
    have no_return := (onlyFeeds_of_unbroken unbroken).no_return
    rw [Reading.linkLabel, labelled]
    simp only [Option.some_or, Quoted.unquote_label no_return, bind, Except.bind]
    exact ⟨_, rfl⟩

end Link.Written

/-! ### The nodes and the edges of a line -/

/-- Readings with the same edges draw the same edge. -/
theorem Reading.drawLink_alike {link : Link} (h : link.Written) {r q : Reading}
    (same : r.diagram.edges = q.diagram.edges) (source target : Text) : ∃ r' q' e,
      r.drawLink link source target = .ok r' ∧ q.drawLink link source target = .ok q' ∧
      r'.view = r.view.drew [e] ∧ q'.view = q.view.drew [e] ∧
      e.source = .text source ∧ e.target = .text target := by
  obtain ⟨op, read, none_inside⟩ := h.read?
  obtain ⟨text, label⟩ := h.linkLabel none_inside
  obtain ⟨r', drawn, view⟩ := Edge.view_draw label r source target
  obtain ⟨q', drawn', view'⟩ := Edge.view_draw label q source target
  have taken : q.diagram.edgeIds = r.diagram.edgeIds := by
    rw [Diagram.edgeIds, Diagram.edgeIds, same]
  rw [taken] at view'
  refine ⟨r', q', _, ?_, ?_, view, view', rfl, rfl⟩
  · rw [drawLink, read]
    exact drawn
  · rw [drawLink, read]
    exact drawn'

/-- Drawing edges one after another comes to the same edges as reading their lines. -/
theorem Reading.draws_alike {ps : List (Link × Text × Text)}
    (h : ∀ p ∈ ps, p.1.Written ∧ NodeId p.2.1 ∧ NodeId p.2.2) {r q : Reading}
    (same : r.diagram.edges = q.diagram.edges) : ∃ r' q' es,
      ps.foldlM (fun r p => r.drawLink p.1 p.2.1 p.2.2) r = .ok r' ∧
      q.readAll (ps.map fun p => p.1.between p.2.1 p.2.2) = .ok q' ∧
      r'.view = r.view.drew es ∧ q'.diagram.edges = q.diagram.edges ++ es ∧
      es.map (fun e => (e.source, e.target)) = ps.map (fun p => (.text p.2.1, .text p.2.2)) ∧
      ∀ id, q'.diagram.hasNode id ↔
        q.diagram.hasNode id ∨ ∃ p ∈ ps, id = .text p.2.1 ∨ id = .text p.2.2 := by
  induction ps generalizing r q with
  | nil => exact ⟨r, q, [], rfl, rfl, by simp [View.drew], by simp, rfl, by simp⟩
  | cons p ps ih =>
    obtain ⟨link, source, target⟩ := p
    obtain ⟨written, hs, ht⟩ := h _ List.mem_cons_self
    have meets := meetAll_meets q [source, target]
    obtain ⟨r₁, q₁, e, drawn, drawn', view, view', from_source, to_target⟩ :=
      drawLink_alike written (same.trans meets.edges.symm) source target
    have edges : r₁.diagram.edges = r.diagram.edges ++ [e] := congrArg (·.edges) view
    have edges' : q₁.diagram.edges = q.diagram.edges ++ [e] := by
      have drawn_after : q₁.diagram.edges = (q.meetAll [source, target]).diagram.edges ++ [e] :=
        congrArg (·.edges) view'
      rw [drawn_after, meets.edges]
    have nodes' : q₁.diagram.nodes = (q.meetAll [source, target]).diagram.nodes :=
      congrArg (·.nodes) view'
    obtain ⟨r', q', es, draws, reads, view₁, edges₁, ends, nodes₁⟩ :=
      ih (fun p hp => h p (List.mem_cons_of_mem _ hp)) (r := r₁) (q := q₁)
        (by rw [edges, edges', same])
    refine ⟨r', q', e :: es, ?_, ?_, ?_, ?_, ?_, fun id => ?_⟩
    · rw [List.foldlM_cons, drawn]
      exact draws
    · rw [List.map_cons, readAll, List.foldlM_cons,
        read_between written.found written.isSome_read? hs ht, drawn']
      exact reads
    · rw [view₁, view]
      simp [View.drew]
    · rw [edges₁, edges', List.append_assoc, List.singleton_append]
    · simp [from_source, to_target, ends]
    · have met : q₁.diagram.hasNode id ↔
          q.diagram.hasNode id ∨ id = .text source ∨ id = .text target := by
        have met := hasNode_meetAll q [source, target] id
        rw [Diagram.hasNode, ← nodes'] at met
        rw [Diagram.hasNode, met, or_comm]
        simp
      rw [nodes₁, met, or_assoc]
      simp only [List.exists_mem_cons_iff]

/-- The id is one of the ends of what a chain draws. -/
def Chain.Touched (ps : List (Link × Text × Text)) (id : Text) : Prop :=
  ∃ p ∈ ps, id = p.2.1 ∨ id = p.2.2

namespace Chain
variable {group : List Text} {rest : List (Link × List Text)} {id : Text}

theorem mem_of_touched (touched : Touched (pairs group rest) id) :
    id ∈ (group :: rest.map (·.2)).flatten := by
  induction rest generalizing group with
  | nil =>
    obtain ⟨p, hp, _⟩ := touched
    cases hp
  | cons p rest ih =>
    obtain ⟨link, next⟩ := p
    obtain ⟨_, hp, ends⟩ := touched
    rcases List.mem_append.mp hp with here | later
    · obtain ⟨s, hs, here⟩ := List.mem_flatMap.mp here
      obtain ⟨t, ht, rfl⟩ := List.mem_map.mp here
      rcases ends with rfl | rfl
      · simp [hs]
      · simp [ht]
    · exact List.mem_append_right group (ih ⟨_, later, ends⟩)

theorem touched_of_next (some_id : ∀ g ∈ group :: rest.map (·.2), g ≠ [])
    (later : id ∈ (rest.map (·.2)).flatten) : Touched (pairs group rest) id := by
  induction rest generalizing group with
  | nil => cases later
  | cons p rest ih =>
    obtain ⟨link, next⟩ := p
    obtain ⟨s, hs⟩ := List.exists_mem_of_ne_nil group (some_id group List.mem_cons_self)
    rcases List.mem_append.mp later with here | later
    · refine ⟨(link, s, id), List.mem_append_left _ ?_, Or.inr rfl⟩
      exact List.mem_flatMap.mpr ⟨s, hs, List.mem_map_of_mem here⟩
    · obtain ⟨p, hp, ends⟩ := ih (fun g hg => some_id g (List.mem_cons_of_mem _ hg)) later
      exact ⟨p, List.mem_append_right _ hp, ends⟩

/-- Every node of a line with a link is at an end of one of its edges. -/
theorem touched_iff (some_link : rest ≠ []) (some_id : ∀ g ∈ group :: rest.map (·.2), g ≠ []) :
    Touched (pairs group rest) id ↔ id ∈ (group :: rest.map (·.2)).flatten := by
  refine ⟨mem_of_touched, fun there => ?_⟩
  rcases List.mem_append.mp there with here | later
  · obtain ⟨⟨link, next⟩, rest, rfl⟩ := List.exists_cons_of_ne_nil some_link
    obtain ⟨t, ht⟩ := List.exists_mem_of_ne_nil next (some_id next (by simp))
    refine ⟨(link, id, t), List.mem_append_left _ ?_, Or.inl rfl⟩
    exact List.mem_flatMap.mpr ⟨id, here, List.mem_map_of_mem ht⟩
  · exact touched_of_next some_id later

theorem forall_pairs {P : Link × Text × Text → Prop}
    (h : ∀ p ∈ rest, ∀ s t : Text,
      s ∈ (group :: rest.map (·.2)).flatten → t ∈ p.2 → P (p.1, s, t)) :
    ∀ p ∈ pairs group rest, P p := by
  induction rest generalizing group with
  | nil => simp [pairs]
  | cons p rest ih =>
    intro q hq
    rcases List.mem_append.mp hq with here | later
    · obtain ⟨s, hs, here⟩ := List.mem_flatMap.mp here
      obtain ⟨t, ht, rfl⟩ := List.mem_map.mp here
      exact h p List.mem_cons_self s t (by simp [hs]) ht
    · refine ih (fun p hp s t hs ht => ?_) q later
      exact h p (List.mem_cons_of_mem _ hp) s t (List.mem_append_right group hs) ht

end Chain

/-! ### Lines of groups -/

section
variable {group : List Text} {rest : List (Link × List Text)}

theorem Chain.exists_line (id : Text) (ids : List Text) (some_link : rest ≠ []) :
    ∃ s, (ofGroups (id :: ids) rest).line = id ++ ' ' :: s := by
  obtain ⟨⟨link, next⟩, rest, rfl⟩ := List.exists_cons_of_ne_nil some_link
  cases ids with
  | nil =>
    rw [ofGroups, Chain.line, List.map_cons, join_singleton]
    exact ⟨_, rfl⟩
  | cons i ids =>
    rw [ofGroups, Chain.line, List.map_cons, join_cons_cons, lineFrom, List.append_assoc,
      List.cons_append]
    exact ⟨_, rfl⟩

theorem Reading.read_groups (some_link : rest ≠ []) (ids : ∀ g ∈ group :: rest.map (·.2), Ids g)
    (written : ∀ p ∈ rest, p.1.Written) (r : Reading) :
    r.read (.ofLine (ofGroups group rest).line) =
      (pairs group rest).foldlM (fun r p => r.drawLink p.1 p.2.1 p.2.2)
        (r.meetAll (group :: rest.map (·.2)).flatten) := by
  have head := ids group List.mem_cons_self
  have tail : ∀ p ∈ rest, Ids p.2 := fun p hp =>
    ids p.2 (List.mem_cons_of_mem _ (List.mem_map_of_mem hp))
  have whole := ofLine_ofGroups head fun p hp => ⟨(written p hp).found, tail p hp⟩
  have chain := readChain_groups whole head (r := r) fun p hp =>
    ⟨(written p hp).isSome_read?, tail p hp⟩
  obtain ⟨id, more, rfl⟩ := List.exists_cons_of_ne_nil head.1
  obtain ⟨s, line⟩ := exists_line id more some_link
  rw [← chain, line]
  exact (head.2 id List.mem_cons_self).read_append r s

/-- A line of groups comes to the same edges as the lines of its edges, and to the same nodes. -/
theorem Reading.groups_alike (some_link : rest ≠ [])
    (ids : ∀ g ∈ group :: rest.map (·.2), Ids g) (written : ∀ p ∈ rest, p.1.Written)
    (r : Reading) : ∃ r' q es, r.read (.ofLine (ofGroups group rest).line) = .ok r' ∧
      r.readAll ((pairs group rest).map fun p => p.1.between p.2.1 p.2.2) = .ok q ∧
      r'.diagram.edges = r.diagram.edges ++ es ∧ q.diagram.edges = r.diagram.edges ++ es ∧
      es.map (fun e => (e.source, e.target)) =
        (pairs group rest).map (fun p => (.text p.2.1, .text p.2.2)) ∧
      ∀ id, r'.diagram.hasNode id ↔ q.diagram.hasNode id := by
  have meets := meetAll_meets r (group :: rest.map (·.2)).flatten
  have drawable : ∀ p ∈ pairs group rest, p.1.Written ∧ NodeId p.2.1 ∧ NodeId p.2.2 := by
    refine forall_pairs fun p hp s t hs ht => ⟨written p hp, ?_, ?_⟩
    · obtain ⟨g, hg, hs⟩ := List.mem_flatten.mp hs
      exact (ids g hg).2 s hs
    · exact (ids p.2 (List.mem_cons_of_mem _ (List.mem_map_of_mem hp))).2 t ht
  obtain ⟨r', q, es, draws, reads, view, edges, ends, nodes⟩ := draws_alike drawable meets.edges
  refine ⟨r', q, es, ?_, reads, ?_, edges, ends, fun id => ?_⟩
  · rw [read_groups some_link ids written]
    exact draws
  · rw [← meets.edges]
    exact congrArg (·.edges) view
  · have same : r'.diagram.nodes = (r.meetAll (group :: rest.map (·.2)).flatten).diagram.nodes :=
      congrArg (·.nodes) view
    have all (i : Text) : Touched (pairs group rest) i ↔ i ∈ (group :: rest.map (·.2)).flatten :=
      touched_iff some_link fun g hg => (ids g hg).1
    have met := hasNode_meetAll r (group :: rest.map (·.2)).flatten id
    rw [Diagram.hasNode, ← same] at met
    rw [nodes, Diagram.hasNode, met, or_comm, List.mem_map]
    refine or_congr_right ⟨?_, ?_⟩
    · rintro ⟨i, hi, rfl⟩
      obtain ⟨p, hp, ends⟩ := (all i).mpr hi
      exact ⟨p, hp, ends.imp (congrArg _) (congrArg _)⟩
    · rintro ⟨p, hp, rfl | rfl⟩
      · exact ⟨_, (all _).mp ⟨p, hp, Or.inl rfl⟩, rfl⟩
      · exact ⟨_, (all _).mp ⟨p, hp, Or.inr rfl⟩, rfl⟩

/-- A chain of groups says what the lines of its edges say one after another: whatever was read
before, and as the body of a text, it comes to the same edges with the same ids, an edge for each
link from every node before it to every node after it, and to the same nodes. -/
theorem chain_says_its_edges (some_link : rest ≠ [])
    (plain : ∀ g ∈ group :: rest.map (·.2), g ≠ [] ∧ ∀ id ∈ g, PlainId id)
    (written : ∀ p ∈ rest, p.1.Written) :
    (∀ r : Reading, ∃ r' q es, r.read (.ofLine (ofGroups group rest).line) = .ok r' ∧
      r.readAll ((pairs group rest).map fun p => p.1.between p.2.1 p.2.2) = .ok q ∧
      r'.diagram.edges = r.diagram.edges ++ es ∧ q.diagram.edges = r.diagram.edges ++ es ∧
      es.map (fun e => (e.source, e.target)) =
        (pairs group rest).map (fun p => (.text p.2.1, .text p.2.2)) ∧
      ∀ id, r'.diagram.hasNode id ↔ q.diagram.hasNode id) ∧
    ∀ (direction : Direction) (margin : Text), Indent margin → ∀ strict, ∃ r' q,
      Reading.ofText strict
        (assemble [([], heading direction), (margin, (ofGroups group rest).line)]) = .ok r' ∧
      Reading.ofText strict (assemble (([], heading direction) ::
        (pairs group rest).map fun p => (margin, p.1.between p.2.1 p.2.2))) = .ok q ∧
      r'.diagram.edges = q.diagram.edges ∧ ∀ id, r'.diagram.hasNode id ↔ q.diagram.hasNode id := by
  have ids : ∀ g ∈ group :: rest.map (·.2), Ids g := fun g hg =>
    ⟨(plain g hg).1, fun id hid => ((plain g hg).2 id hid).nodeId⟩
  have tail : ∀ p ∈ rest, Ids p.2 := fun p hp =>
    ids p.2 (List.mem_cons_of_mem _ (List.mem_map_of_mem hp))
  have alike := Reading.groups_alike some_link ids written
  refine ⟨alike, fun direction margin indent strict => ?_⟩
  have chain : Assembled [(margin, (ofGroups group rest).line)] := by
    have line : Line (ofGroups group rest).line := by
      refine Line.chain (ids group List.mem_cons_self).line fun p hp => ?_
      obtain ⟨q, hq, rfl⟩ := List.mem_map.mp hp
      exact ⟨(written q hq).inline, (tail q hq).line⟩
    simpa [Assembled] using ⟨indent, line⟩
  have lines : Assembled ((pairs group rest).map fun p => (margin, p.1.between p.2.1 p.2.2)) := by
    intro l hl
    obtain ⟨p, hp, rfl⟩ := List.mem_map.mp hl
    refine ⟨indent, ?_⟩
    refine forall_pairs (P := fun p => Line (p.1.between p.2.1 p.2.2)) ?_ p hp
    intro p hp s t hs ht
    obtain ⟨g, hg, hs⟩ := List.mem_flatten.mp hs
    exact ((ids g hg).2 s hs).line.joined (written p hp).inline ((tail p hp).2 t ht).line
  obtain ⟨r', q, es, read, reads, edges, edges', _, nodes⟩ :=
    alike { diagram.direction := direction }
  have one : Reading.readAll { diagram.direction := direction } [(ofGroups group rest).line] =
      .ok r' := by
    rw [Reading.readAll, List.foldlM_cons, read]
    rfl
  have all : Reading.readAll { diagram.direction := direction }
      (((pairs group rest).map fun p => (margin, p.1.between p.2.1 p.2.2)).map (·.2)) = .ok q := by
    rwa [List.map_map]
  refine ⟨_, _, ofText_of_readAll chain one strict, ofText_of_readAll lines all strict, ?_, ?_⟩
  · exact congrArg (List.map Diagram.settleEdge) (edges.trans edges'.symm)
  · intro id
    rw [Diagram.hasNode_settle, Diagram.hasNode_settle]
    exact nodes id

theorem crossing_says_its_edges : ∃ r' q,
    Reading.ofText true
      "flowchart LR\n  A & A --> x & o e-1@<==o|yes #124; no| B & A\n" = .ok r' ∧
    Reading.ofText true ("flowchart LR\n  A --> x\n  A --> o\n  A --> x\n  A --> o\n" ++
      "  x e-1@<==o|yes #124; no| B\n  x e-1@<==o|yes #124; no| A\n" ++
      "  o e-1@<==o|yes #124; no| B\n  o e-1@<==o|yes #124; no| A\n") = .ok q ∧
    r'.diagram.edges = q.diagram.edges ∧ ∀ id, r'.diagram.hasNode id ↔ q.diagram.hasNode id := by
  have plain : ∀ g ∈ [["A".toList, "A"], ["x", "o"], ["B", "A"]],
      g ≠ [] ∧ ∀ id ∈ g, PlainId id := by
    have all : ∀ g ∈ [["A".toList, "A"], ["x", "o"], ["B", "A"]], g ≠ [] ∧ ∀ id ∈ g,
        id ≠ [] ∧ (∀ c ∈ id, isPlainChar c = true) ∧ id ∉ Statement.keywords := by decide
    exact fun g hg => ⟨(all g hg).1, fun id hid =>
      ⟨((all g hg).2 id hid).1, ((all g hg).2 id hid).2.1, ((all g hg).2 id hid).2.2⟩⟩
  have arrow : Link.Written ⟨"-->", none, none⟩ :=
    ⟨⟨.normal, .none, .arrow, 1, by decide⟩, by simp, by simp⟩
  have labelled : Link.Written ⟨"<==o", some "yes #124; no", some "e-1"⟩ := by
    refine ⟨⟨.thick, .arrow, .circle, 1, by decide⟩, fun l label => ?_, fun i id => ?_⟩
    · obtain rfl := Option.some.inj label
      exact ⟨"yes | no", by decide, by decide, by decide⟩
    · obtain rfl := Option.some.inj id
      exact ⟨by decide, by decide⟩
  have same := (@chain_says_its_edges ["A", "A"] [(⟨"-->", none, none⟩, ["x", "o"]),
      (⟨"<==o", some "yes #124; no", some "e-1"⟩, ["B", "A"])]
    (by simp) plain (by simpa using ⟨arrow, labelled⟩)).2 .lr "  " (by decide) true
  exact same

end
end Flowchart
