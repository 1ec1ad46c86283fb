import Flowchart.Proofs.Propertied

/-! Edges. The line of an edge is read as the edge: its ends, its label and its operator come back,
and an id that stands in the line is taken by some edge, by this one unless it was taken before. -/
namespace Flowchart
open Text

namespace Edge

/-- The edge can be written on one line, and what it says can be read back. -/
structure Writable (e : Edge) : Prop where
  source : ∃ s, e.source = .text s ∧ NodeId s
  target : ∃ t, e.target = .text t ∧ NodeId t
  text : e.text = .null ∨ e.text.holds ∧ e.text.IsFed
  length : ∃ k : Int, e.length = .number (.int k) ∧ 1 ≤ k ∧
    Operator.repeats e.stroke e.targetTip k < roomLimit
  tips : e.stroke = .invisible → e.sourceTip = .none ∧ e.targetTip = .none
  id : Writing.needsId e → ∃ t, e.id = .text t ∧ Chain.Tag t

/-- The id as it stands in the line, if it does. -/
def tag? (e : Edge) : Option Text := if Writing.needsId e then e.id.text? else none

/-- The label as it stands in the line, if there is one. -/
def label? (e : Edge) : Option Text :=
  if e.text.holds then e.text.text?.map Quoted.label else none

variable {e : Edge}

theorem label?_cases (h : e.Writable) : e.text = .null ∧ e.label? = none ∨
    ∃ t, e.text = .text t ∧ t ≠ [] ∧ OnlyFeeds t ∧ e.label? = some (Quoted.label t) := by
  rcases h.text with none_here | ⟨holds, t, same, fed⟩
  · exact Or.inl ⟨none_here, by rw [label?, none_here]; rfl⟩
  · have some_text : t ≠ [] := by simpa [same] using holds
    refine Or.inr ⟨t, same, some_text, fed, ?_⟩
    rw [label?, if_pos holds, same]
    rfl

theorem no_pipe_label (h : e.Writable) : ∀ l, e.label? = some l → '|' ∉ l := by
  intro l hl
  rcases label?_cases h with ⟨_, none_here⟩ | ⟨t, _, _, _, label⟩
  · rw [none_here] at hl
    cases hl
  · obtain rfl : Quoted.label t = l := Option.some.inj (label.symm.trans hl)
    exact Quoted.not_mem_label (by decide) (by decide) t

theorem tag_of_tag? (h : e.Writable) : ∀ t, e.tag? = some t → e.id = .text t ∧ Chain.Tag t := by
  intro t ht
  rw [tag?] at ht
  split at ht
  · rename_i needs
    obtain ⟨t', same, tag⟩ := h.id needs
    rw [same] at ht
    obtain rfl : t' = t := Option.some.inj ht
    exact ⟨same, tag⟩
  · cases ht

/-- The line of an edge. -/
def line (source target : Text) (e : Edge) (k : Int) : Text :=
  source ++ ' ' :: (Chain.tagged e.tag? ++ (Operator.write e.stroke e.sourceTip e.targetTip k ++
    (Link.piped e.label? ++ ' ' :: target)))

variable {source target : Text} {k : Int}

theorem edge_eq (h : e.Writable) (hs : e.source = .text source) (ht : e.target = .text target)
    (hk : e.length = .number (.int k)) (some_length : 1 ≤ k)
    (room : Operator.repeats e.stroke e.targetTip k < roomLimit) :
    Writing.edge e = .ok (line source target e k) := by
  have length : max 1 k = k := by omega
  have operator : e.operator = .ok (Operator.write e.stroke e.sourceTip e.targetTip k) := by
    rw [operator, hk, Operator.lengthOfData, length]
    exact Operator.build_ok room
  have id : (if Writing.needsId e then e.id.shown ++ ['@'] else []) = Chain.tagged e.tag? := by
    cases needs : Writing.needsId e with
    | false => simp [tag?, needs, Chain.tagged]
    | true =>
      obtain ⟨t, same, _⟩ := h.id needs
      simp [tag?, needs, same, Value.text?, Chain.tagged]
  rw [Writing.edge, operator]
  simp only [id, hs, ht, bind, Except.bind, Value.shown_text]
  rcases label?_cases h with ⟨none_here, no_label⟩ | ⟨t, same, some_text, _, label⟩
  · simp [line, no_label, none_here, Value.holds, Link.piped, pure, Except.pure]
  · simp [line, label, some_text, same, Value.asText, Link.piped, pure, Except.pure, Except.map]

theorem inline_piped (h : e.Writable) : Inline (Link.piped e.label?) := by
  rcases label?_cases h with ⟨_, no_label⟩ | ⟨t, _, _, fed, label⟩
  · rw [no_label]
    exact .nil
  · rw [label]
    exact Quoted.inline_piped fed

theorem line_line (h : e.Writable) (hs : NodeId source) (ht : NodeId target) (k : Int) :
    Line (line source target e k) := by
  have tag := Chain.unbroken_tagged fun t ht => (tag_of_tag? h t ht).2
  have symbols := Chain.unbroken_write e.stroke e.sourceTip e.targetTip k
  have joined := hs.line.joined (.before tag (.before symbols (inline_piped h))) ht.line
  simpa [line] using joined

theorem ofLine_line (h : e.Writable) (hs : NodeId source) (ht : NodeId target) (k : Int) :
    Chain.ofLine (line source target e k) =
      ⟨source, [(⟨Operator.write e.stroke e.sourceTip e.targetTip k, e.label?, e.tag?⟩, target)]⟩ :=
  Chain.ofLine_edge hs.letters.whole ht.letters.whole h.tips k (no_pipe_label h)
    fun t tag => (tag_of_tag? h t tag).2

theorem linkLabel_eq (h : e.Writable) {op : Operator} (none_inside : op.label = none)
    (symbols : Text) (tag : Option Text) :
    ∃ text, Reading.linkLabel ⟨symbols, e.label?, tag⟩ op = .ok text ∧ .ofText? text = e.text := by
  rcases label?_cases h with ⟨none_here, no_label⟩ | ⟨t, same, some_text, fed, label⟩
  · refine ⟨none, ?_, none_here.symm⟩
    rw [Reading.linkLabel, no_label, none_inside]
    rfl
  · refine ⟨some t, ?_, same.symm⟩
    have not_empty : t.isEmpty = false := by simpa using some_text
    rw [Reading.linkLabel, label]
    simp only [Option.some_or, Quoted.unquote_label fed.no_return, bind, Except.bind, not_empty]
    rfl

/-- The edge as its line is read, under an id. -/
def redrawn (e : Edge) (id : Text) : Edge :=
  { id := .text id, source := e.source, target := e.target, text := e.text, stroke := e.stroke
    sourceTip := e.sourceTip, targetTip := e.targetTip, length := e.length
    named := .bool (Writing.needsId e) }

/-- The operator that the edge is drawn with, however long it is. -/
def symbols (e : Edge) : Text :=
  Operator.write e.stroke e.sourceTip e.targetTip ((Operator.lengthOfData e.length).toOption.getD 1)

/-- The id that is made for the edge of what it says. -/
def generated (e : Edge) : Text :=
  EdgeId.ofContent e.source.shown e.target.shown e.symbols e.text.text? e.stroke e.sourceTip
    e.targetTip

/-- The id that the line of the edge asks for: the one in the line, or a generated one. -/
def asked (e : Edge) : Text := if Writing.needsId e then e.id.shown else e.generated

theorem id_eq_asked (h : e.Writable) (needs : Writing.needsId e) : e.id = .text e.asked := by
  obtain ⟨t, same, _⟩ := h.id needs
  rw [asked, if_pos needs, same]
  rfl

theorem asked_eq_generated (not_needed : Writing.needsId e = false) : e.asked = e.generated := by
  rw [asked, not_needed]
  rfl

variable {r : Reading}

theorem view_putEdge_new {f : Edge} {id : Text} (hid : f.id = .text id)
    (fresh : id ∉ r.diagram.edgeIds) :
    (r.putEdge f).view = r.view.drew [f] := by
  have new : Keyed.key f ∉ Keyed.keys r.diagram.edges := by
    rw [Edge.key_eq, hid]
    exact fun here => fresh (Diagram.mem_edgeIds.mpr here)
  simp [Reading.view, View.drew, Reading.putEdge, Keyed.put_of_not_mem new]

theorem author_eq (h : e.Writable) : e.tag?.filter (fun id => !id.isEmpty) = e.tag? := by
  cases tag : e.tag? with
  | none => rfl
  | some t =>
    have some_text : (!t.isEmpty) = true := by simpa using (tag_of_tag? h t tag).2.1
    rw [Option.filter_some, if_pos some_text]

theorem isSome_tag? (h : e.Writable) : e.tag?.isSome = Writing.needsId e := by
  cases needs : Writing.needsId e with
  | true =>
    obtain ⟨t, same, _⟩ := h.id needs
    rw [tag?, if_pos needs, same]
    rfl
  | false =>
    rw [tag?, needs]
    rfl

theorem tag?_getD (h : e.Writable) : e.tag?.getD e.generated = e.asked := by
  cases needs : Writing.needsId e with
  | true =>
    obtain ⟨t, same, _⟩ := h.id needs
    rw [tag?, asked, if_pos needs, if_pos needs, same]
    rfl
  | false => simp [tag?, asked, needs]

/-- The id that a link asks for. -/
def wanted (link : Link) (op : Operator) (source target : Text) (text : Option Text) : Text :=
  (link.id.filter fun id => !id.isEmpty).getD
    (EdgeId.ofContent source target op.symbols text op.stroke op.source op.target)

theorem view_draw {link : Link} {op : Operator} {text : Option Text}
    (label : Reading.linkLabel link op = .ok text) (r : Reading) (source target : Text) :
    ∃ r', r.draw link op source target = .ok r' ∧ r'.view = r.view.drew [{
      id := .text (EdgeId.distinct (wanted link op source target text) r.diagram.edgeIds)
      source := .text source, target := .text target, text := .ofText? text, stroke := op.stroke
      sourceTip := op.source, targetTip := op.target, length := .number (.int op.length)
      named := .bool (link.id.filter fun id => !id.isEmpty).isSome }] := by
  have fresh := EdgeId.distinct_not_mem (wanted link op source target text) r.diagram.edgeIds
  rw [Reading.draw, label]
  refine ⟨_, rfl, ?_⟩
  split
  · exact view_putEdge_new rfl fresh
  · exact view_putEdge_new (r := r.note _) rfl fresh

/-- What is drawn for the line of an edge is the edge, but for its id. -/
theorem draw_eq (h : e.Writable) (hs : e.source = .text source) (ht : e.target = .text target)
    (hk : e.length = .number (.int k)) (some_length : 1 ≤ k) {op : Operator}
    (hop : op = ⟨Operator.write e.stroke e.sourceTip e.targetTip k, e.stroke, e.sourceTip,
      e.targetTip, none, (max 1 k).toNat⟩) :
    ∀ r : Reading, ∃ r', r.draw ⟨op.symbols, e.label?, e.tag?⟩ op source target = .ok r' ∧
      r'.view = r.view.drew [e.redrawn (EdgeId.distinct e.asked r.diagram.edgeIds)] := by
  have none_inside : op.label = none := by rw [hop]
  obtain ⟨text, label, htext⟩ := linkLabel_eq h none_inside op.symbols e.tag?
  have symbols : e.symbols = op.symbols := by
    have length : max 1 k = k := by omega
    rw [Edge.symbols, hk, hop, Operator.lengthOfData, length]
    rfl
  have content : EdgeId.ofContent source target op.symbols text op.stroke op.source op.target =
      e.generated := by
    have told : e.text.text? = text := by
      rw [← htext]
      cases text <;> rfl
    rw [generated, hs, ht, symbols, told, hop]
    rfl
  have asks : wanted ⟨op.symbols, e.label?, e.tag?⟩ op source target text = e.asked := by
    rw [wanted, author_eq h, content]
    exact tag?_getD h
  intro r
  obtain ⟨r', drawn, view⟩ := view_draw label r source target
  refine ⟨r', drawn, ?_⟩
  have length : (((max 1 k).toNat : Nat) : Int) = k := by omega
  rw [view, asks, author_eq h, isSome_tag? h, redrawn, hs, ht, hk, ← htext, hop]
  simp only [length]

/-- An edge between nodes that are there is read from its line. -/
theorem read_edge (h : e.Writable) : ∃ line, Writing.edge e = .ok line ∧ Line line ∧
    ∀ {r : Reading}, r.diagram.hasNode e.source → r.diagram.hasNode e.target →
      r.opened = [] → ∃ r', r.read (.ofLine line) = .ok r' ∧
        r'.view = r.view.drew [e.redrawn (EdgeId.distinct e.asked r.diagram.edgeIds)] := by
  obtain ⟨source, hsource, name⟩ := h.source
  obtain ⟨target, htarget, name'⟩ := h.target
  obtain ⟨k, hk, some_length, room⟩ := h.length
  refine ⟨_, edge_eq h hsource htarget hk some_length room, line_line h name name' k, ?_⟩
  intro r there there' opened
  obtain ⟨r', drawn, view⟩ := draw_eq h hsource htarget hk some_length rfl r
  refine ⟨r', ?_, view⟩
  have meets {id : Text} (name : NodeId id) (there : r.diagram.hasNode (.text id)) :
      r.meetNode id = .ok (some id, r) := by
    obtain ⟨n, found⟩ : ∃ n, r.diagram.node? (.text id) = some n :=
      Option.isSome_iff_exists.mp (Keyed.isSome_find?.trans there)
    rw [name.meetNode, Reading.meet_there found opened]
  rw [line, name.read_append, ← line, ← drawn]
  exact Reading.readChain_edge name.single name'.single (ofLine_line h name name' k)
    (meets name (hsource ▸ there)) (meets name' (htarget ▸ there')) (Operator.read?_write h.tips k)

end Edge
end Flowchart
