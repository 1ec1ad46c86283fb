import Flowchart.Proofs.Assembling
import Flowchart.Proofs.EditorIntegrity
import Flowchart.Proofs.Lowercase
import Flowchart.Proofs.Traits

/-! Diagrams that are made by commands, written and read again. What a diagram says with nodes,
edges and subgraphs alone comes back from its text, whatever their texts are, if the ids of nodes
are plain words and the diagram is integral. -/
namespace Flowchart
open Text

/-- Is the character an ASCII letter, a digit or an underscore? -/
def isPlainChar (c : Char) : Bool :=
  ('a' ≤ c && c ≤ 'z') || ('A' ≤ c && c ≤ 'Z') || ('0' ≤ c && c ≤ '9') || c == '_'

theorem toNat_of_isPlainChar {c : Char} (h : isPlainChar c = true) : c.toNat < 128 := by
  simp only [isPlainChar, Bool.or_eq_true, Bool.and_eq_true, decide_eq_true_eq, beq_iff_eq] at h
  rcases h with ((⟨_, h⟩ | ⟨_, h⟩) | ⟨_, h⟩) | rfl
  · exact Nat.lt_of_le_of_lt h (by decide)
  · exact Nat.lt_of_le_of_lt h (by decide)
  · exact Nat.lt_of_le_of_lt h (by decide)
  · decide

theorem of_isPlainChar {p : Char → Bool}
    (h : ∀ n < 128, isPlainChar (Char.ofNat n) = true → p (Char.ofNat n) = true) {c : Char}
    (plain : isPlainChar c = true) : p c = true := by
  have here := h c.toNat (toNat_of_isPlainChar plain)
  rw [Char.ofNat_toNat] at here
  exact here plain

theorem isIdChar_of_isPlainChar {c : Char} (h : isPlainChar c = true) : isIdChar c = true :=
  of_isPlainChar (by decide) h

theorem isWordOrHyphen_of_isPlainChar {c : Char} (h : isPlainChar c = true) :
    isWordOrHyphen c = true :=
  of_isPlainChar (by decide +kernel) h

theorem isStroke_of_isPlainChar {c : Char} (h : isPlainChar c = true) :
    Link.isStroke c = false := by
  have apart := of_isPlainChar (p := fun c => !Link.isStroke c) (by decide) h
  simpa using apart

theorem not_mark_of_isPlainChar {c : Char} (h : isPlainChar c = true) :
    c ∉ (":;%#,\"'\x60[]()\x7b\x7d" : String).toList := by
  have apart := of_isPlainChar
    (p := fun c => c ∉ (":;%#,\"'\x60[]()\x7b\x7d" : String).toList) (by decide) h
  simpa using apart

theorem letters_of_isPlainChar {s : Text} (h : ∀ c ∈ s, isPlainChar c = true) :
    Chain.Letters s where
  chars c hc := isIdChar_of_isPlainChar (h c hc)
  calm := Link.calm_of_no_stroke fun c hc => isStroke_of_isPlainChar (h c hc)

/-- A plain word that begins no statement. -/
structure PlainId (id : Text) : Prop where
  some_text : id ≠ []
  chars : ∀ c ∈ id, isPlainChar c = true
  free : id ∉ Statement.keywords

theorem Reading.classSuffix?_of_not_mem {s : Text} (h : ':' ∉ s) : classSuffix? s = none := by
  have other : ∀ c ∈ s.reverse, (c != ':') = true := by
    intro c hc
    rw [bne_iff_ne]
    rintro rfl
    exact h (List.mem_reverse.mp hc)
  have whole : (s.reverse.takeWhile (· != ':')).reverse = s := by
    have taken := takeWhile_stop other (stops_nil _)
    rw [List.append_nil] at taken
    rw [taken, List.reverse_reverse]
  have nothing : before? ":::".toList ([] : Text) = none := by decide
  rw [classSuffix?]
  simp only [whole, Nat.sub_self, List.take_zero, nothing]
  rfl

theorem PlainId.nodeId {id : Text} (h : PlainId id) : NodeId id := by
  have no_mark : ∀ c ∈ [':', '%', ';'], c ∉ id := by
    intro c mark here
    have marks : ∀ d ∈ [':', '%', ';'], d ∈ (":;%#,\"'\x60[]()\x7b\x7d" : String).toList := by
      decide
    exact not_mark_of_isPlainChar (h.chars c here) (marks c mark)
  have letters := letters_of_isPlainChar h.chars
  refine ⟨⟨h.some_text, letters.chars, letters.calm⟩, ?_, ?_, ?_, h.free⟩
  · exact not_infix_of_not_mem (c := '%') (by decide) (no_mark '%' (by decide))
  · exact Reading.classSuffix?_of_not_mem (no_mark ':' (by decide))
  · exact fun last => no_mark ';' (by decide) (List.mem_of_getLast? last)

/-! ### Clean diagrams -/

/-- The node says nothing but its text, its shape and its place. -/
structure Node.Clean (n : Node) : Prop where
  id : ∃ t, n.id = .text t ∧ PlainId t
  text : n.text.IsFed
  shape : n.shape ∈ Shape.known
  style : n.style = none
  classes : n.classes = []
  further : ∀ v ∈ [n.link, n.tooltip, n.icon, n.image, n.form, n.labelPosition, n.width, n.height],
    v = .null

/-- The edge says nothing but its ends, its text and its operator. -/
structure Edge.Clean (e : Edge) : Prop where
  text : e.text = .null ∨ ∃ t, e.text = .text t ∧ t ≠ [] ∧ OnlyFeeds t
  length : ∃ k : Int, e.length = .number (.int k) ∧ 1 ≤ k
  tips : e.stroke = .invisible → e.sourceTip = .none ∧ e.targetTip = .none
  id : e.named.holds → ∃ t, e.id = .text t ∧ (∀ c ∈ t, isPlainChar c = true ∨ c = '-') ∧
    ¬ EdgeId.generatedMark <+: t
  style : e.style = none
  classes : e.classes = []
  animate : e.animate.holds = false
  animation : e.animation = .null

/-- The subgraph has an id on one line and a title. -/
structure Subgraph.Clean (g : Subgraph) : Prop where
  id : ∃ t, g.id = .text t ∧ t ≠ [] ∧ ∀ c ∈ t, isLineBreak c = false
  title : ∃ t, g.title = .text t ∧ t ≠ [] ∧ OnlyFeeds t

/-- The diagram says nothing but its direction, its nodes, its edges and its subgraphs. -/
structure Diagram.Clean (d : Diagram) : Prop where
  nodes : ∀ n ∈ d.nodes, n.Clean
  edges : ∀ e ∈ d.edges, e.Clean
  subgraphs : ∀ g ∈ d.subgraphs, g.Clean
  classes : d.classes = []

theorem plainValue_of_chars {s : Text} (some_text : s ≠ [])
    (h : ∀ c ∈ s, isPlainChar c = true ∨ c = '-') : PlainValue s := by
  have mark : ∀ c ∈ s, c ∉ (":;%#,\"'\x60[]()\x7b\x7d" : String).toList := by
    intro c hc
    rcases h c hc with plain | rfl
    · exact not_mark_of_isPlainChar plain
    · decide
  have blank : ∀ c ∈ s, isBlank c = false := by
    intro c hc
    rcases h c hc with plain | rfl
    · exact isBlank_of_isWordOrHyphen (isWordOrHyphen_of_isPlainChar plain)
    · decide
  refine ⟨.of_chars fun c hc => ⟨isLineBreak_of_not_isBlank (blank c hc), ?_⟩, some_text,
    tight_of_stops blank, fun c hc here => mark c hc ?_, fun first => ?_,
    Entity.hasCode_of_not_mem fun here => mark '#' here (by decide)⟩
  · rintro rfl
    exact mark '%' hc (by decide)
  · have marks : ∀ d ∈ (",\"'[]()\x7b\x7d" : String).toList,
        d ∈ (":;%#,\"'\x60[]()\x7b\x7d" : String).toList := by decide
    exact marks c here
  · exact mark '\x60' (List.mem_of_mem_head? first) (by decide)

theorem Shape.plainValue_name {shape : Shape} (h : shape ∈ known) : PlainValue shape.name := by
  have all : ∀ shape ∈ known, shape.name ≠ [] ∧
      ∀ c ∈ shape.name, isPlainChar c = true ∨ c = '-' := by decide +kernel
  exact plainValue_of_chars (all shape h).1 (all shape h).2

namespace Node.Clean
variable {n : Node}

theorem writable (h : n.Clean) : n.Writable where
  id := by
    obtain ⟨t, same, plain⟩ := h.id
    exact ⟨t, same, plain.nodeId⟩
  text := h.text
  shape := Shape.resolve_name h.shape
  shapeName := Shape.plainValue_name h.shape
  pictures := by simp [Writing.pictures, h.further n.icon, h.further n.image, Value.holds]
  placements := by
    simp [Writing.placements, h.further n.form, h.further n.labelPosition, Value.holds]
  extents := by simp [Writing.extents, h.further n.width, h.further n.height, Value.isSome]
  tooltip := by simp [Writing.hasOwnTooltip, h.further n.tooltip, Value.isSome]

end Node.Clean

namespace Edge.Clean
variable {e : Edge}

theorem needsId_eq (h : e.Clean) : Writing.needsId e = e.named.holds := by
  simp [Writing.needsId, h.animate, h.animation, h.classes, Value.isSome]

theorem writable (h : e.Clean) (source : ∃ s, e.source = .text s ∧ PlainId s)
    (target : ∃ t, e.target = .text t ∧ PlainId t) (identified : e.id.holds)
    (short : e.operator.isOk) : e.Writable where
  source := by
    obtain ⟨s, same, plain⟩ := source
    exact ⟨s, same, plain.nodeId⟩
  target := by
    obtain ⟨t, same, plain⟩ := target
    exact ⟨t, same, plain.nodeId⟩
  text := by
    rcases h.text with none_here | ⟨t, same, some_text, fed⟩
    · exact Or.inl none_here
    · exact Or.inr ⟨by simpa [same, Value.holds] using some_text, t, same, fed⟩
  length := by
    obtain ⟨k, length, some_length⟩ := h.length
    refine ⟨k, length, some_length, ?_⟩
    have same : max 1 k = k := by omega
    rw [Edge.operator, length, Operator.lengthOfData, same] at short
    exact Operator.room_of_build short
  tips := h.tips
  id := by
    rw [h.needsId_eq]
    intro named
    obtain ⟨t, same, chars, _⟩ := h.id named
    have some_text : t ≠ [] := by simpa [same, Value.holds] using identified
    refine ⟨t, same, some_text, fun c hc => ?_⟩
    rcases chars c hc with plain | rfl
    · exact isWordOrHyphen_of_isPlainChar plain
    · decide

end Edge.Clean

theorem Subgraph.Clean.writable {g : Subgraph} (h : g.Clean) : g.Writable := by
  obtain ⟨id, hid, _, single⟩ := h.id
  obtain ⟨title, htitle, some_title, fed⟩ := h.title
  exact ⟨⟨id, hid, single⟩, title, htitle, fed, fun none_here => absurd none_here some_title⟩

namespace Diagram.Clean
variable {d : Diagram}

theorem bare (h : d.Clean) : d.Bare := by
  refine bare_of_plain (fun n hn => ?_) (fun e he => ?_) h.classes
  · have clean := h.nodes n hn
    exact ⟨clean.classes, clean.style, clean.further n.link (by simp)⟩
  · have clean := h.edges e he
    refine ⟨clean.classes, clean.style, ?_⟩
    have still : e.animation.ifHolds = none := by
      rw [clean.animation]
      rfl
    simp [Writing.edgeProperties, clean.animate, still]

/-- A clean and integral diagram can be written and read again, if its operators can be written. -/
theorem tellable (h : d.Clean) (integral : d.Integral) (identified : ∀ e ∈ d.edges, e.id.holds)
    (short : ∀ e ∈ d.edges, e.operator.isOk) : d.Tellable where
  toIntegral := integral
  toBare := h.bare
  writableNodes n hn := (h.nodes n hn).writable
  writableSubgraphs g hg := (h.subgraphs g hg).writable
  writableEdges e he := by
    have ends : ∀ {id : Value}, d.hasNode id → ∃ t, id = .text t ∧ PlainId t := by
      intro id there
      obtain ⟨n, hn, rfl⟩ := hasNode_iff.mp there
      exact (h.nodes n hn).id
    exact (h.edges e he).writable (ends (integral.source e he)) (ends (integral.target e he))
      (identified e he) (short e he)
  authored e he needs t ht := by
    rw [(h.edges e he).needsId_eq] at needs
    obtain ⟨t', same, _, own⟩ := (h.edges e he).id needs
    obtain rfl : t' = t := Value.text.inj (same.symm.trans ht)
    exact own

end Diagram.Clean

/-- Every edge has an id that holds. -/
def Trait.identified : Trait where
  node _ := True
  edge e := e.id.holds
  subgraph _ := True
  moved _ _ _ := trivial
  regrouped _ _ _ _ := trivial

namespace Editor

theorem makes_identified : Makes (fun _ edit => Edit.Spreads .identified edit) fun _ => True := by
  refine makes_spread (fun _ _ => trivial) (fun _ _ holds _ => holds) (fun _ _ => trivial)
    (fun _ _ _ _ _ => trivial) (fun _ set hset e holds => ?_) fun _ _ _ _ _ => trivial
  have same : (set e).id = e.id := Edit.setAll_spares Edit.spares_edge_id hset e
  exact (congrArg Value.holds same).trans holds

/-- Whatever was done to an empty diagram: if what has become of it is clean, and no edge is too
long to be written, then it is written as a text from which it comes back. -/
theorem clean_comes_back {cs : List Command} (proper : ∀ c ∈ cs, c.IsProper)
    (clean : ((ofDiagram .empty).after cs).diagram.Clean)
    (short : ∀ e ∈ ((ofDiagram .empty).after cs).diagram.edges, e.operator.isOk) :
    ∃ s d, ((ofDiagram .empty).after cs).diagram.write {} = .ok s ∧ Diagram.read s = .ok d ∧
      ((ofDiagram .empty).after cs).diagram.Returns d := by
  have integral := integral_after Diagram.integral_empty proper
  have identified := (has_after makes_identified Diagram.has_empty cs).edges
  exact (clean.tellable integral identified short).read_write (by decide)

/-- Two nodes with awkward texts, one of them in a subgraph, and an edge with a label. -/
def awkward : List Command := [
  .addSubgraph { id := .text "my group", title := .text "a \"title\"\nin two lines" },
  .addNode {
    id := .text "A", text := .text "x --> y & 50%% #35; \"z\"", parent := .text "my group" },
  .addNode { id := .text "B_1", text := .text "", shape := .bolt },
  .addEdge { id := .text "link-1", source := .text "A", target := .text "B_1"
             text := .text "| yes |", stroke := .dotted, length := .number (.int 3)
             named := .bool true }]

theorem awkward_comes_back : ∃ s d, ((ofDiagram .empty).after awkward).diagram.write {} = .ok s ∧
    Diagram.read s = .ok d ∧ ((ofDiagram .empty).after awkward).diagram.Returns d := by
  have made : ((ofDiagram .empty).after awkward).diagram = {
      nodes := [
        { id := .text "A", text := .text "x --> y & 50%% #35; \"z\"", parent := .text "my group" },
        { id := .text "B_1", text := .text "", shape := .bolt }]
      edges := [{
        id := .text "link-1", source := .text "A", target := .text "B_1"
        text := .text "| yes |", stroke := .dotted, length := .number (.int 3)
        named := .bool true }]
      subgraphs := [{
        id := .text "my group", title := .text "a \"title\"\nin two lines"
        members := [.text "A"] }] } := by decide +kernel
  refine clean_comes_back (by simp [awkward, Command.IsProper]) ?_ (by rw [made]; decide)
  rw [made]
  refine ⟨fun n hn => ?_, fun e he => ?_, fun g hg => ?_, rfl⟩
  · simp only [List.mem_cons, List.not_mem_nil, or_false] at hn
    rcases hn with rfl | rfl
    · exact ⟨⟨_, rfl, by decide, by decide, by decide⟩, ⟨_, rfl, by decide⟩, by decide, rfl, rfl,
        by decide⟩
    · exact ⟨⟨_, rfl, by decide, by decide, by decide⟩, ⟨_, rfl, by decide⟩, by decide, rfl, rfl,
        by decide⟩
  · obtain rfl := List.mem_singleton.mp he
    exact ⟨Or.inr ⟨_, rfl, by decide, by decide⟩, ⟨3, rfl, by decide⟩, by decide,
      fun _ => ⟨_, rfl, by decide, by decide⟩, rfl, rfl, rfl, rfl⟩
  · obtain rfl := List.mem_singleton.mp hg
    exact ⟨⟨_, rfl, by decide, by decide⟩, _, rfl, by decide, by decide⟩

/-- Two nodes and an edge that is longer than any machine could write. -/
def stretched : List Command := [
  .addNode (.bare (.text "A")), .addNode (.bare (.text "B")),
  .addEdge { id := .text "e", source := .text "A", target := .text "B"
             length := .number (.int 100000000000000000000), named := .bool true }]

/-- A clean diagram does not come back if a subgraph with the null value as its id was taken away,
which left a subgraph inside of itself; and it is not even written if an edge is too long. -/
theorem clean_does_not_come_back :
    (((ofDiagram .empty).after nullRemoved).diagram.Clean ∧ ∃ s d,
      ((ofDiagram .empty).after nullRemoved).diagram.write {} = .ok s ∧ Diagram.read s = .ok d ∧
        ¬ ((ofDiagram .empty).after nullRemoved).diagram.Returns d) ∧
    ((∀ c ∈ stretched, c.IsProper) ∧ ((ofDiagram .empty).after stretched).diagram.Clean ∧
      ((ofDiagram .empty).after stretched).diagram.write {} = .error .uncountable) := by
  have left : ((ofDiagram .empty).after nullRemoved).diagram =
      { subgraphs := [{ id := .text "g", title := .text "g", parent := .text "g" }] } := by
    decide +kernel
  have made : ((ofDiagram .empty).after stretched).diagram = {
      nodes := [.bare (.text "A"), .bare (.text "B")]
      edges := [{
        id := .text "e", source := .text "A", target := .text "B"
        length := .number (.int 100000000000000000000), named := .bool true }] } := by
    decide +kernel
  rw [left, made]
  refine ⟨⟨⟨by simp, by simp, fun g hg => ?_, rfl⟩, "flowchart TB\n", .empty, by decide +kernel,
    by decide +kernel, fun returns => ?_⟩, by simp [stretched, Command.IsProper], ⟨fun n hn => ?_,
    fun e he => ?_, by simp, rfl⟩, by decide +kernel⟩
  · obtain rfl := List.mem_singleton.mp hg
    exact ⟨⟨_, rfl, by decide, by decide⟩, _, rfl, by decide, by decide⟩
  · exact absurd (returns.subgraphs (.text "g")) (by decide)
  · simp only [List.mem_cons, List.not_mem_nil, or_false] at hn
    rcases hn with rfl | rfl
    · exact ⟨⟨_, rfl, by decide, by decide, by decide⟩, ⟨_, rfl, by decide⟩, by decide, rfl, rfl,
        by decide⟩
    · exact ⟨⟨_, rfl, by decide, by decide, by decide⟩, ⟨_, rfl, by decide⟩, by decide, rfl, rfl,
        by decide⟩
  · obtain rfl := List.mem_singleton.mp he
    exact ⟨Or.inl rfl, ⟨_, rfl, by decide⟩, by decide,
      fun _ => ⟨_, rfl, by decide, by decide⟩, rfl, rfl, rfl, rfl⟩

end Editor
end Flowchart
