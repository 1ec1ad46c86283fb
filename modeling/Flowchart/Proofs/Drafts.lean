import Flowchart.Proofs.EditorIntegrity
import Flowchart.Proofs.Legible
import Flowchart.Proofs.StableIds
import Flowchart.Proofs.Traits

/-! Edges that are added without an id. The id that is made for such an edge tells what the edge
said when it was added; other fields may be changed later, and the id stays. -/
namespace Flowchart
open Action Text

/-! ### Ids that are made -/

namespace EdgeId

theorem hyphenated_ofContent (source target symbols : Text) (label : Option Text) (stroke : Stroke)
    (start finish : Tip) :
    HyphenatedWord (ofContent source target symbols label stroke start finish) where
  some_text := by simp [ofContent]
  chars := forall_mem_ofContent (by decide) (by decide) source target symbols label stroke start
    finish

theorem hyphenated_distinct {base : Text} (h : HyphenatedWord base) (taken : List Text) :
    HyphenatedWord (distinct base taken) := by
  unfold distinct
  split
  · obtain ⟨m, _, found, _⟩ := firstFree_spec base taken 1
    rw [found]
    refine ⟨by simp [numbered], fun c hc => ?_⟩
    have mark : ∀ c ∈ "-dup".toList, isPlainChar c = true ∨ c = '-' := by decide
    have digits : ∀ d < 10, isPlainChar (Nat.digitChar d) = true ∨ Nat.digitChar d = '-' := by
      decide
    rcases List.mem_append.mp hc with hc | hc
    · rcases List.mem_append.mp hc with hc | hc
      · exact h.chars c hc
      · exact mark c hc
    · exact forall_mem_toDigits (p := fun c => isPlainChar c = true ∨ c = '-') (by decide) digits m
        c hc
  · exact h

end EdgeId

namespace Edge
variable {e : Edge}

theorem symbols_of_operator {s : Text} (h : e.operator = .ok s) : s = e.symbols := by
  obtain ⟨k, length, built⟩ := bind_eq_ok.mp h
  have room := Operator.room_of_build (isOk_iff.mpr ⟨s, built⟩)
  rw [Operator.build_ok room] at built
  cases built
  rw [symbols, length]
  rfl

end Edge

namespace Edit
variable {p : Progress} {e : Edge}

/-- The id that is made for an edge is the one that its line asks for, told apart from those that
are taken. -/
theorem generatedId_ok {d : Diagram} {id : Text} (made : generatedId d e = .ok id) :
    e.operator.isOk ∧ id = EdgeId.distinct e.generated d.edgeIds := by
  obtain ⟨symbols, operator, made⟩ := bind_eq_ok.mp made
  obtain ⟨source, hs, made⟩ := bind_eq_ok.mp made
  obtain ⟨target, ht, made⟩ := bind_eq_ok.mp made
  have label : ∃ text, e.text.text?.getD [] = text ∧ EdgeId.distinct (EdgeId.ofContent source target
      symbols (some text) e.stroke e.sourceTip e.targetTip) d.edgeIds = id := by
    split at made
    · obtain ⟨text, told, made⟩ := bind_eq_ok.mp made
      refine ⟨text, ?_, Except.ok.inj made⟩
      rw [Value.asText_eq_ok.mp told]
      rfl
    · rename_i empty
      refine ⟨[], ?_, Except.ok.inj made⟩
      cases text : e.text with
      | text t =>
        obtain rfl : t = [] := by simpa [text] using empty
        rfl
      | _ => rfl
  obtain ⟨text, told, made⟩ := label
  refine ⟨isOk_iff.mpr ⟨symbols, operator⟩, ?_⟩
  have content : e.generated = EdgeId.ofContent source target symbols (some (e.text.text?.getD []))
      e.stroke e.sourceTip e.targetTip := by
    rw [Edge.generated, Value.asText_eq_ok.mp hs, Value.asText_eq_ok.mp ht,
      ← Edge.symbols_of_operator operator]
    rfl
  rw [content, told, made]

/-- An edge without an id comes last, under the id that is made for it; or it is not added. -/
theorem addEdge_ends (unnamed : e.id.holds = false) :
    Ends (addEdge e) p (fun _ q => e.operator.isOk ∧ q.diagram = { p.diagram with
        edges := p.diagram.edges ++
          [{ e with id := .text (EdgeId.distinct e.generated p.diagram.edgeIds) }] })
      fun _ q => q = p := by
  have nameless : ¬ e.id.holds = true := by simp [unnamed]
  simp only [addEdge, ends_bind, ends_diagram, if_neg nameless]
  refine (checkNode_guards ..).pass (fun _ _ => ?_) fun _ => rfl
  refine (checkNode_guards ..).pass (fun _ _ => ?_) fun _ => rfl
  refine (ofExcept_guards _).pass (fun id made => ?_) fun _ => rfl
  obtain ⟨short, rfl⟩ := generatedId_ok made
  have fresh : (.text (EdgeId.distinct e.generated p.diagram.edgeIds) : Value) ∉
      Keyed.keys p.diagram.edges := fun taken =>
    generatedId_not_mem made (Diagram.mem_edgeIds.mpr taken)
  refine ⟨short, ?_⟩
  exact congrArg (fun edges => { p.diagram with edges }) (Keyed.put_of_not_mem
    (x := { e with id := .text (EdgeId.distinct e.generated p.diagram.edgeIds) }) fresh)

end Edit

/-! ### Drafts -/

theorem Node.legible_bare {t : Text} (plain : PlainId t) : (Node.bare (.text t)).Legible where
  toWritable := by
    have rect : Shape.rect ∈ Shape.known := by decide
    refine Clean.writable ⟨⟨t, rfl, plain⟩, ⟨t, rfl, fun c hc line => ?_⟩, rect, rfl, rfl, ?_⟩
    · have solid := isBlank_of_isWordOrHyphen (isWordOrHyphen_of_isPlainChar (plain.chars c hc))
      rw [isLineBreak_of_not_isBlank solid] at line
      cases line
    · simp [bare]
  classes := by simp [bare]
  listed given := absurd rfl given
  style := by simp [bare, visible]
  link := by simp [bare, Value.holds]

/-- The value is a speed of an animation, or null. -/
def Value.IsSpeed (v : Value) : Prop := v = .null ∨ v = .text "fast" ∨ v = .text "slow"

namespace Edge

/-- What is said of the edge can be written, and the edge is not called by an author. -/
structure Fitted (e : Edge) : Prop where
  text : e.text.holds → e.text.IsFed
  style : ∀ s, e.visible = some s → s.Writable
  classes : Classed e.classes
  animate : ∃ b, e.animate = .bool b
  animation : e.animation.IsSpeed
  named : e.named.holds = false

/-- The edge is given without an id. -/
structure Draft (e : Edge) : Prop extends Fitted e where
  unnamed : e.id.holds = false

theorem Draft.of_plain {e : Edge} (text : e.text.holds → e.text.IsFed)
    (still : e.animate = .bool false)
    (rest : e.style = none ∧ e.classes = [] ∧ e.animation = .null)
    (unnamed : e.named.holds = false ∧ e.id.holds = false) : e.Draft := by
  obtain ⟨unstyled, bare, silent⟩ := rest
  refine ⟨⟨text, ?_, ?_, ⟨_, still⟩, Or.inl silent, unnamed.1⟩, unnamed.2⟩
  · simp [visible, unstyled]
  · simp [Classed, bare]

/-- The edge has an id that was made for it. -/
structure Drafted (e : Edge) : Prop extends Fitted e where
  id : ∃ t, e.id = .text t ∧ HyphenatedWord t ∧ EdgeId.generatedMark <+: t
  short : e.operator.isOk

theorem Draft.drafted {e : Edge} (h : e.Draft) (short : e.operator.isOk) (taken : List Text) :
    Drafted { e with id := .text (EdgeId.distinct e.generated taken) } := by
  have word : HyphenatedWord e.generated := EdgeId.hyphenated_ofContent ..
  have mark : EdgeId.generatedMark <+: e.generated := EdgeId.prefix_ofContent ..
  exact {
    h.toFitted with
    id := ⟨_, rfl, EdgeId.hyphenated_distinct word taken, mark.trans (EdgeId.prefix_distinct ..)⟩
    short }

end Edge

/-- The nodes have plain ids, and everything can be written; there is nothing but nodes and edges
whose ids were made for them. -/
def Trait.drafted : Trait where
  node n := n.Legible ∧ ∃ t, n.id = .text t ∧ PlainId t
  edge := Edge.Drafted
  subgraph _ := False
  classes cs := cs = []
  moved _ _ h := ⟨{ h.1 with link := fun holds => { h.1.link holds with } }, h.2⟩
  regrouped _ _ _ h := h
  unstyled := rfl
  undefined := by
    rintro _ _ rfl
    rfl

/-- The fields of the ends, the classes and the animation of an edge. -/
def Edge.refitted : List Text := ["source", "target", "css_classes", "animate", "animation"]

/-- The changes are of the ends, the classes and the animation of an edge. -/
structure Fields.Refit (changes : Fields) : Prop where
  once : (Keyed.keys changes).Nodup
  known : ∀ c ∈ changes, c.1 ∈ Edge.refitted
  classes : ∀ v, ("css_classes".toList, v) ∈ changes → ∀ cs, v.partsIfAny = .ok cs → Classed cs
  animate : ∀ v, ("animate".toList, v) ∈ changes → ∃ b, v = .bool b
  animation : ∀ v, ("animation".toList, v) ∈ changes → v.IsSpeed

namespace Edit

theorem refit_setter {entry : Text × (Value → Except Error (Edge → Edge))}
    (there : entry ∈ Edge.setters) (known : entry.1 ∈ Edge.refitted) {v : Value} {f : Edge → Edge}
    (set : entry.2 v = .ok f) :
    (f = fun e => { e with source := v }) ∨ (f = fun e => { e with target := v }) ∨
      (entry.1 = "css_classes".toList ∧ ∃ cs, v.partsIfAny = .ok cs ∧
        f = fun e => { e with classes := cs }) ∨
      (entry.1 = "animate".toList ∧ f = fun e => { e with animate := v }) ∨
      (entry.1 = "animation".toList ∧ f = fun e => { e with animation := v }) := by
  simp only [Edge.setters, List.mem_cons, List.not_mem_nil, or_false] at there
  rcases there with rfl | rfl | rfl | rfl | rfl | rfl | rfl | rfl | rfl | rfl | rfl | rfl | rfl <;>
    try exact absurd known (by decide)
  · exact Or.inl (Except.ok.inj set).symm
  · exact Or.inr (Or.inl (Except.ok.inj set).symm)
  · obtain ⟨cs, parts, made⟩ := map_eq_ok.mp set
    exact Or.inr (Or.inr (Or.inl ⟨rfl, cs, parts, made.symm⟩))
  · exact Or.inr (Or.inr (Or.inr (Or.inl ⟨rfl, (Except.ok.inj set).symm⟩)))
  · exact Or.inr (Or.inr (Or.inr (Or.inr ⟨rfl, (Except.ok.inj set).symm⟩)))

theorem lets_refit {changes : Fields} (refit : changes.Refit) :
    Lets Edge.setters Edge.Drafted changes := by
  apply lets_of
  intro entry there v f given set e h
  rcases refit_setter there (refit.known _ given) set with rfl | rfl | ⟨name, cs, parts, rfl⟩ |
    ⟨name, rfl⟩ | ⟨name, rfl⟩
  · exact { h with }
  · exact { h with }
  · exact { h with classes := refit.classes v (name ▸ given) cs parts }
  · exact { h with animate := refit.animate v (name ▸ given) }
  · exact { h with animation := refit.animation v (name ▸ given) }

theorem addEdge_drafts {e : Edge} (draft : e.Draft) : Spreads .drafted (addEdge e) := by
  intro p h
  refine (addEdge_ends draft.unnamed).imp (fun _ q drawn => ?_) fun _ q same => same ▸ h
  obtain ⟨short, last⟩ := drawn
  rw [last]
  refine ⟨h.nodes, fun f hf => ?_, h.subgraphs, h.classes⟩
  rcases List.mem_append.mp hf with old | new
  · exact h.edges f old
  · rw [List.mem_singleton.mp new]
    exact draft.drafted short _

end Edit

/-- Nodes are added, edges are added without ids, and edges are fitted anew. -/
def Command.Drafts : Command → Prop
  | .addNode n => n.Legible ∧ ∃ t, n.id = .text t ∧ PlainId t
  | .addEdge e => e.Draft
  | .updateEdge _ changes => changes.Refit
  | _ => False

theorem Command.Drafts.isProper {c : Command} (h : c.Drafts) : c.IsProper := by
  cases c with
  | addNode _ | addEdge _ => trivial
  | updateEdge _ _ => exact h.once
  | _ => exact h.elim

/-- What commands make of a diagram. -/
def Diagram.edited (d : Diagram) (cs : List Command) : Diagram :=
  ((Editor.ofDiagram d).after cs).diagram

namespace Editor
variable {d : Diagram} {cs : List Command}

/-- Edits have something in common if those of such commands have it. -/
theorem makes_of_drafts {Q : ∀ α : Type, Edit α → Prop} {fine : Command → Prop}
    (drafts : ∀ {c}, fine c → c.Drafts)
    (addNode : ∀ {n}, fine (.addNode n) → Q _ (Edit.addNode n))
    (addEdge : ∀ {e}, fine (.addEdge e) → Q _ (Edit.addEdge e))
    (updateEdge : ∀ {id changes}, fine (.updateEdge id changes) →
      Q _ (Edit.updateEdge id changes)) : Makes Q fine where
  addNode := addNode
  addEdge := addEdge
  updateEdge := updateEdge
  addSubgraph h := (drafts h).elim
  updateNode h := (drafts h).elim
  updateSubgraph h := (drafts h).elim
  removeNode h := (drafts h).elim
  removeEdge h := (drafts h).elim
  removeSubgraph h := (drafts h).elim
  setDirection h := (drafts h).elim
  clear h := (drafts h).elim

theorem makes_drafted : Makes (fun _ edit => Edit.Spreads .drafted edit) Command.Drafts :=
  makes_of_drafts id (fun h => Edit.addNode_spreads fun _ => h) Edit.addEdge_drafts
    fun h => Edit.updateEdge_spreads _ (Edit.lets_refit h)

theorem drafted_after (has : d.Has .drafted) (integral : d.Integral)
    (drafts : ∀ c ∈ cs, c.Drafts) : (d.edited cs).Has .drafted ∧ (d.edited cs).Integral := by
  have upholds := fun run keeps => upholds_trait makes_drafted False.elim False.elim run keeps
    fun h => h.elim
  exact ⟨(after_keeps upholds drafts (hosts_ofDiagram has)).diagram,
    integral_after integral fun c hc => Command.Drafts.isProper (drafts c hc)⟩

end Editor

namespace Diagram
variable {d : Diagram}

theorem legible_of_drafted (has : d.Has .drafted) (integral : d.Integral)
    (counted : ∀ e ∈ d.edges, e.visible.isSome → (d.edges.length : Int) < countLimit) :
    d.Legible where
  nodes n hn := (has.nodes n hn).1
  edges e he := by
    have h := has.edges e he
    obtain ⟨t, called, word, _⟩ := h.id
    have name {id : Value} (there : d.hasNode id) : ∃ t, id = .text t ∧ NodeId t := by
      obtain ⟨n, hn, rfl⟩ := hasNode_iff.mp there
      obtain ⟨t, called, plain⟩ := (has.nodes n hn).2
      exact ⟨t, called, plain.nodeId⟩
    refine ⟨Edge.writable_drawn h.short h.text (name (integral.source e he))
      (name (integral.target e he)) fun _ => ⟨t, called, word.tag⟩, h.short, fun holds => ?_,
      fun c hc => ?_, h.style⟩
    · rcases h.animation with speed | speed | speed
      · rw [speed] at holds
        cases holds
      · rw [speed]
        exact plainValue_of_chars (by decide) (by decide)
      · rw [speed]
        exact plainValue_of_chars (by decide) (by decide)
    · obtain ⟨name, same, word⟩ := h.classes c hc
      exact ⟨name, same, word.listName⟩
  subgraphs g hg := (has.subgraphs g hg).elim
  classes c hc := by
    have none_here : d.classes = [] := has.classes
    rw [none_here] at hc
    cases hc
  counted := counted

/-- Ids come back as far as they are those that would be made for what is drawn. -/
theorem ids_come_back (legible : d.Legible) (once : (d.edges.map Edge.id).Nodup) {d' : Diagram}
    (told : d'.edges.map Edge.bared = d.edgesRedrawn.map fun f => d.dressing (d.animated f))
    {k : Nat} (areDrawn : Edge.AreDrawn [] ((d.edges.take k).map Edge.drawn)) :
    (d'.edges.map Edge.id).take k = (d.edges.map Edge.id).take k := by
  have writable : ∀ f ∈ (d.edges.take k).map Edge.drawn, f.Writable := by
    intro f hf
    obtain ⟨e, he, rfl⟩ := List.mem_map.mp hf
    exact (legible.edges e (List.mem_of_mem_take he)).drawn
  have ids : ((d.edges.take k).map Edge.drawn).map Edge.id = (d.edges.map Edge.id).take k := by
    rw [List.map_map, List.map_take]
    rfl
  have again := areDrawn.ids_allRedrawn writable (by
    rw [List.map_nil, List.nil_append, ids]
    exact once.sublist (List.take_sublist k _))
  rw [ids_told told, edgesRedrawn, ← List.map_take, Edge.take_allRedrawn, ← List.map_take, again,
    ids]

end Diagram
end Flowchart
