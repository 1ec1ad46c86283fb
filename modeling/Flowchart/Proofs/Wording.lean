import Flowchart.Proofs.Calls
import Flowchart.Proofs.FixedPoint
import Flowchart.Proofs.ReadingSteps

/-! Diagrams whose words are texts. What has to be quoted, escaped or looked up when a diagram is
written are its words: the ids, texts and titles of entities, their classes, and what stands for
pictures, tooltips and links. If all of them are texts, writing fails only at an edge that is too
long. What is read from a text has such words, and what is made of typed fields has them too. -/
namespace Flowchart

namespace Value

/-- Is the value a text? -/
def isText (v : Value) : Bool := v.text?.isSome

/-- Is the value a text, or null where there is none? -/
def isWord (v : Value) : Bool := v.isText || !v.isSome

/-- Is the value an integer? -/
def isInt : Value → Bool
  | .number (.int _) => true
  | _ => false

variable {v w : Value}

theorem isText_iff : v.isText = true ↔ ∃ t, v = .text t := by
  cases v <;> simp [isText, text?]

theorem isWord_iff : v.isWord = true ↔ v = .null ∨ ∃ t, v = .text t := by
  rw [isWord, Bool.or_eq_true, isText_iff, or_comm]
  simp [isSome]

theorem isInt_iff : v.isInt = true ↔ ∃ n, v = .number (.int n) := by
  cases v with
  | number n => cases n <;> simp [isInt]
  | _ => simp [isInt]

@[simp] theorem isText_text (t : Text) : isText (.text t) = true := rfl

theorem isWord_of_isText (h : v.isText) : v.isWord = true := by
  rw [isWord, h, Bool.true_or]

/-- A word that is not null is a text. -/
theorem isText_of_isSome (h : v.isWord) (here : v.isSome) : v.isText = true := by
  rcases isWord_iff.mp h with rfl | ⟨t, rfl⟩
  · cases here
  · rfl

theorem isText_of_holds (h : v.isWord) (here : v.holds) : v.isText = true := by
  rcases isWord_iff.mp h with rfl | ⟨t, rfl⟩
  · cases here
  · rfl

theorem isSimple_of_isText (h : v.isText) : v.isSimple = true := by
  obtain ⟨t, rfl⟩ := isText_iff.mp h
  rfl

theorem isText_orElse (h : v.isWord) (other : w.isText) : (v.orElse w).isText = true := by
  rw [orElse]
  split
  · exact isText_of_holds h ‹_›
  · exact other

theorem asText_isOk (h : v.isText) : v.asText.isOk = true := by
  obtain ⟨t, rfl⟩ := isText_iff.mp h
  rfl

theorem asWord_isOk (h : v.isText) : v.asWord.isOk = true := by
  obtain ⟨t, rfl⟩ := isText_iff.mp h
  rfl

end Value

/-! ### Words -/

/-- The id and the text of the node are texts, and so is what stands for more, if anything does. -/
structure Node.IsWorded (n : Node) : Prop where
  id : n.id.isText
  text : n.text.isText
  icon : n.icon.isWord
  image : n.image.isWord
  tooltip : n.tooltip.isWord
  link : n.link.isWord
  classes : ∀ c ∈ n.classes, c.isText

/-- The id of the edge is a text, its label is one if it has any, and its length is an integer. -/
structure Edge.IsWorded (e : Edge) : Prop where
  id : e.id.isText
  text : e.text.isWord
  length : e.length.isInt
  classes : ∀ c ∈ e.classes, c.isText

/-- The id and the title of the subgraph are texts. -/
structure Subgraph.IsWorded (g : Subgraph) : Prop where
  id : g.id.isText
  title : g.title.isText

/-- All words are texts, those in the styles of classes included. -/
def Trait.worded : Trait where
  node := Node.IsWorded
  edge := Edge.IsWorded
  subgraph := Subgraph.IsWorded
  classes cs := ∀ c ∈ cs, ∀ v ∈ c.2, v.isText
  moved _ _ h := { h with }
  regrouped _ _ _ h := ⟨h.id, h.title⟩
  unstyled := by simp
  undefined _ _ h := fun c hc => h c (List.mem_of_mem_filter hc)

/-! ### Writing -/

namespace Writing
variable {n : Node} {g : Subgraph} {e : Edge}

theorem quotedProperty_isOk (key : Text) {v : Value} (h : v.isText) :
    (quotedProperty key v).isOk = true :=
  isOk_bind (Value.asText_isOk h) fun _ _ => rfl

theorem nodeProperties_isOk (h : n.IsWorded) : (nodeProperties n).isOk = true := by
  refine isOk_bind (quotedProperty_isOk _ h.text) fun _ _ => ?_
  refine isOk_bind (isOk_mapM fun f hf => ?_) fun _ _ => isOk_bind (isOk_mapM fun v hv => ?_)
    fun _ _ => rfl
  · obtain ⟨picture, holds⟩ := List.mem_filter.mp hf
    have word : f.2.isWord := by
      simp only [pictures, List.mem_cons, List.not_mem_nil, or_false] at picture
      rcases picture with rfl | rfl
      · exact h.icon
      · exact h.image
    exact quotedProperty_isOk _ (Value.isText_of_holds word holds)
  · split at hv
    · rename_i own
      obtain rfl := List.mem_singleton.mp hv
      have shown : n.tooltip.isSome := (Bool.and_eq_true _ _ ▸ own).1
      exact quotedProperty_isOk _ (Value.isText_of_isSome h.tooltip shown)
    · cases hv

theorem node_isOk (h : n.IsWorded) : (node n).isOk = true := by
  have declared : ∃ v, declaration n = .ok v ∧ v.isText := by
    unfold declaration
    split
    · obtain ⟨properties, made⟩ := isOk_iff.mp (nodeProperties_isOk h)
      rw [made]
      exact ⟨_, rfl, rfl⟩
    · split
      · exact ⟨_, rfl, h.id⟩
      · obtain ⟨t, text⟩ := Value.isText_iff.mp h.text
        rw [text]
        exact ⟨_, rfl, rfl⟩
  obtain ⟨v, declared, text⟩ := declared
  rw [node, declared]
  exact Value.asText_isOk text

theorem subgraph_isOk (h : g.IsWorded) : (subgraph g).isOk = true := by
  unfold subgraph
  split
  · exact isOk_bind (Value.asWord_isOk h.id) fun _ _ => rfl
  · exact isOk_bind (Value.asText_isOk h.id) fun _ _ =>
      isOk_bind (Value.asText_isOk h.title) fun _ _ => rfl

theorem edge_isOk (h : e.IsWorded) (operator : e.operator.isOk) : (edge e).isOk = true := by
  refine isOk_bind operator fun _ _ => ?_
  dsimp only
  split
  · rename_i holds
    obtain ⟨t, text⟩ := Value.isText_iff.mp (Value.isText_of_holds h.text holds)
    rw [text]
    rfl
  · rfl

theorem click_isOk (id target : Value) {link tooltip : Value} (text : link.isText)
    (word : tooltip.isWord) : (click id link tooltip target).isOk = true := by
  refine isOk_bind (Value.asWord_isOk text) fun _ _ => ?_
  dsimp only
  split
  · rename_i here
    obtain ⟨t, text⟩ := Value.isText_iff.mp (Value.isText_of_isSome word here)
    rw [text]
    rfl
  · rfl

end Writing

namespace Diagram
variable {d : Diagram}

/-- What the statement says is of the diagram. -/
def Tells (d : Diagram) : Written → Prop
  | .node n => n ∈ d.nodes
  | .subgraph g => g ∈ d.subgraphs
  | .edge e => e ∈ d.edges
  | .define c => c ∈ d.classes
  | .assign ids name => (∃ id, (name, id) ∈ d.classUses) ∧ ∀ id ∈ ids, (name, id) ∈ d.classUses
  | .click _ link tooltip _ => ∃ n ∈ d.nodes, n.link = link ∧ link.holds ∧ n.tooltip = tooltip
  | _ => True

/-- The statements that a diagram consists of. -/
inductive States (d : Diagram) : Written → Prop
  | declaration : States d (.declaration d.direction)
  | node {n : Node} (there : n ∈ d.nodes) : States d (.node n)
  | subgraph {g : Subgraph} (there : g ∈ d.subgraphs) : States d (.subgraph g)
  | direction (direction : Direction) : States d (.direction direction)
  | close : States d .close
  | edge {e : Edge} (there : e ∈ d.edges) : States d (.edge e)
  | properties {e : Edge} (there : e ∈ d.edges) : States d (.properties e)
  | define {c : StyleClass} (there : c ∈ d.classes) : States d (.define c)
  | assign {ids : List Value} {name : Value} (used : ∃ id, (name, id) ∈ d.classUses)
    (all : ∀ id ∈ ids, (name, id) ∈ d.classUses) : States d (.assign ids name)
  | style {n : Node} {s : NodeStyle} (there : n ∈ d.nodes) (given : n.style = some s) :
    States d (.style n.id s)
  | linkStyle (place : Nat) {e : Edge} {s : EdgeStyle} (there : e ∈ d.edges)
    (given : e.style = some s) : States d (.linkStyle place s)
  | click {n : Node} (there : n ∈ d.nodes) (holds : n.link.holds) :
    States d (.click n.id n.link n.tooltip n.linkTarget)

theorem states_blockOf {levels depth : Nat} {g : Subgraph} (hg : g ∈ d.subgraphs) :
    ∀ w ∈ d.blockOf levels depth g, d.States w.2 := by
  induction levels generalizing depth g with
  | zero => simp [blockOf]
  | succ levels ih =>
    intro w hw
    simp only [blockOf, List.mem_append, List.mem_singleton, Option.mem_toList, Option.map_eq_some_iff,
      List.mem_map, List.mem_flatMap] at hw
    rcases hw with (((rfl | ⟨direction, _, rfl⟩) | ⟨n, hn, rfl⟩) | ⟨c, hc, hw⟩) | rfl
    · exact .subgraph hg
    · exact .direction direction
    · refine .node ?_
      rcases List.mem_append.mp hn with hn | hn
      · obtain ⟨id, _, found⟩ := List.mem_filterMap.mp hn
        exact Keyed.mem_of_find? (Option.filter_eq_some_iff.mp found).1
      · exact List.mem_of_mem_filter hn
    · exact ih (List.mem_of_mem_filter hc) w hw
    · exact .close

theorem states_classLines : ∀ w ∈ d.classLines, d.States w := by
  intro w hw
  rcases List.mem_append.mp hw with hw | hw
  · obtain ⟨c, hc, rfl⟩ := List.mem_map.mp hw
    exact .define (List.mem_of_mem_filter hc)
  · obtain ⟨name, hname, rfl⟩ := List.mem_map.mp hw
    refine .assign ?_ fun id hid => ?_
    · obtain ⟨use, here, rfl⟩ := List.mem_map.mp (List.mem_eraseDups.mp hname)
      exact ⟨use.2, here⟩
    · obtain ⟨use, here, rfl⟩ := List.mem_map.mp hid
      obtain ⟨here, same⟩ := List.mem_filter.mp here
      rw [← beq_iff_eq.mp same]
      exact here

theorem states_styleLines : ∀ w ∈ d.styleLines, d.States w := by
  intro w hw
  rcases List.mem_append.mp hw with hw | hw
  · obtain ⟨n, hn, made⟩ := List.mem_filterMap.mp hw
    obtain ⟨s, given, rfl⟩ := Option.map_eq_some_iff.mp made
    exact .style hn (Option.filter_eq_some_iff.mp given).1
  · obtain ⟨e, he, made⟩ := List.mem_filterMap.mp hw
    obtain ⟨s, given, rfl⟩ := Option.map_eq_some_iff.mp made
    exact .linkStyle _ (List.fst_mem_of_mem_zipIdx he) (Option.filter_eq_some_iff.mp given).1

theorem states_clickLines : ∀ w ∈ d.clickLines, d.States w := by
  intro w hw
  obtain ⟨n, hn, made⟩ := List.mem_filterMap.mp hw
  obtain ⟨link, held, rfl⟩ := Option.map_eq_some_iff.mp made
  unfold Value.ifHolds at held
  split at held
  · rename_i holds
    cases held
    exact .click hn holds
  · cases held

/-- All that is laid out of a diagram is of the diagram. -/
theorem states_layOut (layout : Layout) : ∀ w ∈ d.layOut layout, d.States w.2 := by
  intro w hw
  simp only [layOut, List.mem_append, List.mem_singleton, List.mem_map] at hw
  rcases hw with ((((((rfl | ⟨n, hn, rfl⟩) | hw) | ⟨e, he, rfl⟩) | ⟨e, he, rfl⟩) | hw) | hw) | hw
  · exact .declaration
  · exact .node (List.mem_of_mem_filter hn)
  · obtain ⟨g, hg, hw⟩ := List.mem_flatMap.mp hw
    exact states_blockOf (List.mem_of_mem_filter hg) w hw
  · exact .edge he
  · exact .properties (List.mem_of_mem_filter he)
  · split at hw
    · obtain ⟨v, hv, rfl⟩ := List.mem_map.mp hw
      exact states_classLines v hv
    · cases hw
  · split at hw
    · obtain ⟨v, hv, rfl⟩ := List.mem_map.mp hw
      exact states_styleLines v hv
    · cases hw
  · obtain ⟨v, hv, rfl⟩ := hw
    exact states_clickLines v hv

theorem States.tells {w : Written} (h : d.States w) : d.Tells w := by
  cases h with
  | node there => exact there
  | subgraph there => exact there
  | edge there => exact there
  | define there => exact there
  | assign used all => exact ⟨used, all⟩
  | click there holds => exact ⟨_, there, rfl, holds, rfl⟩
  | _ => trivial

/-- Some edge is so long that there is no room for its operator. -/
def IsOverlong (d : Diagram) : Prop := ∃ e ∈ d.edges, ∃ k : Int, e.length = .number (.int k) ∧
  roomLimit ≤ Operator.repeats e.stroke e.targetTip k

theorem operator_isOk {e : Edge} (worded : e.IsWorded) (there : e ∈ d.edges)
    (short : ¬ d.IsOverlong) : e.operator.isOk = true := by
  obtain ⟨k, length⟩ := Value.isInt_iff.mp worded.length
  have room : Operator.repeats e.stroke e.targetTip (max 1 k) < roomLimit := by
    have same : max 1 (max 1 k) = max 1 k := by omega
    by_contra long
    refine short ⟨e, there, k, length, ?_⟩
    simpa only [Operator.repeats, same, not_lt] using long
  rw [Edge.operator, length, Operator.lengthOfData]
  show (Operator.build _ _ _ _).isOk = true
  rw [Operator.build_ok room]
  rfl

theorem not_overlong (short : ∀ e ∈ d.edges, e.operator.isOk) : ¬ d.IsOverlong := by
  rintro ⟨e, there, k, length, long⟩
  have ok := short e there
  rw [Edge.operator, length, Operator.lengthOfData] at ok
  have room := Operator.room_of_build ok
  have same : max 1 (max 1 k) = max 1 k := by omega
  simp only [Operator.repeats, same] at room long
  exact absurd room (not_lt.mpr long)

theorem simple_parent (named : ∀ g ∈ d.subgraphs, g.id.isSimple) {parent : Value}
    (leads : parent ≠ .null → d.hasSubgraph parent) : parent.isSimple = true := by
  by_cases none_here : parent = .null
  · rw [none_here]
    rfl
  · obtain ⟨g, hg, rfl⟩ := hasSubgraph_iff.mp (leads none_here)
    exact named g hg

theorem classUse_texts (worded : d.Has .worded) {name id : Value} (use : (name, id) ∈ d.classUses) :
    name.isText ∧ id.isText := by
  rcases List.mem_append.mp use with use | use
  · obtain ⟨n, hn, use⟩ := List.mem_flatMap.mp use
    obtain ⟨_, hc, ⟨⟩⟩ := List.mem_map.mp use
    exact ⟨(worded.nodes n hn).classes _ hc, (worded.nodes n hn).id⟩
  · obtain ⟨e, he, use⟩ := List.mem_flatMap.mp use
    obtain ⟨_, hc, ⟨⟩⟩ := List.mem_map.mp use
    exact ⟨(worded.edges e he).classes _ hc, (worded.edges e he).id⟩

theorem line_isOk (integral : d.Integral) (worded : d.Has .worded) (short : ¬ d.IsOverlong)
    {w : Written} (told : d.Tells w) : w.line.isOk = true := by
  cases w with
  | node n =>
    have parent := simple_parent integral.simple (integral.nodeParent n told)
    rw [Written.line, Writing.checkIds_ok (by simpa using parent)]
    exact Writing.node_isOk (worded.nodes n told)
  | subgraph g =>
    have parent := simple_parent integral.simple (integral.subgraphParent g told)
    have members : ∀ m ∈ g.members, m.isSimple := by
      intro m hm
      obtain ⟨n, hn, rfl, _⟩ := (integral.members g told m).mp hm
      exact Value.isSimple_of_isText (worded.nodes n hn).id
    rw [Written.line, Writing.checkIds_ok (by simpa using parent), Writing.checkIds_ok members]
    obtain ⟨header, opened⟩ := isOk_iff.mp (Writing.subgraph_isOk (worded.subgraphs g told))
    rw [opened]
    rfl
  | edge e =>
    have there := worded.edges e told
    exact Writing.edge_isOk there (operator_isOk there told short)
  | define c =>
    exact isOk_bind (isOk_mapM fun v hv => Value.asText_isOk (worded.classes c told v hv))
      fun _ _ => rfl
  | assign ids name =>
    obtain ⟨⟨id, use⟩, all⟩ := told
    have simple := Value.isSimple_of_isText (classUse_texts worded use).1
    have texts := isOk_mapM fun v hv => Value.asText_isOk (classUse_texts worded (all v hv)).2
    obtain ⟨ts, texts⟩ := isOk_iff.mp texts
    rw [Written.line, Writing.checkIds_ok (by simpa using simple), texts]
    rfl
  | click id link tooltip target =>
    obtain ⟨n, hn, rfl, holds, rfl⟩ := told
    have node := worded.nodes n hn
    exact Writing.click_isOk id target (Value.isText_of_holds node.link holds) node.tooltip
  | _ => rfl

/-- A diagram whose references lead somewhere and whose words are texts can be written, unless an
edge is too long. -/
theorem write_isOk (integral : d.Integral) (worded : d.Has .worded) (short : ¬ d.IsOverlong)
    (layout : Layout) : (d.write layout).isOk = true := by
  refine isOk_bind (isOk_mapM fun w hw => ?_) fun _ _ => rfl
  exact isOk_bind (line_isOk integral worded short (states_layOut layout w hw).tells) fun _ _ => rfl

/-- Where words are texts, only an edge that is too long cannot be split. -/
theorem overlong_of_unsplittable (integral : d.Integral) (worded : d.Has .worded) {e : Edge}
    (there : e ∈ d.edges) {node : Value} (text : node.isText)
    (unsplittable : Edit.Unsplittable e node) : d.IsOverlong := by
  by_contra short
  have e_worded := worded.edges e there
  have ends : ∀ id, d.hasNode id → id.isText := by
    intro id known
    obtain ⟨n, hn, rfl⟩ := hasNode_iff.mp known
    exact (worded.nodes n hn).id
  have source := ends e.source (integral.source e there)
  have target := ends e.target (integral.target e there)
  have halves := Edit.generatedId_halves (operator_isOk e_worded there short)
    (Value.asText_isOk source) (Value.asText_isOk target) (Value.asText_isOk text) fun holds =>
      Value.asText_isOk (Value.isText_of_holds e_worded.text holds)
  rcases unsplittable with complex | ⟨taken, f, failed | failed⟩
  · rw [Value.isSimple_of_isText e_worded.id] at complex
    cases complex
  · have made := (halves taken).1
    rw [failed] at made
    cases made
  · have made := (halves taken).2
    rw [failed] at made
    cases made

/-! ### Positions -/

/-- The diagram with its nodes at other positions. -/
def moved (d : Diagram) (f : Node → Option Position) : Diagram :=
  { d with nodes := d.nodes.map fun n => { n with position := f n } }

theorem sameLines_moved (f : Node → Option Position) (ns : List Node) (depth : Nat) :
    List.Forall₂ SameLine ((ns.map fun n => { n with position := f n }).map fun n =>
      (depth, .node n)) (ns.map fun n => (depth, .node n)) := by
  rw [List.map_map, List.forall₂_map_left_iff, List.forall₂_map_right_iff, List.forall₂_same]
  exact fun n _ => ⟨rfl, rfl⟩

theorem nodesOf_moved (f : Node → Option Position) (g : Subgraph) :
    (d.moved f).nodesOf g = (d.nodesOf g).map fun n => { n with position := f n } := by
  have found : ∀ id, (d.moved f).node? id =
      (d.node? id).map fun n => { n with position := f n } := fun id =>
    Keyed.find?_map (f := fun n : Node => ({ n with position := f n } : Node)) (fun _ => rfl) id d.nodes
  simp only [nodesOf, List.map_append, List.map_filterMap, found]
  refine congrArg₂ (· ++ ·) ?_ ?_
  · exact List.filterMap_congr fun id _ => Option.filter_map ..
  · exact List.filter_map ..

theorem sameLines_blockOf (f : Node → Option Position) {levels depth : Nat} {g : Subgraph} :
    List.Forall₂ SameLine ((d.moved f).blockOf levels depth g) (d.blockOf levels depth g) := by
  induction levels generalizing g depth with
  | zero => exact .nil
  | succ levels ih =>
    have same : ∀ ws : List (Nat × Written), List.Forall₂ SameLine ws ws := fun _ =>
      List.forall₂_same.mpr fun _ _ => ⟨rfl, rfl⟩
    have nodes := sameLines_moved f (d.nodesOf g) (depth + 1)
    rw [← nodesOf_moved] at nodes
    have children : List.Forall₂ SameLine
        ((d.childrenOf g.id).flatMap ((d.moved f).blockOf levels (depth + 1)))
        ((d.childrenOf g.id).flatMap (d.blockOf levels (depth + 1))) :=
      sameLines_flatMap fun _ _ => ih
    exact List.rel_append (List.rel_append (List.rel_append (same _) nodes) children) (same _)

/-- Positions are not written. -/
theorem write_moved (f : Node → Option Position) (layout : Layout) :
    (d.moved f).write layout = d.write layout := by
  have outside := sameLines_moved f (d.nodes.filter fun n => d.isOutside n.parent) 1
  have kept : (d.moved f).nodes.filter (fun n => d.isOutside n.parent) =
      (d.nodes.filter fun n => d.isOutside n.parent).map fun n => { n with position := f n } :=
    List.filter_map ..
  rw [← kept] at outside
  have blocks : List.Forall₂ SameLine (d.moved f).blocks d.blocks :=
    sameLines_flatMap fun g _ => sameLines_blockOf f
  have uses : (d.moved f).classUses = d.classUses :=
    congrArg (· ++ _) (List.flatMap_map ..)
  have classes : (d.moved f).classLines = d.classLines := by
    rw [classLines, classLines, uses]
    rfl
  have styles : (d.moved f).styleLines = d.styleLines :=
    congrArg (· ++ _) (List.filterMap_map ..)
  have clicks : (d.moved f).clickLines = d.clickLines := List.filterMap_map ..
  have same : ∀ ws : List (Nat × Written), List.Forall₂ SameLine ws ws := fun _ =>
    List.forall₂_same.mpr fun _ _ => ⟨rfl, rfl⟩
  refine write_congr ?_
  rw [layOut, layOut, classes, styles, clicks]
  exact List.rel_append (List.rel_append (List.rel_append (List.rel_append (List.rel_append
    (List.rel_append (List.rel_append (same _) outside) blocks) (same _)) (same _)) (same _))
    (same _)) (same _)

/-- The diagrams have the same edges, and they are written alike. -/
structure LooksLike (d d' : Diagram) : Prop where
  edges : d'.edges = d.edges
  write : ∀ layout, d'.write layout = d.write layout

theorem LooksLike.refl (d : Diagram) : d.LooksLike d := ⟨rfl, fun _ => rfl⟩

theorem looksLike_of_eq {d' : Diagram} (same : d' = d) : d.LooksLike d' := same ▸ .refl d

theorem looksLike_positioned (d : Diagram) (id : Value) (p : Position) :
    d.LooksLike (d.positioned id p) := by
  have same : d.positioned id p = d.moved fun n => if n.id = id then some p else n.position := by
    refine congrArg (fun nodes => { d with nodes }) (List.map_congr_left fun n _ => ?_)
    by_cases here : n.id = id <;> simp [here]
  rw [same]
  exact ⟨rfl, write_moved _⟩

theorem looksLike_positionedAll (d : Diagram) (ps : Places) : d.LooksLike (d.positionedAll ps) := by
  refine List.foldlRecOn (motive := d.LooksLike) ps _ (.refl d) fun d' like q _ => ?_
  have placed := looksLike_positioned d' q.1 q.2
  exact ⟨placed.edges.trans like.edges, fun layout => (placed.write layout).trans (like.write layout)⟩

theorem LooksLike.overlong {d' : Diagram} (like : d.LooksLike d') (long : d.IsOverlong) :
    d'.IsOverlong := by
  rw [IsOverlong, like.edges]
  exact long

end Diagram

/-! ### Reading and placing -/

theorem Value.isWord_textOr (t : Option Text) {before : Value} (h : before.isWord) :
    (Reading.textOr t before).isWord = true := by
  cases t with
  | none => exact h
  | some t => rfl

theorem Reading.texts_addClasses (names : List Text) {classes : List Value}
    (h : ∀ c ∈ classes, c.isText) : ∀ c ∈ addClasses names classes, c.isText := by
  refine List.foldlRecOn (motive := fun cs : List Value => ∀ c ∈ cs, c.isText) _ _ h fun cs texts c hc => ?_
  obtain ⟨name, _, rfl⟩ := List.mem_map.mp hc
  split
  · exact texts
  · intro c hc
    rcases List.mem_append.mp hc with hc | hc
    · exact texts c hc
    · rw [List.mem_singleton.mp hc]
      rfl

theorem Trait.readable_worded : Readable .worded where
  node _ _ _ _ _ := ⟨rfl, rfl, rfl, rfl, rfl, rfl, by simp⟩
  becomes {n m} becomes h := by
    cases becomes with
    | met text shape parent told asked =>
      rcases told with rfl | ⟨t, rfl⟩
      · exact { h with }
      · exact { h with text := rfl }
    | withProperties properties made =>
      simp only [Reading.withProperties, bind_eq_ok, pure_eq_ok] at made
      obtain ⟨_, _, _, _, rfl⟩ := made
      exact { h with
        icon := Value.isWord_textOr _ h.icon
        image := Value.isWord_textOr _ h.image
        tooltip := Value.isWord_textOr _ h.tooltip }
    | withClasses names => exact { h with classes := Reading.texts_addClasses names h.classes }
    | withStyle declared made =>
      simp only [Reading.withStyle, bind_eq_ok, pure_eq_ok] at made
      obtain ⟨_, _, rfl⟩ := made
      exact { h with }
    | withLink link tooltip target told =>
      rcases told with rfl | ⟨t, rfl⟩
      · exact { h with link := rfl }
      · exact { h with link := rfl, tooltip := rfl }
  drawn _ _ _ _ _ text := ⟨rfl, by cases text <;> rfl, rfl, by simp [Diagram.drawn]⟩
  changes {e f} becomes h := by
    cases becomes with
    | withProperties body made =>
      simp only [Reading.withEdgeProperties, bind_eq_ok, pure_eq_ok] at made
      obtain ⟨_, _, rfl⟩ := made
      exact { h with }
    | withClasses names => exact { h with classes := Reading.texts_addClasses names h.classes }
    | withStyle declared made =>
      simp only [Reading.withEdgeStyle, bind_eq_ok, pure_eq_ok] at made
      obtain ⟨_, _, rfl⟩ := made
      exact { h with }
  opened _ _ _ := ⟨rfl, rfl⟩
  turned _ _ h := { h with }
  defined _ _ _ h := by
    refine Keyed.forall_mem_put (fun v hv => ?_) h
    obtain ⟨t, _, rfl⟩ := List.mem_map.mp hv
    rfl

namespace Diagram
variable {d : Diagram}

theorem Has.settle_worded (h : d.Has .worded) : d.settle.Has .worded := by
  refine ⟨fun n' hn => ?_, fun e' he => ?_, fun g' hg => ?_, h.classes⟩
  · obtain ⟨n, there, rfl⟩ := List.mem_map.mp hn
    have node := h.nodes n there
    unfold settleNode
    split <;> exact { node with }
  · obtain ⟨e, there, rfl⟩ := List.mem_map.mp he
    have edge := h.edges e there
    exact { edge with }
  · obtain ⟨g, there, rfl⟩ := List.mem_map.mp hg
    obtain ⟨id, title⟩ := h.subgraphs g there
    exact ⟨id, Value.isText_orElse (Value.isWord_of_isText title) id⟩

/-- All words of a diagram that is read are texts. -/
theorem worded_read {text : Text} (read : Diagram.read text = .ok d) : d.Has .worded := by
  obtain ⟨q, worded, rfl⟩ := has_read Trait.readable_worded read
  exact worded.settle_worded

end Diagram

theorem Trait.tabled_worded : Tabled fun _ => .worded where
  forgets _ h := h
  moves id p h := by
    refine ⟨fun n' hn => ?_, h.edges, h.subgraphs, h.classes⟩
    obtain ⟨n, there, rfl⟩ := List.mem_map.mp hn
    have node := h.nodes n there
    split <;> exact { node with }
  settles h := h.settle_worded
  halves he hn _ := ⟨⟨rfl, he.text, he.length, he.classes⟩, rfl, rfl, he.length, he.classes⟩

end Flowchart
