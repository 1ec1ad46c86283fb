import Flowchart.Proofs.Attributes

/-! Diagrams that can be written with all that they say, and what is read of them again. Nodes come
back with their properties and their links, edges under the ids that their lines ask for, as far as
these are free; and what is said of an id afterwards goes to the edge that has it by then. -/
namespace Flowchart
open Text

/-! ### What can be written and read again -/

/-- The node can be written with all that is said of it, and read again. -/
structure Node.Legible (n : Node) : Prop extends n.Writable where
  classes : ∀ c ∈ n.classes, ∃ name, c = .text name ∧ ListName name
  listed : n.classes ≠ [] → ∃ t, n.id = .text t ∧ Item t
  style : ∀ s, n.visible = some s → s.Writable
  link : n.link.holds → n.Clickable

/-- The edge can be written with all that is said of it, and read again. -/
structure Edge.Legible (e : Edge) : Prop where
  drawn : e.drawn.Writable
  short : e.operator.isOk
  animation : e.animation.holds → e.animation.IsPlain
  classes : ∀ c ∈ e.classes, ∃ name, c = .text name ∧ ListName name
  style : ∀ s, e.visible = some s → s.Writable

/-- Everything in the diagram can be written and read again, and there are no more edges than can be
counted if one of them has a style. -/
structure Diagram.Legible (d : Diagram) : Prop where
  nodes : ∀ n ∈ d.nodes, n.Legible
  edges : ∀ e ∈ d.edges, e.Legible
  subgraphs : ∀ g ∈ d.subgraphs, g.Writable
  classes : ∀ c ∈ d.classes, c.2 ≠ [] → StyleClass.Writable c
  counted : ∀ e ∈ d.edges, e.visible.isSome → (d.edges.length : Int) < countLimit

theorem Item.of_tag {t : Text} (h : Chain.Tag t) : Item t := by
  have marks : ∀ c ∈ ['%', ',', ';'], isWordOrHyphen c = false := by decide
  refine .of_chars h.1 fun c hc => ⟨isBlank_of_isWordOrHyphen (h.2 c hc), fun mark => ?_⟩
  exact absurd (h.2 c hc) (by simp [marks c mark])

theorem NodeId.word {id : Text} (h : NodeId id) : Word id := ⟨h.inline, h.some_text, h.isBlank⟩

/-! ### Edges that are drawn again -/

namespace Edge
variable {es : List Edge}

/-- Edges between nodes that are there are drawn again, each under the id that its line asks for, if
the id is free. -/
theorem leads_redrawn {v : View} (h : ∀ e ∈ es, e.drawn.Writable ∧ e.operator.isOk ∧ e.Joins v)
    (outside : v.opened = []) :
    Leads (es.map .edge) v (v.drew (allRedrawn v.edgeIds (es.map drawn))) := by
  induction es generalizing v with
  | nil => simpa [allRedrawn] using Leads.nil v
  | cons e es ih =>
    obtain ⟨writable, short, joins⟩ := h e List.mem_cons_self
    have first := (leads_edge writable ⟨joins.source, joins.target⟩ outside).of_line
      (t := .edge e) (edge_drawn short)
    have rest := ih
      (v := v.drew [e.drawn.redrawn (EdgeId.distinct e.drawn.asked v.edgeIds)]) (fun f hf => by
        obtain ⟨writable, short, joins⟩ := h f (List.mem_cons_of_mem e hf)
        exact ⟨writable, short, joins.source, joins.target⟩) outside
    rw [View.drew_drew, View.edgeIds_drew rfl] at rest
    exact first.cons rest

theorem asked_mem_allRedrawn {taken : List Text} {e : Edge} (he : e ∈ es) :
    Value.text e.asked ∈ taken.map Value.text ++ (allRedrawn taken es).map Edge.id := by
  induction es generalizing taken with
  | nil => cases he
  | cons f es ih =>
    rw [allRedrawn, List.map_cons]
    rcases List.mem_cons.mp he with rfl | he
    -- it is taken already, or the edge gets it
    · by_cases old : e.asked ∈ taken
      · exact List.mem_append_left _ (List.mem_map_of_mem old)
      · rw [EdgeId.distinct_eq_self old]
        exact List.mem_append_right _ List.mem_cons_self
    · have later := @ih (taken ++ [EdgeId.distinct f.asked taken]) he
      rw [List.map_append, List.append_assoc] at later
      exact later

/-- Edges are drawn again as they were, but for their ids. -/
theorem redrawn_allRedrawn (taken : List Text) (es : List Edge) :
    List.Forall₂ (fun e f => ∃ id, f = e.redrawn id) es (allRedrawn taken es) := by
  induction es generalizing taken with
  | nil => exact .nil
  | cons e es ih => exact .cons ⟨_, rfl⟩ (ih _)

theorem take_allRedrawn (taken : List Text) (es : List Edge) (k : Nat) :
    (allRedrawn taken es).take k = allRedrawn taken (es.take k) := by
  induction es generalizing taken k with
  | nil => simp [allRedrawn]
  | cons e es ih =>
    cases k with
    | zero => rfl
    | succ k => exact congrArg (_ :: ·) (ih _ k)

theorem mem_allRedrawn {taken : List Text} {f : Edge} (hf : f ∈ allRedrawn taken es) :
    ∃ e ∈ es, ∃ used, f = e.redrawn (EdgeId.distinct e.asked used) := by
  induction es generalizing taken with
  | nil => cases hf
  | cons e es ih =>
    rcases List.mem_cons.mp hf with rfl | later
    · exact ⟨e, List.mem_cons_self, taken, rfl⟩
    · obtain ⟨e', he', used, same⟩ := ih later
      exact ⟨e', List.mem_cons_of_mem e he', used, same⟩

theorem bared_allRedrawn (taken : List Text) (es : List Edge) :
    (allRedrawn taken es).map bared = allRedrawn taken es := by
  induction es generalizing taken with
  | nil => rfl
  | cons e es ih => exact congrArg (_ :: ·) (ih _)

theorem settle_allRedrawn {taken : List Text} {es : List Edge} {f : Edge}
    (hf : f ∈ allRedrawn taken es) : Diagram.settleEdge f = f := by
  obtain ⟨e, _, used, rfl⟩ := mem_allRedrawn hf
  rfl

theorem animates_eq_self {e f : Edge} (nothing : Writing.edgeProperties e = []) :
    e.animates f = f := by
  obtain ⟨still, silent⟩ := List.append_eq_nil_iff.mp nothing
  rw [animates]
  split at still
  · cases still
  · rename_i unmoved
    unfold Value.ifHolds at silent
    split at silent
    · cases silent
    · rename_i unset
      rw [if_neg unmoved, if_neg unset]

theorem needsId_of_properties {e : Edge} (some_property : e.properties ≠ []) :
    Writing.needsId e = true := by
  by_contra free
  simp only [Writing.needsId, Bool.or_eq_true, not_or, Bool.not_eq_true] at free
  obtain ⟨⟨⟨_, still⟩, unset⟩, _⟩ := free
  have silent : e.animation.holds = false := by
    have null : e.animation = .null := Value.eq_null_of_isSome (by simpa using unset)
    rw [null]
    rfl
  simp [properties, still, silent] at some_property

end Edge

/-! ### The statements of a diagram -/

/-- A node with the link of this one, if it has one. -/
def Node.links (n m : Node) : Node := if n.link.holds then n.clicks m else m

@[simp] theorem Node.id_links (n m : Node) : (n.links m).id = m.id := by
  unfold links
  split <;> rfl

theorem Node.shape_links (n m : Node) : (n.links m).shape = m.shape := by
  unfold links
  split <;> rfl

/-- The node as its declaration and its link are read. -/
def Node.retold (n : Node) : Node := n.links n.told

namespace Diagram
variable {d : Diagram}

/-- The edges as their lines are read one after another. -/
def edgesRedrawn (d : Diagram) : List Edge := Edge.allRedrawn [] (d.edges.map Edge.drawn)

/-- An edge with the animation that is said of its id. -/
def animated (d : Diagram) (f : Edge) : Edge :=
  d.edges.foldl (fun f e => if f.id = e.id then e.animates f else f) f

/-- An edge with the classes that are given to its id. -/
def dressing (d : Diagram) (f : Edge) : Edge :=
  d.used.foldl (fun f c => f.dons (spareUses d.nodes d.classUses) c) f

/-- A node with the links that are said of its id. -/
def linked (d : Diagram) (m : Node) : Node :=
  d.nodes.foldl (fun m n => if m.id = n.id then n.links m else m) m

theorem dressing_eq (d : Diagram) (f : Edge) : d.dressing f = { f with
    classes := d.used.foldl (donned (spareUses d.nodes d.classUses) f.id) f.classes } := by
  have all (cs : List Value) (f : Edge) :
      cs.foldl (fun f c => f.dons (spareUses d.nodes d.classUses) c) f =
        { f with classes := cs.foldl (donned (spareUses d.nodes d.classUses) f.id) f.classes } := by
    induction cs generalizing f with
    | nil => rfl
    | cons c cs ih => exact ih _
  exact all d.used f

theorem settle_dressing {f : Edge} (settled : settleEdge f = f) :
    settleEdge (d.dressing f) = d.dressing f := by
  rw [dressing_eq]
  generalize d.used.foldl _ _ = classes
  exact congrArg (fun g : Edge => { g with classes }) settled

theorem animated_rest (d : Diagram) (f : Edge) : d.animated f = { f with
    animate := (d.animated f).animate, animation := (d.animated f).animation } := by
  refine List.foldlRecOn (motive := fun g : Edge => g = { f with
    animate := g.animate, animation := g.animation }) d.edges _ rfl fun g same e _ => ?_
  split
  · rw [Edge.animates, same]
  · exact same

theorem settle_animated {f : Edge} (settled : settleEdge f = f) :
    settleEdge (d.animated f) = d.animated f := by
  refine List.foldlRecOn (motive := fun g => settleEdge g = g) d.edges _ settled ?_
  intro g same e _
  split
  · rw [← same, Edge.animates]
    by_cases moves : e.animate.holds = true
    · rw [if_pos moves]
      rfl
    · rw [if_neg moves]
      rfl
  · exact same

namespace Legible

theorem forested (h : d.Legible) (integral : d.Integral) : d.Forested where
  toIntegral := integral
  writableNodes n hn := (h.nodes n hn).toWritable
  writableSubgraphs := h.subgraphs

theorem carries_drawing (h : d.Legible) (integral : d.Integral) :
    Carries ((d.outsideNodes.map .node ++ d.blocks.map (·.2)) ++ d.edges.map .edge)
      (· = { direction := d.direction })
      (View.Shows · (d.nodesInOrder.map Node.told) d.edgesRedrawn) := by
  have forested := h.forested integral
  let v := View.grow { direction := d.direction } d.nodesInOrder d.inOrder
  have forest : Leads (d.outsideNodes.map .node ++ d.blocks.map (·.2)) _ v :=
    forested.leads_forest d.direction
  have there : ∀ {id : Value}, d.hasNode id → id ∈ v.nodes.map Node.id := by
    intro id there
    rw [View.ids_nodes_grow]
    exact (integral.perm_nodes.map Node.id).mem_iff.mpr (Keyed.has_iff.mp there)
  have edges : Leads (d.edges.map .edge) v (v.drew d.edgesRedrawn) :=
    Edge.leads_redrawn (fun e he => ⟨(h.edges e he).drawn, (h.edges e he).short,
      there (integral.source e he), there (integral.target e he)⟩) rfl
  refine (forest.append edges).carries ⟨rfl, ?_, Edge.bared_allRedrawn ..⟩
  show ([] ++ d.nodesInOrder.map Node.told).map Node.bared = d.nodesInOrder.map Node.told
  rw [List.nil_append, List.map_map]
  apply List.map_congr_left
  intro n _
  show { n.told with classes := [], style := none } = n.told
  rw [Node.told, n.heard_rest]
  rfl

theorem carries_animations (h : d.Legible) {ns : List Node} {es : List Edge}
    (there : ∀ e ∈ d.edges, Writing.needsId e → e.id ∈ es.map Edge.id) :
    Carries ((d.edges.filter fun e => !(Writing.edgeProperties e).isEmpty).map .properties)
      (View.Shows · ns es) (View.Shows · ns (es.map d.animated)) := by
  have ids (e : Edge) (fs : List Edge) :
      (fs.map fun f => if f.id = e.id then e.animates f else f).map Edge.id = fs.map Edge.id := by
    rw [List.map_map]
    apply List.map_congr_left
    intro f _
    show Edge.id (if f.id = e.id then _ else _) = _
    split <;> rfl
  have whole : es.map d.animated =
      (d.edges.filter fun e => !(Writing.edgeProperties e).isEmpty).foldl
        (fun (fs : List Edge) e => fs.map fun f => if f.id = e.id then e.animates f else f) es := by
    rw [foldl_map_each fun (e f : Edge) => if f.id = e.id then e.animates f else f]
    apply List.map_congr_left
    intro f _
    rw [List.foldl_filter]
    apply List.foldl_ext _ _ _
    intro f e _
    by_cases nothing : Writing.edgeProperties e = []
    · simp only [Edge.animates_eq_self nothing, ite_self]
    · simp [nothing]
  rw [whole, List.map_eq_flatMap]
  refine .fold (P := fun fs v => View.Shows v ns fs)
    (I := fun fs : List Edge => fs.map Edge.id = es.map Edge.id) (fun e he fs same => ?_) rfl
  obtain ⟨he, given⟩ := List.mem_filter.mp he
  have legible := h.edges e he
  have some_property : e.properties ≠ [] := by
    simpa [e.edgeProperties_eq] using given
  have needs : Writing.needsId e = true := e.needsId_of_properties some_property
  refine ⟨carries_properties (legible.drawn.id needs) legible.animation some_property ?_,
    (ids e fs).trans same⟩
  rw [same]
  exact there e he needs

theorem names (h : d.Legible) {u : Value × Value} (hu : u ∈ d.classUses) :
    (∃ name, u.1 = .text name ∧ ListName name) ∧ ∃ i, u.2 = .text i ∧ Item i := by
  simp only [classUses, List.mem_append, List.mem_flatMap, List.mem_map] at hu
  rcases hu with ⟨n, hn, c, hc, rfl⟩ | ⟨e, he, c, hc, rfl⟩
  · exact ⟨(h.nodes n hn).classes c hc, (h.nodes n hn).listed (List.ne_nil_of_mem hc)⟩
  · have legible := h.edges e he
    have needs : Writing.needsId e = true := by
      simp [Writing.needsId, List.isEmpty_eq_false_iff.mpr (List.ne_nil_of_mem hc)]
    obtain ⟨t, same, tag⟩ := legible.drawn.id needs
    exact ⟨legible.classes c hc, t, same, .of_tag tag⟩

theorem carries_classes (h : d.Legible) {ns : List Node} {es : List Edge}
    (nodes : ∀ id, id ∈ ns.map Node.id ↔ id ∈ d.nodes.map Node.id) :
    Carries d.classLines (View.Shows · ns es) (View.Shows · ns (es.map d.dressing)) := by
  have defines : Carries ((d.classes.filter fun c => !c.2.isEmpty).map .define)
      (View.Shows · ns es) (View.Shows · ns es) := by
    apply Carries.all
    intro w hw
    obtain ⟨c, hc, rfl⟩ := List.mem_map.mp hw
    obtain ⟨hc, given⟩ := List.mem_filter.mp hc
    have some_style : c.2 ≠ [] := by simpa using given
    exact carries_define (h.classes c hc some_style) some_style
  have spare : spareUses d.nodes d.classUses = spareUses ns d.classUses := by
    apply List.filter_congr
    intro u _
    rw [decide_eq_decide, nodes]
  have whole : es.map d.dressing =
      d.used.foldl (fun fs c => fs.map (Edge.dons (spareUses ns d.classUses) c)) es := by
    rw [foldl_map_each fun c f => Edge.dons (spareUses ns d.classUses) c f, ← spare]
    rfl
  have assigns : Carries (d.used.map fun c =>
      .assign ((d.classUses.filter fun u => u.1 == c).map (·.2)) c) (View.Shows · ns es)
      (View.Shows · ns (es.map d.dressing)) := by
    rw [whole, List.map_eq_flatMap]
    refine .fold (P := fun fs v => View.Shows v ns fs) (I := fun _ => True)
      (fun c hc fs _ => ⟨?_, trivial⟩) trivial
    have used := List.mem_eraseDups.mp hc
    obtain ⟨is, some_id, items, users⟩ := exists_users (fun u hu => (h.names hu).2) used
    obtain ⟨u, hu, rfl⟩ := List.mem_map.mp used
    obtain ⟨name, same, listed⟩ := (h.names hu).1
    rw [same] at users ⊢
    exact carries_assign listed some_id items users
  exact defines.append assigns

theorem carries_styles (h : d.Legible) {ns : List Node} {es : List Edge} :
    Carries d.styleLines (View.Shows · ns es) (View.Shows · ns es) := by
  apply Carries.all
  intro w hw
  rcases List.mem_append.mp hw with hw | hw
  · obtain ⟨n, hn, seen⟩ := List.mem_filterMap.mp hw
    obtain ⟨s, visible, rfl⟩ := Option.map_eq_some_iff.mp seen
    obtain ⟨i, hi, name⟩ := (h.nodes n hn).id
    have plain : s.isPlain = false := by simpa using (Option.filter_eq_some_iff.mp visible).2
    rw [hi]
    exact carries_style name.word ((h.nodes n hn).style s visible) plain
  · obtain ⟨⟨e, place⟩, he, seen⟩ := List.mem_filterMap.mp hw
    obtain ⟨s, visible, rfl⟩ := Option.map_eq_some_iff.mp seen
    have plain : s.isPlain = false := by simpa using (Option.filter_eq_some_iff.mp visible).2
    obtain ⟨_, below, same⟩ := List.mem_zipIdx he
    rw [Nat.zero_add] at below
    have here : e ∈ d.edges := List.fst_mem_of_mem_zipIdx he
    have counted := h.counted e here (Option.isSome_iff_exists.mpr ⟨s, visible⟩)
    exact carries_linkStyle ((h.edges e here).style s visible) plain (short_place (by omega))

theorem carries_links (h : d.Legible) {ns : List Node} {es : List Edge}
    (nodes : ∀ id, id ∈ ns.map Node.id ↔ id ∈ d.nodes.map Node.id) :
    Carries d.clickLines (View.Shows · ns es) (View.Shows · (ns.map d.linked) es) := by
  have ids (n : Node) (ms : List Node) :
      (ms.map fun m => if m.id = n.id then n.links m else m).map Node.id = ms.map Node.id := by
    rw [List.map_map]
    apply List.map_congr_left
    intro m _
    show Node.id (if m.id = n.id then _ else _) = _
    split
    · exact n.id_links m
    · rfl
  have whole : ns.map d.linked = d.nodes.foldl
      (fun (ms : List Node) n => ms.map fun m => if m.id = n.id then n.links m else m) ns := by
    rw [foldl_map_each fun (n m : Node) => if m.id = n.id then n.links m else m]
    rfl
  rw [whole, clickLines, List.filterMap_eq_flatMap_toList]
  refine .fold (P := fun ms v => View.Shows v ms es)
    (I := fun ms : List Node => ms.map Node.id = ns.map Node.id) (fun n hn ms same => ?_) rfl
  refine ⟨?_, (ids n ms).trans same⟩
  obtain ⟨i, hi, name⟩ := (h.nodes n hn).id
  by_cases holds : n.link.holds = true
  · have there : n.id ∈ ms.map Node.id := by
      rw [same, nodes]
      exact List.mem_map_of_mem hn
    simp only [Value.ifHolds, Node.links, if_pos holds]
    exact carries_click ((h.nodes n hn).link holds) hi name.word there
  · simp only [Value.ifHolds, Node.links, if_neg holds, ite_self, List.map_id']
    exact .nil

theorem mem_ids (integral : d.Integral) (id : Value) :
    id ∈ (d.nodesInOrder.map Node.told).map Node.id ↔ id ∈ d.nodes.map Node.id := by
  have ids : (d.nodesInOrder.map Node.told).map Node.id = d.nodesInOrder.map Node.id := by
    simp [Node.told, Function.comp_def]
  rw [ids]
  exact (integral.perm_nodes.map Node.id).mem_iff

theorem id_mem_edgesRedrawn (h : d.Legible) {e : Edge} (he : e ∈ d.edges)
    (needs : Writing.needsId e = true) : e.id ∈ d.edgesRedrawn.map Edge.id := by
  have there : e.drawn ∈ d.edges.map Edge.drawn := List.mem_map_of_mem he
  have asked := @Edge.asked_mem_allRedrawn _ [] _ there
  rwa [← Edge.id_eq_asked (h.edges e he).drawn needs] at asked

/-- The link of a node goes to the node, and to no other one. -/
theorem linked_told (integral : d.Integral) {n : Node} (hn : n ∈ d.nodes) :
    d.linked n.told = n.retold :=
  foldl_at Node.id Node.id Node.links (fun n m => n.id_links m) integral.distinct.nodes hn
    n.heard_id

theorem nodes_linked (integral : d.Integral) :
    (d.nodesInOrder.map Node.told).map d.linked = d.nodesInOrder.map Node.retold := by
  rw [List.map_map]
  exact List.map_congr_left fun n hn => linked_told integral (integral.perm_nodes.mem_iff.mp hn)

theorem carries_body (h : d.Legible) (integral : d.Integral) :
    Carries ((d.body {}).map (·.2)) (· = { direction := d.direction })
      (View.Shows · (d.nodesInOrder.map Node.retold)
        (d.edgesRedrawn.map fun f => d.dressing (d.animated f))) := by
  have classes (es : List Edge) : Carries d.classLines
      (View.Shows · (d.nodesInOrder.map Node.told) es)
      (View.Shows · (d.nodesInOrder.map Node.told) (es.map d.dressing)) :=
    h.carries_classes (mem_ids integral)
  have links (es : List Edge) : Carries d.clickLines
      (View.Shows · (d.nodesInOrder.map Node.told) es)
      (View.Shows · (d.nodesInOrder.map Node.retold) es) := by
    rw [← nodes_linked integral]
    exact h.carries_links (mem_ids integral)
  have whole : d.edgesRedrawn.map (fun f => d.dressing (d.animated f)) =
      (d.edgesRedrawn.map d.animated).map d.dressing := by
    rw [List.map_map]
    rfl
  rw [statements_body, whole]
  exact ((((h.carries_drawing integral).append
    (h.carries_animations fun e he needs => h.id_mem_edgesRedrawn he needs)).append
      (classes _)).append h.carries_styles).append (links _)

end Legible

theorem settle_bared {v : View} {ns : List Node} {es : List Edge} (shows : v.Shows ns es)
    (named : ∀ n ∈ ns, n.shape.name ≠ []) (settled : ∀ e ∈ es, settleEdge e = e) :
    v.toDiagram.settle.nodes.map Node.bared = ns ∧
      v.toDiagram.settle.edges.map Edge.bared = es := by
  constructor
  · rw [← shows.nodes]
    show (v.nodes.map settleNode).map Node.bared = _
    rw [List.map_map]
    apply List.map_congr_left
    intro n hn
    have name : n.shape.name ≠ [] := named n.bared (shows.nodes ▸ List.mem_map_of_mem hn)
    rw [Function.comp_apply, settleNode, if_neg name]
  · rw [← shows.edges]
    show (v.edges.map settleEdge).map Edge.bared = _
    rw [List.map_map]
    apply List.map_congr_left
    intro e he
    have same : settleEdge e.bared = e.bared :=
      settled e.bared (shows.edges ▸ List.mem_map_of_mem he)
    exact same

namespace Legible

theorem exists_node (integral : d.Integral) {d' : Diagram}
    (nodes : d'.nodes.map Node.bared = d.nodesInOrder.map Node.retold) {n : Node}
    (hn : n ∈ d.nodes) :
    ∃ m, d'.node? n.id = some m ∧ m.bared = n.retold := by
  have retold : ∀ n : Node, Keyed.key n.retold = Keyed.key n := fun n =>
    (n.id_links n.told).trans n.heard_id
  have found : Keyed.find? n.id (d'.nodes.map Node.bared) = some n.retold := by
    have own : Keyed.find? n.id d.nodes = some n :=
      (Keyed.find?_eq_some_iff integral.distinct.nodes).mpr ⟨hn, rfl⟩
    rw [nodes, Keyed.find?_map retold, nodesInOrder,
      Keyed.find?_perm integral.perm_nodes integral.distinct.nodes, own]
    rfl
  rw [Keyed.find?_map (f := Node.bared) fun _ => rfl] at found
  exact Option.map_eq_some_iff.mp found

/-- Reading what is written of the diagram gives the nodes and the edges as their statements tell
them. -/
theorem read_write (h : d.Legible) (integral : d.Integral) :
    ∃ s d', d.write {} = .ok s ∧ Diagram.read s = .ok d' ∧
      (∀ n ∈ d.nodes, ∃ m, d'.node? n.id = some m ∧ m.bared = n.retold) ∧
      d'.edges.map Edge.bared = d.edgesRedrawn.map fun f => d.dressing (d.animated f) := by
  obtain ⟨s, v, written, read, shows⟩ := read_carried (by decide) (h.carries_body integral)
  have named : ∀ m ∈ d.nodesInOrder.map Node.retold, m.shape.name ≠ [] := by
    intro m hm
    obtain ⟨n, hn, rfl⟩ := List.mem_map.mp hm
    have shape : n.retold.shape = n.shape := (n.shape_links n.told).trans n.heard_shape
    rw [shape]
    exact (h.nodes n (integral.perm_nodes.mem_iff.mp hn)).shapeName.some_text
  obtain ⟨nodes, edges⟩ := settle_bared shows named fun g hg => by
    obtain ⟨f, hf, rfl⟩ := List.mem_map.mp hg
    exact settle_dressing (settle_animated (Edge.settle_allRedrawn hf))
  exact ⟨s, _, written, read, fun n hn => exists_node integral nodes hn, edges⟩

end Legible

section Told
variable {d' : Diagram}

theorem ids_told
    (told : d'.edges.map Edge.bared = d.edgesRedrawn.map fun f => d.dressing (d.animated f)) :
    d'.edges.map Edge.id = d.edgesRedrawn.map Edge.id := by
  have bared : d'.edges.map Edge.id = (d'.edges.map Edge.bared).map Edge.id := by
    rw [List.map_map]
    rfl
  rw [bared, told, List.map_map]
  apply List.map_congr_left
  intro f _
  rw [Function.comp_apply, dressing_eq, animated_rest]

/-- Each edge is what its line makes of it, but for what is said of its id or its place. -/
theorem edges_told
    (told : d'.edges.map Edge.bared = d.edgesRedrawn.map fun f => d.dressing (d.animated f)) :
    List.Forall₂ (fun e f => ∃ id, f = { e.drawn.redrawn id with
        style := f.style, classes := f.classes, animate := f.animate, animation := f.animation })
      d.edges d'.edges := by
  have lines := Edge.redrawn_allRedrawn [] (d.edges.map Edge.drawn)
  rw [List.forall₂_map_left_iff] at lines
  have whole : List.Forall₂
      (fun e f => ∃ id, f = d.dressing (d.animated (Edge.redrawn (Edge.drawn e) id))) d.edges
      (d'.edges.map Edge.bared) := by
    rw [told, List.forall₂_map_right_iff]
    refine lines.imp ?_
    rintro e f ⟨id, same⟩
    exact ⟨id, by rw [same]⟩
  rw [List.forall₂_map_right_iff] at whole
  refine whole.imp ?_
  rintro e f ⟨id, same⟩
  rw [dressing_eq, animated_rest] at same
  have rest := congrArg (fun g : Edge => { g with
    style := f.style, classes := f.classes, animate := f.animate, animation := f.animation }) same
  exact ⟨id, rest⟩

end Told

/-- A node with properties, and an edge to a node with a class and a link. -/
def adornedText : Text :=
  "flowchart LR\n    A@\x7b shape: my-shape, icon: \"a, b\", form: round, w: 40, ".toList ++
  "tooltip: \"#quot;hi#quot;\" \x7d\n    B:::hot\n    A e1@--> B\n".toList ++
  "    e1@\x7b animation: slow \x7d\n    click B \"u\" \"tip\" _blank\n".toList

/-- What is read of them. -/
def adorned : Diagram where
  direction := .lr
  nodes := [
    { id := .text "A", text := .text "A", shape := Shape.resolve "my-shape", icon := .text "a, b"
      form := .text "round", width := .number (.int 40), tooltip := .text "\"hi\"" },
    { id := .text "B", text := .text "B", classes := [.text "hot"], link := .text "u"
      tooltip := .text "tip", linkTarget := .text "_blank" }]
  edges := [{
    id := .text "e1", source := .text "A", target := .text "B", animation := .text "slow"
    named := .bool true }]

theorem read_adornedText : Diagram.read adornedText = .ok adorned := by decide +kernel

theorem legible_adorned : adorned.Legible where
  nodes n hn := by
    have fed {t : Text} (feeds : OnlyFeeds t) : (Value.text t).IsFed := ⟨t, rfl, feeds⟩
    simp only [adorned, List.mem_cons, List.not_mem_nil, or_false] at hn
    rcases hn with rfl | rfl
    · have round : (Value.text "round").IsPlain := plainValue_of_chars (by decide) (by decide)
      have width : (Value.number (.int 40)).IsExtent :=
        ⟨plainValue_of_chars (by decide) (by decide), by decide⟩
      exact {
        id := ⟨_, rfl, PlainId.nodeId ⟨by decide, by decide, by decide⟩⟩
        text := fed (by decide)
        shape := Shape.resolve_name_resolve "my-shape"
        shapeName := plainValue_of_chars (by decide) (by decide)
        pictures := by
          simp only [Writing.pictures, List.forall_mem_cons]
          exact ⟨fun _ => fed (by decide), by simp [Value.holds], by simp⟩
        placements := by
          simp only [Writing.placements, List.forall_mem_cons]
          exact ⟨fun _ => round, by simp [Value.holds], by simp⟩
        extents := by
          simp only [Writing.extents, List.forall_mem_cons]
          exact ⟨fun _ => width, by simp [Value.isSome], by simp⟩
        tooltip := fun _ => fed (by decide)
        classes := by simp
        listed := fun given => absurd rfl given
        style := by simp [Node.visible]
        link := by simp [Value.holds] }
    · have id : PlainId "B".toList := ⟨by decide, by decide, by decide⟩
      have hot : ListName "hot".toList := HyphenatedWord.listName ⟨by decide, by decide⟩
      have tip : Inline "tip".toList := .of_chars (by decide)
      exact {
        id := ⟨_, rfl, id.nodeId⟩
        text := fed (by decide)
        shape := Shape.resolve_name (by decide)
        shapeName := plainValue_of_chars (by decide) (by decide)
        pictures := by simp [Writing.pictures, Value.holds]
        placements := by simp [Writing.placements, Value.holds]
        extents := by simp [Writing.extents, Value.isSome]
        tooltip := by simp [Writing.hasOwnTooltip, Value.isSome]
        classes := fun c hc => ⟨_, List.mem_singleton.mp hc, hot⟩
        listed := fun _ => ⟨_, rfl, id.hyphenated.listName.toItem⟩
        style := by simp [Node.visible]
        link := fun _ => {
          url := ⟨_, rfl, .of_chars (by decide), by decide⟩
          tooltip := Or.inr ⟨_, _, rfl, tip, rfl⟩
          target := Or.inr ⟨_, by decide, rfl⟩ } }
  edges e he := by
    obtain rfl := List.mem_singleton.mp he
    exact {
      drawn := {
        source := ⟨_, rfl, PlainId.nodeId ⟨by decide, by decide, by decide⟩⟩
        target := ⟨_, rfl, PlainId.nodeId ⟨by decide, by decide, by decide⟩⟩
        text := Or.inl rfl
        length := ⟨1, rfl, by decide, by decide⟩
        tips := fun hidden => absurd hidden (by decide)
        id := fun _ => ⟨_, rfl, by decide, by decide⟩ }
      short := by decide
      animation := fun _ => plainValue_of_chars (by decide) (by decide)
      classes := by simp
      style := by simp [Edge.visible] }
  subgraphs := by simp [adorned]
  classes := by simp [adorned]
  counted := by simp [adorned, Edge.visible]

end Diagram
end Flowchart
