import Flowchart.Proofs.EdgeId
import Flowchart.Proofs.Integrity
import Flowchart.Proofs.Results
import Flowchart.Source.Reading

/-! Integrity of what is read. Every statement keeps it: nodes join the subgraph that is open,
edges are drawn only between nodes that were met, and a new subgraph is opened inside one that
exists. -/
namespace Flowchart

namespace Reading

/-- The diagram is integral, what is open exists, nodes can be looked up, and edges have ids. -/
structure Sound (r : Reading) : Prop where
  integral : r.diagram.Integral
  opened : ∀ id ∈ r.opened, r.diagram.hasSubgraph (.text id)
  simple : ∀ n ∈ r.diagram.nodes, n.id.isSimple
  identified : ∀ e ∈ r.diagram.edges, e.id.holds

/-- The reading goes on from one to another: integral still, with at least the same nodes. -/
structure Grows (r r' : Reading) : Prop where
  sound : r'.Sound
  nodes : ∀ id, r.diagram.hasNode id → r'.diagram.hasNode id

variable {r r' r'' : Reading}

theorem Grows.refl (h : r.Sound) : Grows r r := ⟨h, fun _ => id⟩

theorem Grows.trans (h : Grows r r') (h' : Grows r' r'') : Grows r r'' :=
  ⟨h'.sound, fun id there => h'.nodes id (h.nodes id there)⟩

theorem Sound.note (h : r.Sound) (n : Note) : (r.note n).Sound :=
  ⟨h.integral, h.opened, h.simple, h.identified⟩

theorem grows_note (h : r.Sound) (n : Note) : Grows r (r.note n) := ⟨h.note n, fun _ => id⟩

theorem hasNode_putNode (r : Reading) (n : Node) {id : Value} :
    (r.putNode n).diagram.hasNode id ↔ id = n.id ∨ r.diagram.hasNode id := by
  rw [Diagram.hasNode, Diagram.hasNode, Keyed.has_iff, Keyed.has_iff]
  exact Keyed.mem_keys_put

theorem Sound.simple_put (h : r.Sound) {n : Node} (simple : n.id.isSimple) :
    ∀ m ∈ Keyed.put n r.diagram.nodes, m.id.isSimple := by
  intro m hm
  rcases Keyed.mem_put hm with rfl | old
  · exact simple
  · exact h.simple m old

/-- A node that is there may change, but for its id and its parent. -/
theorem Sound.putNode (h : r.Sound) {n m : Node} {id : Value}
    (there : r.diagram.node? id = some m) (same : n.id = m.id) (parent : n.parent = m.parent) :
    Grows r (r.putNode n) := by
  have here : m.id = id := Keyed.key_of_find? there
  have simple : n.id.isSimple := same ▸ h.simple m (Keyed.mem_of_find? there)
  refine ⟨⟨h.integral.putNode (m := m) ?_ parent, h.opened, h.simple_put simple, h.identified⟩,
    fun id old => ?_⟩
  · rw [same, here]
    exact there
  · exact (hasNode_putNode r n).mpr (Or.inr old)

theorem Sound.identified_put (h : r.Sound) {e : Edge} (holds : e.id.holds) :
    ∀ f ∈ Keyed.put e r.diagram.edges, f.id.holds := by
  intro f hf
  rcases Keyed.mem_put hf with rfl | old
  · exact holds
  · exact h.identified f old

/-- An edge that is there may change, but for its id and its ends. -/
theorem Sound.putEdge (h : r.Sound) {e f : Edge} {id : Value}
    (there : r.diagram.edge? id = some f) (same : e.id = f.id) (source : e.source = f.source)
    (target : e.target = f.target) : Grows r (r.putEdge e) := by
  have hf : f ∈ r.diagram.edges := Keyed.mem_of_find? there
  have holds : e.id.holds := same ▸ h.identified f hf
  refine ⟨⟨h.integral.putEdge ?_ ?_, h.opened, h.simple, h.identified_put holds⟩, fun _ old => old⟩
  · rw [source]
    exact h.integral.source f hf
  · rw [target]
    exact h.integral.target f hf

/-- A node is placed, in an open subgraph or outside of all. -/
theorem Sound.placed (h : r.Sound) {n : Node} {r' : Reading} (simple : n.id.isSimple)
    (parent : n.parent ≠ .null → r.diagram.hasSubgraph n.parent)
    (diagram : r'.diagram = r.diagram.place n) (opened : r'.opened = r.opened) :
    Grows r r' ∧ r'.diagram.hasNode n.id := by
  have nodes : ∀ id, r'.diagram.hasNode id ↔ id = n.id ∨ r.diagram.hasNode id := by
    intro id
    rw [diagram]
    exact hasNode_putNode r n
  refine ⟨⟨⟨?_, fun id hid => ?_, ?_, ?_⟩, fun id old => (nodes id).mpr (Or.inr old)⟩,
    (nodes n.id).mpr (Or.inl rfl)⟩
  · rw [diagram]
    exact h.integral.place parent
  · rw [diagram, Diagram.hasSubgraph_congr (Diagram.nesting_place r.diagram n)]
    exact h.opened id (opened ▸ hid)
  · rw [diagram]
    exact h.simple_put simple
  · rw [diagram]
    exact h.identified

/-- A node that is new, or that is there with the same parent, is set where it belongs. -/
theorem Sound.joined (h : r.Sound) {n : Node} (simple : n.id.isSimple)
    (before : (r.diagram.node? n.id = none ∧ n.parent = .null) ∨
      ∃ m, r.diagram.node? n.id = some m ∧ n.parent = m.parent) :
    Grows r ((r.join n).1.putNode (r.join n).2) ∧
      ((r.join n).1.putNode (r.join n).2).diagram.hasNode n.id := by
  have unlisted : n.parent = .null → ∀ g ∈ r.diagram.subgraphs, n.id ∉ g.members := by
    refine fun none => h.integral.unlisted fun m hm same => ?_
    have found := (Keyed.find?_eq_some_iff h.integral.distinct.nodes).mpr ⟨hm, same⟩
    rcases before with ⟨fresh, _⟩ | ⟨m', there, parent⟩
    · exact absurd (found.symm.trans fresh) (by simp)
    · have : m = m' := Option.some.inj (found.symm.trans there)
      rw [this, ← parent, none]
  unfold join
  split
  · rename_i id opened none
    have there := h.opened id (List.mem_of_mem_head? opened)
    obtain ⟨g, found⟩ : ∃ g, r.diagram.subgraph? (.text id) = some g :=
      Option.isSome_iff_exists.mp (Keyed.isSome_find?.trans there)
    simp only [found]
    refine h.placed (n := { n with parent := .text id }) simple (fun _ => there) (.symm ?_) rfl
    refine (Diagram.place_unlisted (n := { n with parent := .text id }) (unlisted none)).trans ?_
    have listed := congrArg (fun d : Diagram => { d with
      nodes := Keyed.put { n with parent := .text id } r.diagram.nodes })
      (Diagram.put_enlist h.integral.distinct found n.id)
    refine Eq.trans ?_ listed.symm
    simp [Diagram.mapSubgraphs]
  · rcases before with ⟨fresh, none⟩ | ⟨m, there, parent⟩
    · refine h.placed simple (fun some_parent => absurd none some_parent) ?_ rfl
      rw [Diagram.place_unlisted (unlisted none)]
      exact (Diagram.mapSubgraphs_self fun g _ => by simp [none]).symm
    · refine ⟨h.putNode there (Keyed.key_of_find? there).symm parent, ?_⟩
      exact (hasNode_putNode r n).mpr (Or.inl rfl)

theorem Sound.meet (h : r.Sound) (id : Text) (text : Option Text) (shape : Option Shape) :
    Grows r (r.meet id text shape) ∧ (r.meet id text shape).diagram.hasNode (.text id) := by
  unfold Reading.meet
  cases found : r.diagram.node? (.text id) with
  | none => exact h.joined rfl (Or.inl ⟨found, rfl⟩)
  | some n =>
    have here : n.id = .text id := Keyed.key_of_find? found
    have same : r.diagram.node? n.id = some n := by rw [here]; exact found
    rw [← here]
    exact h.joined (h.simple n (Keyed.mem_of_find? found)) (Or.inr ⟨n, same, rfl⟩)

theorem withProperties_same {n m : Node} {properties : List (Text × Text)}
    (h : withProperties n properties = .ok m) : m.id = n.id ∧ m.parent = n.parent := by
  simp only [withProperties, bind_eq_ok, pure_eq_ok] at h
  obtain ⟨_, _, _, _, rfl⟩ := h
  exact ⟨rfl, rfl⟩

theorem Sound.meetNode (h : r.Sound) {s : Text} {found : Option Text} {r' : Reading}
    (read : r.meetNode s = .ok (found, r')) :
    Grows r r' ∧ ∀ id, found = some id → r'.diagram.hasNode (.text id) := by
  unfold Reading.meetNode at read
  split at read
  · rename_i id body _
    simp only [bind_eq_ok] at read
    obtain ⟨properties, _, read⟩ := read
    obtain ⟨grows, there⟩ := h.meet id ((Keyed.find? "label".toList properties).map (·.2))
      ((property? properties "shape").map Shape.resolve)
    split at read
    · rename_i n known
      simp only [bind_eq_ok, pure_eq_ok, Prod.mk.injEq] at read
      obtain ⟨m, extended, rfl, rfl⟩ := read
      obtain ⟨same, parent⟩ := withProperties_same extended
      have set := grows.sound.putNode known same parent
      refine ⟨grows.trans set, fun id' hid => ?_⟩
      cases hid
      exact set.nodes _ there
    · simp only [pure_eq_ok, Prod.mk.injEq] at read
      obtain ⟨rfl, rfl⟩ := read
      exact ⟨grows, fun id' hid => by cases hid; exact there⟩
  · split at read
    · rename_i id text shape _
      simp only [bind_eq_ok, pure_eq_ok, Prod.mk.injEq] at read
      obtain ⟨text, _, rfl, rfl⟩ := read
      obtain ⟨grows, there⟩ := h.meet id (some text) (some shape)
      exact ⟨grows, fun id' hid => by cases hid; exact there⟩
    · split at read
      · cases read
        obtain ⟨grows, there⟩ := h.meet s none none
        exact ⟨grows, fun id' hid => by cases hid; exact there⟩
      · cases read
        exact ⟨.refl h, fun id' hid => by cases hid⟩

theorem Sound.meetPiece (h : r.Sound) {piece : Text} {found : Option Text} {r' : Reading}
    (read : r.meetPiece piece = .ok (found, r')) :
    Grows r r' ∧ ∀ id, found = some id → r'.diagram.hasNode (.text id) := by
  simp only [Reading.meetPiece, bind_eq_ok] at read
  obtain ⟨⟨id?, q⟩, met, read⟩ := read
  obtain ⟨grows, there⟩ := h.meetNode met
  split at read
  · rename_i n known
    simp only [pure_eq_ok, Prod.mk.injEq] at read
    obtain ⟨rfl, rfl⟩ := read
    obtain ⟨id, _, known⟩ := Option.bind_eq_some_iff.mp known
    have set := grows.sound.putNode (n := { n with
      classes := addClasses (takeClasses piece.length piece).2 n.classes }) known rfl rfl
    exact ⟨grows.trans set, fun id hid => set.nodes _ (there id hid)⟩
  · simp only [pure_eq_ok, Prod.mk.injEq] at read
    obtain ⟨rfl, rfl⟩ := read
    exact ⟨grows, there⟩

theorem Sound.meetPieces (h : r.Sound) {pieces ids : List Text} {r' : Reading}
    (read : r.meetPieces pieces = .ok (ids, r')) :
    Grows r r' ∧ ∀ id ∈ ids, r'.diagram.hasNode (.text id) := by
  induction pieces generalizing r ids with
  | nil =>
    cases read
    exact ⟨.refl h, by simp⟩
  | cons piece pieces ih =>
    simp only [Reading.meetPieces, bind_eq_ok, pure_eq_ok, Prod.mk.injEq] at read
    obtain ⟨⟨id?, q⟩, met, ⟨ids, q'⟩, rest, rfl, rfl⟩ := read
    obtain ⟨grows, there⟩ := h.meetPiece met
    obtain ⟨grows', there'⟩ := ih grows.sound rest
    refine ⟨grows.trans grows', fun id hid => ?_⟩
    rcases List.mem_append.mp hid with hid | hid
    · exact grows'.nodes _ (there id (Option.mem_toList.mp hid))
    · exact there' id hid

theorem Sound.meetTexts (h : r.Sound) {line : Text} {texts : List Text}
    {groups : Option (List (List Text))} {r' : Reading}
    (read : r.meetTexts line texts = .ok (groups, r')) :
    Grows r r' ∧ ∀ gs, groups = some gs → ∀ ids ∈ gs, ∀ id ∈ ids,
      r'.diagram.hasNode (.text id) := by
  induction texts generalizing r groups with
  | nil =>
    cases read
    refine ⟨.refl h, fun gs hgs ids hids => ?_⟩
    cases hgs
    simp at hids
  | cons text texts ih =>
    simp only [Reading.meetTexts, bind_eq_ok] at read
    obtain ⟨⟨ids, q⟩, met, read⟩ := read
    obtain ⟨grows, there⟩ := h.meetPieces met
    split at read
    · simp only [pure_eq_ok, Prod.mk.injEq] at read
      obtain ⟨rfl, rfl⟩ := read
      exact ⟨grows.trans (grows_note grows.sound _), fun gs hgs => by cases hgs⟩
    · simp only [bind_eq_ok, pure_eq_ok, Prod.mk.injEq] at read
      obtain ⟨⟨rest, q'⟩, met', rfl, rfl⟩ := read
      obtain ⟨grows', there'⟩ := ih grows.sound met'
      refine ⟨grows.trans grows', fun gs hgs => ?_⟩
      obtain ⟨more, hmore, rfl⟩ := Option.map_eq_some_iff.mp hgs
      rintro group hgroup id hid
      rcases List.mem_cons.mp hgroup with rfl | hgroup
      · exact grows'.nodes _ (there id hid)
      · exact there' more hmore group hgroup id hid

/-- An edge that is drawn has an id: the author's, or a generated one. -/
theorem holds_drawn (link : Link) (source target symbols : Text) (text : Option Text)
    (stroke : Stroke) (start finish : Tip) (taken : List Text) :
    (Value.text (EdgeId.distinct ((link.id.filter fun id => !id.isEmpty).getD
      (EdgeId.ofContent source target symbols text stroke start finish)) taken)).holds := by
  have generated : EdgeId.ofContent source target symbols text stroke start finish ≠ [] := by
    intro none_here
    have begins := EdgeId.prefix_ofContent source target symbols text stroke start finish
    rw [none_here] at begins
    exact absurd (List.prefix_nil.mp begins) (by decide)
  have wanted : (link.id.filter fun id => !id.isEmpty).getD
      (EdgeId.ofContent source target symbols text stroke start finish) ≠ [] := by
    cases own : link.id.filter fun id => !id.isEmpty with
    | none => exact generated
    | some id => simpa using (Option.filter_eq_some_iff.mp own).2
  have distinct := (EdgeId.prefix_distinct _ taken).ne_nil wanted
  simpa [Value.holds] using distinct

theorem Sound.draw (h : r.Sound) {link : Link} {op : Operator} {source target : Text}
    (hsource : r.diagram.hasNode (.text source)) (htarget : r.diagram.hasNode (.text target))
    {r' : Reading} (read : r.draw link op source target = .ok r') : Grows r r' := by
  simp only [Reading.draw, bind_eq_ok, pure_eq_ok] at read
  obtain ⟨text, _, rfl⟩ := read
  -- with or without a note that the id was taken
  split
  · exact ⟨⟨h.integral.putEdge hsource htarget, h.opened, h.simple,
      h.identified_put (holds_drawn ..)⟩, fun _ old => old⟩
  · exact ⟨⟨h.integral.putEdge hsource htarget, h.opened, h.simple,
      h.identified_put (holds_drawn ..)⟩, fun _ old => old⟩

theorem Sound.drawLinks (h : r.Sound) {links : List Link} {groups : List (List Text)}
    (there : ∀ ids ∈ groups, ∀ id ∈ ids, r.diagram.hasNode (.text id)) {r' : Reading}
    (read : r.drawLinks links groups = .ok r') : Grows r r' := by
  induction links generalizing r groups with
  | nil =>
    rw [Reading.drawLinks] at read
    · cases read
      exact .refl h
    · simp
  | cons link links ih =>
    match groups with
    | [] | [_] =>
      cases read
      exact .refl h
    | sources :: targets :: groups =>
      have onward : ∀ {q}, Grows r q → q.drawLinks links (targets :: groups) = .ok r' →
          Grows r r' := fun {q} grows rest => grows.trans (ih grows.sound
        (fun ids hids id hid => grows.nodes _ (there ids (List.mem_cons_of_mem _ hids) id hid)) rest)
      simp only [Reading.drawLinks] at read
      split at read
      · exact onward (grows_note h _) read
      · obtain ⟨q, drawn, rest⟩ := bind_eq_ok.mp read
        refine onward (foldlM_inv (P := fun q => Grows r q) ?_ (.refl h) drawn) rest
        rintro q ⟨s, t⟩ q' mem hq step
        obtain ⟨s', hs, mem⟩ := List.mem_flatMap.mp mem
        obtain ⟨t', ht, pair⟩ := List.mem_map.mp mem
        cases pair
        have source := there sources List.mem_cons_self s hs
        have target := there targets (List.mem_cons_of_mem _ List.mem_cons_self) t ht
        exact hq.trans (hq.sound.draw (hq.nodes _ source) (hq.nodes _ target) step)

theorem Sound.readChain (h : r.Sound) {line : Text} {r' : Reading}
    (read : r.readChain line = .ok r') : Grows r r' := by
  simp only [Reading.readChain, bind_eq_ok] at read
  obtain ⟨⟨groups, q⟩, met, read⟩ := read
  obtain ⟨grows, there⟩ := h.meetTexts met
  cases groups with
  | none =>
    cases read
    exact grows
  | some groups => exact grows.trans (grows.sound.drawLinks (there groups rfl) read)

theorem withEdgeProperties_same {e f : Edge} {body : Text}
    (h : withEdgeProperties e body = .ok f) :
    f.id = e.id ∧ f.source = e.source ∧ f.target = e.target := by
  simp only [withEdgeProperties, bind_eq_ok, pure_eq_ok] at h
  obtain ⟨_, _, rfl⟩ := h
  exact ⟨rfl, rfl, rfl⟩

theorem withStyle_same {n m : Node} {declared : List (Text × Text)}
    (h : withStyle n declared = .ok m) : m.id = n.id ∧ m.parent = n.parent := by
  simp only [withStyle, bind_eq_ok, pure_eq_ok] at h
  obtain ⟨_, _, rfl⟩ := h
  exact ⟨rfl, rfl⟩

theorem withEdgeStyle_same {e f : Edge} {declared : List (Text × Text)}
    (h : withEdgeStyle declared e = .ok f) :
    f.id = e.id ∧ f.source = e.source ∧ f.target = e.target := by
  simp only [withEdgeStyle, bind_eq_ok, pure_eq_ok] at h
  obtain ⟨_, _, rfl⟩ := h
  exact ⟨rfl, rfl, rfl⟩

theorem Sound.openSubgraph (h : r.Sound) {header : Text} {r' : Reading}
    (read : r.openSubgraph header = .ok r') : r'.Sound := by
  simp only [Reading.openSubgraph, bind_eq_ok, pure_eq_ok] at read
  obtain ⟨⟨id, title⟩, _, rfl⟩ := read
  split
  · rename_i known
    exact ⟨h.integral, List.forall_mem_cons.mpr ⟨known, h.opened⟩, h.simple, h.identified⟩
  · rename_i fresh
    have fresh : (.text id : Value) ∉ Keyed.keys r.diagram.subgraphs := fun known =>
      fresh (Keyed.has_iff.mpr known)
    constructor
    · refine h.integral.addSubgraph fresh (by simp) rfl rfl fun some_parent => ?_
      cases outer : r.opened.head? with
      | none => simp [outer, Value.ofText?] at some_parent
      | some around => exact h.opened around (List.mem_of_mem_head? outer)
    · refine List.forall_mem_cons.mpr ⟨?_, fun id' hid => ?_⟩
      · exact Keyed.has_iff.mpr (Keyed.mem_keys_put.mpr (Or.inl rfl))
      · exact Keyed.has_iff.mpr
          (Keyed.mem_keys_put.mpr (Or.inr (Keyed.has_iff.mp (h.opened id' hid))))
    · exact h.simple
    · exact h.identified

theorem Sound.setDirection (h : r.Sound) (word : Text) : (r.setDirection word).Sound := by
  unfold Reading.setDirection
  split
  · exact h.note _
  · split
    · exact ⟨h.integral.turned _ r.diagram.classes, h.opened, h.simple, h.identified⟩
    · split
      · rename_i g found
        have hg : g.id = _ := Keyed.key_of_find? found
        have there : r.diagram.subgraph? g.id = some g := by rw [hg]; exact found
        refine ⟨h.integral.resetSubgraph (k := g) there rfl rfl, fun id hid => ?_, h.simple,
          h.identified⟩
        exact Keyed.has_iff.mpr
          (Keyed.mem_keys_put.mpr (Or.inr (Keyed.has_iff.mp (h.opened id hid))))
      · exact h

theorem Sound.assign (h : r.Sound) (classes : List Text) (id : Text) :
    (Reading.assign classes r id).Sound := by
  unfold Reading.assign
  cases node : r.diagram.node? (.text id) with
  | some n => exact (h.putNode (n := { n with classes := addClasses classes n.classes })
      node rfl rfl).sound
  | none =>
    cases edge : r.diagram.edge? (.text id) with
    | some e => exact (h.putEdge (e := { e with classes := addClasses classes e.classes })
        edge rfl rfl rfl).sound
    | none => exact h.note _

/-- What the references of an edge are, apart from how it looks. -/
def ends (e : Edge) : Value × Value × Value := (e.id, e.source, e.target)

/-- Edges may look different as long as they lead where they led. -/
theorem Sound.restyle (h : r.Sound) {es : List Edge}
    (same : es.map ends = r.diagram.edges.map ends) : Sound { r with diagram.edges := es } := by
  have keys : Keyed.keys es = Keyed.keys r.diagram.edges := by
    have first := congrArg (List.map Prod.fst) same
    rw [List.map_map, List.map_map] at first
    exact first
  have old : ∀ e ∈ es, ∃ f ∈ r.diagram.edges, f.id = e.id ∧ f.source = e.source ∧
      f.target = e.target := by
    intro e he
    obtain ⟨f, hf, pair⟩ := List.mem_map.mp (same ▸ List.mem_map_of_mem he)
    simp only [ends, Prod.mk.injEq] at pair
    exact ⟨f, hf, pair⟩
  refine ⟨h.integral.withEdges (keys ▸ h.integral.distinct.edges) ?_ ?_, h.opened, h.simple, ?_⟩
  · intro e he
    obtain ⟨f, hf, _, source, _⟩ := old e he
    exact source ▸ h.integral.source f hf
  · intro e he
    obtain ⟨f, hf, _, _, target⟩ := old e he
    exact target ▸ h.integral.target f hf
  · intro e he
    obtain ⟨f, hf, id, _⟩ := old e he
    exact id ▸ h.identified f hf

theorem Sound.styleLinks (h : r.Sound) {places : Option Text} {declared : List (Text × Text)}
    {r' : Reading} (read : r.styleLinks places declared = .ok r') : r'.Sound := by
  unfold Reading.styleLinks at read
  -- the places are all or listed, and what is done at them is the same
  cases places
  all_goals
    obtain ⟨targets, _, read⟩ := bind_eq_ok.mp read
    obtain ⟨es, walk, read⟩ := bind_eq_ok.mp read
    cases read
    refine h.restyle
      (foldlM_inv (P := fun es => es.map ends = r.diagram.edges.map ends) ?_ rfl walk)
    intro es i es' _ same step
    split at step
    · rename_i e there
      obtain ⟨f, styled, step⟩ := bind_eq_ok.mp step
      cases step
      obtain ⟨id, source, target⟩ := withEdgeStyle_same styled
      have like : ends f = ends e := by simp only [ends, id, source, target]
      obtain ⟨hi, rfl⟩ := List.getElem?_eq_some_iff.mp there
      rw [List.map_set, like, ← List.map_set, List.set_getElem_self, same]
    · cases step
      exact same

theorem Sound.read (h : r.Sound) {s : Statement} {r' : Reading} (read : r.read s = .ok r') :
    r'.Sound := by
  cases s with
  | close =>
    cases read
    split
    · exact h.note _
    · rename_i opened
      exact ⟨h.integral, fun id hid => h.opened id (opened ▸ List.mem_cons_of_mem _ hid), h.simple,
        h.identified⟩
  | subgraph header => exact h.openSubgraph read
  | direction word =>
    cases read
    exact h.setDirection word
  | define names styles =>
    cases read
    exact ⟨h.integral.turned r.diagram.direction _, h.opened, h.simple, h.identified⟩
  | assign ids classes =>
    cases read
    induction (Text.pieces ',' ids).map Text.trim generalizing r with
    | nil => exact h
    | cons id ids ih => exact ih (h.assign _ id)
  | style id declarations =>
    simp only [Reading.read] at read
    split at read
    · cases read
      exact h.note _
    · rename_i n found
      obtain ⟨m, styled, rfl⟩ := map_eq_ok.mp read
      obtain ⟨same, parent⟩ := withStyle_same styled
      exact (h.putNode found same parent).sound
  | linkStyle places declarations => exact h.styleLinks read
  | click id url tooltip target =>
    simp only [Reading.read] at read
    split at read
    · cases read
      exact h.note _
    · rename_i n found
      cases tooltip with
      | none =>
        cases read
        exact (h.putNode (n := { n with link := url, linkTarget := textOr target n.linkTarget })
          found rfl rfl).sound
      | some t =>
        obtain ⟨t, _, read⟩ := bind_eq_ok.mp read
        cases read
        exact (h.putNode (n := { n with
          link := url, tooltip := t, linkTarget := textOr target n.linkTarget }) found rfl rfl).sound
  | properties id body line =>
    simp only [Reading.read] at read
    split at read
    · rename_i e found
      obtain ⟨f, extended, rfl⟩ := map_eq_ok.mp read
      obtain ⟨same, source, target⟩ := withEdgeProperties_same extended
      exact (h.putEdge found same source target).sound
    · exact (h.readChain read).sound
  | chain line => exact (h.readChain read).sound

theorem Sound.readLines (h : r.Sound) {lines : List Text} {r' : Reading}
    (read : r.readLines lines = .ok r') : r'.Sound :=
  foldlM_inv (P := Sound) (fun _ _ _ _ h step => Sound.read h step) h read

theorem begin_sound (lines : List Text) : (begin lines).1.Sound := by
  unfold begin
  split
  rename_i before rest _
  have start : ∀ direction notes, Sound { diagram.direction := direction, notes := notes } :=
    fun direction notes => ⟨Diagram.integral_empty.turned direction [], by simp, by simp, by simp⟩
  cases rest with
  | nil => exact start .tb []
  | cons line body =>
    cases declared : Source.declaration? line with
    | none =>
      simp only [declared]
      exact start .tb []
    | some declaration =>
      simp only [declared]
      exact start _ _

theorem ofSource_sound {s : Text} {r : Reading} (read : ofSource s = .ok r) :
    ∃ q : Reading, q.Sound ∧ r.diagram = q.diagram.settle := by
  simp only [ofSource, bind_eq_ok, pure_eq_ok] at read
  obtain ⟨q, lines, rfl⟩ := read
  exact ⟨q, Sound.readLines (begin_sound _) lines, rfl⟩

end Reading

namespace Diagram
variable {s : Text} {d : Diagram}

/-- What is read from a text was read statement by statement and then settled. -/
theorem read_sound (h : Diagram.read s = .ok d) :
    ∃ r : Reading, r.Sound ∧ d = r.diagram.settle := by
  obtain ⟨r, read, rfl⟩ := map_eq_ok.mp h
  simp only [Reading.ofText] at read
  split at read
  · exact Reading.ofSource_sound read
  · cases read
    exact ⟨{}, ⟨integral_empty, by simp, by simp, by simp⟩, rfl⟩

/-- What is read from a text is integral, whatever the text says. -/
theorem integral_read (h : Diagram.read s = .ok d) : d.Integral := by
  obtain ⟨r, sound, rfl⟩ := read_sound h
  exact sound.integral.settle

/-- Every node that is read from a text can be looked up. -/
theorem simple_read (h : Diagram.read s = .ok d) : ∀ n ∈ d.nodes, n.id.isSimple := by
  obtain ⟨r, sound, rfl⟩ := read_sound h
  intro n hn
  obtain ⟨m, hm, rfl⟩ := List.mem_map.mp hn
  rw [m.settle_rest]
  exact sound.simple m hm

/-- Every edge that is read from a text has an id. -/
theorem identified_read (h : Diagram.read s = .ok d) : ∀ e ∈ d.edges, e.id.holds := by
  obtain ⟨r, sound, rfl⟩ := read_sound h
  intro e he
  obtain ⟨f, hf, rfl⟩ := List.mem_map.mp he
  exact sound.identified f hf

end Diagram
end Flowchart
