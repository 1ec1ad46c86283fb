import Flowchart.Proofs.OneLine
import Flowchart.Proofs.Styling

/-! What is said of nodes and edges after they are declared and drawn: the properties of edges,
classes, styles and links. Each such statement goes to the nodes and edges of an id, and all of them
together make of each node and each edge what can be told of it alone. -/
namespace Flowchart
open Text

theorem Carries.read {w : Written} {s : Statement} {P Q : View → Prop} (h : w.ReadAs s)
    (reads : ∀ r : Reading, r.Sound → P r.view → ∃ r', r.read s = .ok r' ∧ Q r'.view) :
    Carries [w] P Q := by
  obtain ⟨l, written, line, rfl⟩ := h
  refine ⟨[l], .cons ⟨written, line⟩ .nil, fun r sound here => ?_⟩
  obtain ⟨r', read, there⟩ := reads r sound here
  refine ⟨r', ?_, sound.read read, there⟩
  rw [Reading.readAll, List.foldlM_cons, read]
  rfl

/-! ### What is kept in sight -/

/-- The node without its classes and its style. -/
def Node.bared (n : Node) : Node := { n with classes := [], style := none }

/-- The edge without its style. -/
def Edge.bared (e : Edge) : Edge := { e with style := none }

/-- Nothing is open, and these are the nodes and the edges, but for styles and the classes of
nodes. -/
structure View.Shows (v : View) (ns : List Node) (es : List Edge) : Prop where
  closed : v.opened = []
  nodes : v.nodes.map Node.bared = ns
  edges : v.edges.map Edge.bared = es

/-- Changes that come one after another are made in each entry by itself. -/
theorem foldl_map_each {α β : Type} (g : α → β → β) (xs : List α) (ys : List β) :
    xs.foldl (fun ys x => ys.map (g x)) ys = ys.map fun y => xs.foldl (fun y x => g x y) y := by
  induction xs generalizing ys with
  | nil => simp
  | cons x xs ih => rw [List.foldl_cons, ih, List.map_map]; rfl

section
variable {α β κ : Type} [DecidableEq κ] (key : α → κ) (name : β → κ) (g : α → β → β) {xs : List α}

/-- Of changes that each go to one key, an entry takes none if none goes to its own. -/
theorem foldl_nowhere {y : β} (other : name y ∉ xs.map key) :
    xs.foldl (fun y x => if name y = key x then g x y else y) y = y := by
  induction xs with
  | nil => rfl
  | cons x xs ih =>
    have apart : name y ≠ key x := fun same => other (same ▸ List.mem_cons_self)
    rw [List.foldl_cons, if_neg apart, ih fun here => other (List.mem_cons_of_mem _ here)]

/-- Otherwise it takes the one that goes to its own. -/
theorem foldl_at (keeps : ∀ x y, name (g x y) = name y) (once : (xs.map key).Nodup) {x : α}
    (there : x ∈ xs) {y : β} (same : name y = key x) :
    xs.foldl (fun y x => if name y = key x then g x y else y) y = g x y := by
  induction xs generalizing y with
  | nil => cases there
  | cons z xs ih =>
    obtain ⟨fresh, once⟩ := List.nodup_cons.mp once
    rw [List.foldl_cons]
    rcases List.mem_cons.mp there with rfl | there
    · rw [if_pos same, foldl_nowhere]
      rw [keeps, same]
      exact fresh
    · have apart : name y ≠ key z := by
        rw [same]
        rintro here
        exact fresh (here ▸ List.mem_map_of_mem there)
      rw [if_neg apart, ih once there same]

end

/-! ### Properties of edges -/

section
variable {tag : Text} {ps : List Property}

theorem line_tagged (h : Chain.Tag tag) (hp : ∀ p ∈ ps, p.Writable) :
    Line (Writing.braced tag (ps.map Property.text)) := by
  have inline : Inline (Writing.braced tag (ps.map Property.text)) := by
    refine Writing.inline_braced (.of_chars fun c hc => inline_of_isWordOrHyphen (h.2 c hc)) ?_
    intro s hs
    obtain ⟨p, there, rfl⟩ := List.mem_map.mp hs
    exact inline_text (hp p there)
  have start : Stops isBlank tag :=
    (tight_of_stops fun c hc => isBlank_of_isWordOrHyphen (h.2 c hc)).start
  have last : tag ++ '@' :: '\x7b' :: (body ps ++ ['\x7d']) =
      (tag ++ '@' :: '\x7b' :: body ps) ++ ['\x7d'] := by simp
  rw [braced_eq, last] at inline ⊢
  refine ⟨inline, ⟨?_, ?_⟩, by simp, ?_⟩
  · rw [List.append_assoc]
    exact stops_append start fun e => absurd e h.1
  · rw [List.reverse_append]
    exact stops_cons.mpr (by decide)
  · rw [List.getLast?_concat]
    decide

theorem ofLine_tagged (h : Chain.Tag tag) :
    Statement.ofLine (Writing.braced tag (ps.map Property.text)) =
      .properties tag (body ps) (Writing.braced tag (ps.map Property.text)) := by
  rw [braced_eq]
  have solid : ∀ c ∈ tag, isBlank c = false := fun c hc => isBlank_of_isWordOrHyphen (h.2 c hc)
  refine Statement.ofLine_properties
    (Statement.firstWord_of_mark solid (by decide) (by decide)) ?_
  have mark : Stops isWordOrHyphen ('@' :: '\x7b' :: (body ps ++ ['\x7d'])) :=
    stops_cons.mpr (by decide)
  have opened : after? ['@', '\x7b'] ('@' :: '\x7b' :: (body ps ++ ['\x7d'])) =
      some (body ps ++ ['\x7d']) := after?_append _ _
  have found : Statement.braced? ('@' :: '\x7b' :: (body ps ++ ['\x7d'])) = some (body ps) := by
    rw [Statement.braced?, opened]
    exact beforeFinal?_append _ _
  have some_tag : tag.isEmpty = false := by simpa using h.1
  rw [Statement.properties?, takeWhile_stop h.2 mark, dropWhile_stop h.2 mark, found]
  simp only [some_tag]
  rfl

end

namespace Edge
variable {e f : Edge}

/-- The properties of the edge, as they are written and read. -/
def properties (e : Edge) : List Property :=
  (if e.animate.holds then [.plain "animate" "true"] else []) ++
    if e.animation.holds then [.plain "animation" e.animation.shown] else []

theorem edgeProperties_eq (e : Edge) :
    Writing.edgeProperties e = e.properties.map Property.text := by
  unfold Writing.edgeProperties properties Value.ifHolds
  split <;> split <;> rfl

/-- An edge with the animation that is said of this one. -/
def animates (e f : Edge) : Edge := { f with
  animate := if e.animate.holds then .bool true else f.animate
  animation := if e.animation.holds then .text e.animation.shown else f.animation }

theorem properties_writable (plain : e.animation.holds → e.animation.IsPlain) :
    ∀ p ∈ e.properties, p.Writable := by
  have truth : PlainValue "true".toList := plainValue_of_chars (by decide) (by decide)
  intro p hp
  rcases List.mem_append.mp hp with hp | hp
  · split at hp
    · rw [List.mem_singleton.mp hp]
      exact Property.plain_writable (by decide) (by decide +kernel) truth
    · cases hp
  · split at hp
    · rw [List.mem_singleton.mp hp]
      exact Property.plain_writable (by decide) (by decide +kernel) (plain ‹_›)
    · cases hp

def readProperties (e : Edge) : List (Text × Text) := e.properties.map fun p => (p.key, p.value)

theorem find?_readProperties (e : Edge) :
    (Keyed.find? "animate".toList e.readProperties).map (·.2) =
        (if e.animate.holds then some "true".toList else none) ∧
      (Keyed.find? "animation".toList e.readProperties).map (·.2) =
        if e.animation.holds then some e.animation.shown else none := by
  unfold readProperties properties
  split <;> split <;> exact ⟨rfl, rfl⟩

theorem withEdgeProperties_eq (plain : e.animation.holds → e.animation.IsPlain)
    (some_property : e.properties ≠ []) (f : Edge) :
    Reading.withEdgeProperties f (body e.properties) = .ok (e.animates f) := by
  have once : (e.properties.map Property.key).Nodup := by
    have both : (["animate".toList, "animation".toList]).Nodup := by decide
    refine both.sublist ?_
    unfold properties
    split <;> split <;> simp [Property.plain]
  have read : Quoted.properties (body e.properties) = .ok e.readProperties :=
    Quoted.properties_join some_property (fun p hp => (properties_writable plain p hp).toReads) once
  obtain ⟨moves, animated⟩ := find?_readProperties e
  have truth : Value.bool (decide (Text.lower "true".toList = "true".toList)) = .bool true := by
    decide +kernel
  have told (holds : e.animation.holds = true) :
      (if e.animation.shown.isEmpty then Value.null else .text e.animation.shown) =
        .text e.animation.shown := by
    have some_text : ¬ e.animation.shown.isEmpty = true := by simpa using (plain holds).some_text
    rw [if_neg some_text]
  rw [Reading.withEdgeProperties, read]
  simp only [bind, Except.bind, moves, animated, animates]
  -- what is not written is not read, and leaves the edge as it was
  by_cases moving : e.animate.holds = true
  · by_cases holds : e.animation.holds = true
    · simp only [moving, holds, if_true, truth, told holds]
      rfl
    · simp only [moving, holds, if_true, truth]
      rfl
  · by_cases holds : e.animation.holds = true
    · simp only [moving, holds, if_true, told holds]
      rfl
    · simp only [moving, holds]
      rfl

end Edge

section Statements
variable {ns : List Node} {es : List Edge}

theorem ids_of_shows {r : Reading} (here : r.view.Shows ns es) :
    r.diagram.edges.map Edge.id = es.map Edge.id ∧
      r.diagram.nodes.map Node.id = ns.map Node.id := by
  constructor
  · rw [← here.edges, List.map_map]
    rfl
  · rw [← here.nodes, List.map_map]
    rfl

section Put
variable {r : Reading} {k : Value}

theorem exists_edge_of_shows (here : r.view.Shows ns es) (there : k ∈ es.map Edge.id) :
    ∃ e, r.diagram.edge? k = some e := by
  rw [← (ids_of_shows here).1] at there
  exact Option.isSome_iff_exists.mp (Keyed.isSome_find?.trans (Keyed.has_iff.mpr there))

theorem exists_node_of_shows (here : r.view.Shows ns es) (there : k ∈ ns.map Node.id) :
    ∃ n, r.diagram.node? k = some n := by
  rw [← (ids_of_shows here).2] at there
  exact Option.isSome_iff_exists.mp (Keyed.isSome_find?.trans (Keyed.has_iff.mpr there))

/-- A change of an edge is seen if it can be seen. -/
theorem shows_putEdge (sound : r.Sound) (here : r.view.Shows ns es) {f g : Edge → Edge} {e : Edge}
    (found : r.diagram.edge? k = some e) (keeps : (f e).id = e.id)
    (seen : ∀ e, (f e).bared = g e.bared) :
    (r.putEdge (f e)).view.Shows ns (es.map fun e => if e.id = k then g e else e) := by
  have put := Keyed.put_change (f := f) sound.integral.distinct.edges found keeps
  refine ⟨here.closed, here.nodes, ?_⟩
  rw [← here.edges]
  show (Keyed.put _ r.diagram.edges).map _ = _
  rw [put, List.map_map, List.map_map]
  apply List.map_congr_left
  intro e _
  show Edge.bared (if e.id = k then f e else e) = if e.id = k then g e.bared else e.bared
  split
  · exact seen e
  · rfl

theorem shows_putNode (sound : r.Sound) (here : r.view.Shows ns es) {f g : Node → Node} {n : Node}
    (found : r.diagram.node? k = some n) (keeps : (f n).id = n.id)
    (seen : ∀ n, (f n).bared = g n.bared) :
    (r.putNode (f n)).view.Shows (ns.map fun n => if n.id = k then g n else n) es := by
  have put := Keyed.put_change (f := f) sound.integral.distinct.nodes found keeps
  refine ⟨here.closed, ?_, here.edges⟩
  rw [← here.nodes]
  show (Keyed.put _ r.diagram.nodes).map _ = _
  rw [put, List.map_map, List.map_map]
  apply List.map_congr_left
  intro n _
  show Node.bared (if n.id = k then f n else n) = if n.id = k then g n.bared else n.bared
  split
  · exact seen n
  · rfl

theorem shows_putNode_hidden (sound : r.Sound) (here : r.view.Shows ns es) {f : Node → Node}
    {n : Node} (found : r.diagram.node? k = some n) (keeps : (f n).id = n.id)
    (hidden : ∀ n, (f n).bared = n.bared) : (r.putNode (f n)).view.Shows ns es := by
  have shows := shows_putNode (g := id) sound here found keeps hidden
  simpa using shows

end Put

theorem readAs_properties {e : Edge} {t : Text} (ht : e.id = .text t) (tag : Chain.Tag t)
    (plain : e.animation.holds → e.animation.IsPlain) :
    (Written.properties e).ReadAs (.properties t (body e.properties)
      (Writing.braced t (e.properties.map Property.text))) := by
  refine ⟨_, ?_, line_tagged tag (Edge.properties_writable plain), ofLine_tagged tag⟩
  rw [Written.line, ht, e.edgeProperties_eq]
  rfl

/-- The properties of an edge go to the edge of its id, which must be there: otherwise the line
would be read as a chain. -/
theorem carries_properties {e : Edge} (tag : ∃ t, e.id = .text t ∧ Chain.Tag t)
    (plain : e.animation.holds → e.animation.IsPlain) (some_property : e.properties ≠ [])
    (there : e.id ∈ es.map Edge.id) :
    Carries [.properties e] (View.Shows · ns es)
      (View.Shows · ns (es.map fun f => if f.id = e.id then e.animates f else f)) := by
  obtain ⟨t, ht, tag⟩ := tag
  refine .read (readAs_properties ht tag plain) fun r sound here => ?_
  rw [ht] at there ⊢
  obtain ⟨f, found⟩ := exists_edge_of_shows here there
  refine ⟨r.putEdge (e.animates f), ?_, shows_putEdge sound here found rfl fun _ => rfl⟩
  rw [Reading.read]
  simp only [found, Edge.withEdgeProperties_eq plain some_property]
  rfl

/-! ### Classes -/

theorem carries_define {c : StyleClass} (h : StyleClass.Writable c) (some_style : c.2 ≠ []) :
    Carries [.define c] (View.Shows · ns es) (View.Shows · ns es) := by
  obtain ⟨name, styles⟩ := c
  obtain ⟨ts, rfl, items⟩ := h.declared
  have some_item : ts ≠ [] := by simpa using some_style
  exact .read (readAs_define h.name some_item items) fun r _ here =>
    ⟨r.define name (join "," ts), rfl, here.closed, here.nodes, here.edges⟩

/-- The uses of classes by ids that no node has. -/
def spareUses (ns : List Node) (uses : List (Value × Value)) : List (Value × Value) :=
  uses.filter fun u => u.2 ∉ ns.map Node.id

/-- An edge with a class, if its id is among those that use it. -/
def Edge.dons (uses : List (Value × Value)) (c : Value) (e : Edge) : Edge :=
  { e with classes := donned uses e.id e.classes c }

theorem Edge.dons_unused {uses : List (Value × Value)} {c : Value} {e : Edge}
    (unused : (c, e.id) ∉ uses) : e.dons uses c = e := by
  rw [dons, donned, if_neg fun used => unused used.1]

theorem Edge.dons_one {name : Text} {i : Value} {e : Edge} :
    e.dons [(.text name, i)] (.text name) =
      if e.id = i then { e with classes := Reading.addClasses [name] e.classes } else e := by
  rw [dons, donned_one]
  split <;> rfl

theorem mem_spareUses {uses : List (Value × Value)} {c id : Value} :
    (c, id) ∈ spareUses ns uses ↔ (c, id) ∈ uses ∧ id ∉ ns.map Node.id := by
  simp [spareUses]

theorem shows_assign {r : Reading} (sound : r.Sound) (here : r.view.Shows ns es) (name i : Text) :
    (Reading.assign [name] r i).view.Shows ns
      (es.map (Edge.dons (spareUses ns [(.text name, .text i)]) (.text name))) := by
  obtain ⟨edge_ids, node_ids⟩ := ids_of_shows here
  have nobody (no_edge : Value.text i ∈ es.map Edge.id → Value.text i ∈ ns.map Node.id) :
      es.map (Edge.dons (spareUses ns [(.text name, .text i)]) (.text name)) = es := by
    refine (List.map_congr_left fun e he => Edge.dons_unused fun used => ?_).trans (List.map_id' es)
    obtain ⟨same, spare⟩ := mem_spareUses.mp used
    have called : e.id = .text i := (Prod.mk.inj (List.mem_singleton.mp same)).2
    rw [called] at spare
    exact spare (no_edge (called ▸ List.mem_map_of_mem he))
  unfold Reading.assign
  split
  · rename_i n found
    -- a node takes the class before an edge of the same id does
    have taken : Value.text i ∈ ns.map Node.id := by
      rw [← node_ids, ← Keyed.key_of_find? found]
      exact List.mem_map_of_mem (Keyed.mem_of_find? found)
    rw [nobody fun _ => taken]
    exact shows_putNode_hidden
      (f := fun n : Node => { n with classes := Reading.addClasses [name] n.classes })
      sound here found rfl fun _ => rfl
  · rename_i e free found
    have spare : Value.text i ∉ ns.map Node.id := by
      rw [← node_ids]
      exact Keyed.find?_eq_none_iff.mp free
    have used : spareUses ns [(.text name, .text i)] = [(.text name, .text i)] := by
      apply List.filter_eq_self.mpr
      intro u hu
      rw [List.mem_singleton.mp hu]
      exact decide_eq_true spare
    have gives : Edge.dons [(.text name, .text i)] (.text name) = fun e =>
        if e.id = .text i then { e with classes := Reading.addClasses [name] e.classes } else e :=
      funext fun _ => Edge.dons_one
    rw [used, gives]
    exact shows_putEdge
      (f := fun e : Edge => { e with classes := Reading.addClasses [name] e.classes })
      sound here found rfl fun _ => rfl
  · rename_i _ free
    have absent : Value.text i ∉ es.map Edge.id := by
      rw [← edge_ids]
      exact Keyed.find?_eq_none_iff.mp free
    rw [nobody fun there => absurd there absent]
    exact ⟨here.closed, here.nodes, here.edges⟩

theorem shows_assignAll {r : Reading} (sound : r.Sound) (here : r.view.Shows ns es) (name : Text)
    (ids : List Text) : (ids.foldl (Reading.assign [name]) r).view.Shows ns (es.map
      (Edge.dons (spareUses ns (ids.map fun i => (.text name, .text i))) (.text name))) := by
  induction ids generalizing r es with
  | nil =>
    have same : es.map (Edge.dons (spareUses ns []) (.text name)) = es := by
      refine Eq.trans (List.map_congr_left fun e _ => ?_) (List.map_id' es)
      exact Edge.dons_unused (by simp [spareUses])
    rw [List.map_nil, same]
    exact here
  | cons i ids ih =>
    have rest := ih (sound.assign [name] i) (shows_assign sound here name i)
    have split (us us' : List (Value × Value)) : spareUses ns (us ++ us') =
        spareUses ns us ++ spareUses ns us' := List.filter_append ..
    have whole : (i :: ids).map (fun i => (Value.text name, Value.text i)) =
        [(.text name, .text i)] ++ ids.map fun i => (.text name, .text i) := rfl
    rw [List.map_map] at rest
    rw [whole, split]
    refine Eq.mp (congrArg _ (List.map_congr_left fun e _ => ?_)) rest
    exact congrArg (fun cs => { e with classes := cs }) donned_donned

/-- The users of a class get it: nodes, and those edges that are not called like a node. -/
theorem carries_assign {uses : List (Value × Value)} {name : Text} {ids : List Text}
    (hname : ListName name) (some_id : ids ≠ []) (items : ∀ i ∈ ids, Item i)
    (users : (uses.filter fun u => u.1 == .text name).map (·.2) = ids.map .text) :
    Carries [.assign ((uses.filter fun u => u.1 == .text name).map (·.2)) (.text name)]
      (View.Shows · ns es)
      (View.Shows · ns (es.map (Edge.dons (spareUses ns uses) (.text name)))) := by
  rw [users]
  refine .read (readAs_assign hname some_id items) fun r sound here => ?_
  refine ⟨_, Reading.read_assign hname some_id items r, ?_⟩
  have given := shows_assignAll sound here name ids
  refine Eq.mp (congrArg _ (List.map_congr_left fun e _ => ?_)) given
  refine congrArg (fun cs => { e with classes := cs }) (donned_congr ?_)
  have member : (Value.text name, e.id) ∈ uses ↔
      e.id ∈ (uses.filter fun u => u.1 == .text name).map (·.2) := by
    simp
  rw [mem_spareUses, mem_spareUses, member, users]
  simp

/-! ### Styles -/

theorem Writing.Declares.reads_width {fields : Fields} (h : Declares fields) {v : Value}
    (there : (widthName, v) ∈ fields) (before : Value) : ∃ width, Reading.integerOr
      ((Keyed.find? widthName ((setFields fields).map declared)).map (·.2)) before = .ok width := by
  have alone := h.width_eq there
  cases found : (Keyed.find? widthName ((setFields fields).map declared)).map (·.2) with
  | none => exact ⟨before, rfl⟩
  | some t =>
    rw [found] at alone
    exact ⟨v, alone⟩

theorem NodeStyle.Writable.reads {s : NodeStyle} (h : s.Writable) (n : Node) :
    ∃ style, Reading.withStyle n ((setFields s.named).map Writing.declared) =
      .ok { n with style } := by
  obtain ⟨width, read⟩ := h.declares.reads_width (v := s.strokeWidth)
    (.tail _ (.tail _ (.head _))) (n.style.getD .plain).strokeWidth
  have unit : "stroke-width".toList = Writing.widthName := rfl
  rw [Reading.withStyle]
  simp only [unit, read, bind, Except.bind]
  exact ⟨_, rfl⟩

theorem EdgeStyle.Writable.reads {s : EdgeStyle} (h : s.Writable) (e : Edge) :
    ∃ style, Reading.withEdgeStyle ((setFields s.named).map Writing.declared) e =
      .ok { e with style } := by
  obtain ⟨width, read⟩ := h.declares.reads_width (v := s.strokeWidth) (.tail _ (.head _))
    (e.style.getD .plain).strokeWidth
  have unit : "stroke-width".toList = Writing.widthName := rfl
  rw [Reading.withEdgeStyle]
  simp only [unit, read, bind, Except.bind]
  exact ⟨_, rfl⟩

/-- Styles are out of sight. -/
theorem carries_style {i : Text} {s : NodeStyle} (word : Word i) (writable : s.Writable)
    (visible : s.isPlain = false) :
    Carries [.style (.text i) s] (View.Shows · ns es) (View.Shows · ns es) := by
  obtain ⟨_, _, declared⟩ := writable.declares.list (NodeStyle.setFields_ne_nil visible)
  refine .read (readAs_style word writable visible) fun r sound here => ?_
  cases found : r.diagram.node? (.text i) with
  | none =>
    refine ⟨r.note (.styleOfNothing i), ?_, here.closed, here.nodes, here.edges⟩
    rw [Reading.read]
    simp only [found]
  | some n =>
    obtain ⟨style, styled⟩ := writable.reads n
    refine ⟨r.putNode { n with style }, ?_, shows_putNode_hidden
      (f := fun n : Node => { n with style }) sound here found rfl fun _ => rfl⟩
    rw [Reading.read]
    simp only [found, declared, styled]
    rfl

theorem carries_linkStyle {s : EdgeStyle} (writable : s.Writable) (visible : s.isPlain = false)
    {place : Nat} (short : (ofNat place).length ≤ numeralLimit) :
    Carries [.linkStyle place s] (View.Shows · ns es) (View.Shows · ns es) := by
  obtain ⟨_, _, declared⟩ := writable.declares.list (EdgeStyle.setFields_ne_nil visible)
  refine .read (readAs_linkStyle writable visible place) fun r _ here => ?_
  cases found : r.diagram.edges[place]? with
  | none =>
    refine ⟨r, ?_, here.closed, here.nodes, here.edges⟩
    rw [Reading.read, Reading.styleLinks, declared]
    simp only [Reading.placesOf_one short, bind, Except.bind, List.foldlM_cons, found]
    rfl
  | some e =>
    obtain ⟨style, styled⟩ := writable.reads e
    refine ⟨{ r with diagram.edges := r.diagram.edges.set place { e with style } }, ?_,
      here.closed, here.nodes, ?_⟩
    · rw [Reading.read, Reading.styleLinks, declared]
      simp only [Reading.placesOf_one short, bind, Except.bind, List.foldlM_cons, found, styled]
      rfl
    · obtain ⟨short, rfl⟩ := List.getElem?_eq_some_iff.mp found
      have bared : Edge.bared { r.diagram.edges[place] with style } =
          r.diagram.edges[place].bared := rfl
      rw [← here.edges]
      show (r.diagram.edges.set place _).map _ = _
      rw [List.map_set, bared, ← List.map_set, List.set_getElem_self short]
      rfl

end Statements

/-! ### Links -/

namespace Writing

/-- A tooltip with its double quotes in codes. -/
def coded (t : Text) : Text := t.flatMap fun c => if c = '"' then "#quot;" else [c]

/-- What the codes of a tooltip stand for is the same with more of them. -/
theorem decode_coded (t : Text) : Entity.decode (coded t) = Entity.decode t := by
  apply Entity.decode_withCodes
  intro c _
  by_cases quote : c = '"'
  · subst quote
    exact Or.inr ⟨by decide, .code "quot" (by decide) (by decide) rfl (by decide) (by decide)⟩
  · exact Or.inl (if_neg quote)

theorem not_mem_coded (t : Text) : '"' ∉ coded t := by
  intro here
  obtain ⟨c, _, here⟩ := List.mem_flatMap.mp here
  split at here
  · exact absurd here (by decide)
  · exact absurd (List.mem_singleton.mp here).symm ‹_›

end Writing

namespace Statement

/-- What follows the link in a click: a tooltip in quotes and a target, each of which may be left
out. -/
def afterLink (tip target : Option Text) : Text :=
  (tip.elim [] fun t => ' ' :: '"' :: (t ++ ['"'])) ++ target.elim [] (' ' :: ·)

section
variable {id url : Text} {tip target : Option Text}

theorem afterBlanks?_target : ∀ t ∈ linkTargets,
    afterBlanks? (' ' :: t) = some t ∧ quoted? t = none := by
  decide

theorem tooltip_afterLink (tipped : ∀ t ∈ tip, '"' ∉ t) (targeted : ∀ t ∈ target, t ∈ linkTargets) :
    (afterBlanks? (afterLink tip target)).bind quoted? =
      tip.map (·, target.elim [] (' ' :: ·)) := by
  cases tip with
  | none =>
    cases target with
    | none => rfl
    | some t =>
      obtain ⟨rest, bare⟩ := afterBlanks?_target t (targeted t rfl)
      show (afterBlanks? (' ' :: t)).bind quoted? = none
      rw [rest]
      exact bare
  | some t =>
    have whole : afterLink (some t) target =
        ' ' :: '"' :: (t ++ '"' :: target.elim [] (' ' :: ·)) := by
      simp [afterLink]
    rw [whole, afterBlanks?_cons (by decide), trimStart_stop (stops_cons.mpr (by decide))]
    exact quoted?_append (tipped t rfl) _

theorem ofLine_click (word : Word id) (no_quote : '"' ∉ url) (tipped : ∀ t ∈ tip, '"' ∉ t)
    (targeted : ∀ t ∈ target, t ∈ linkTargets)
    (line : Line ('"' :: (url ++ '"' :: afterLink tip target))) :
    ofLine ("click".toList ++ ' ' :: (id ++ ' ' :: '"' :: (url ++ '"' :: afterLink tip target))) =
      .click id url tip target := by
  refine ofLine_of_fits (f := ("click", click?)) (by simp [keyed]) ?_
  show click? _ = _
  have no_href : after? "href" ('"' :: (url ++ '"' :: afterLink tip target)) = none := rfl
  rw [click?, afterKeyword?_append _ (Word.stops_append word _)]
  simp only [Option.bind_eq_bind, Option.bind_some, wordAndRest?_append word line, no_href,
    Option.bind_none, Option.getD_none, quoted?_append no_quote, tooltip_afterLink tipped targeted]
  cases target with
  | none => cases tip <;> rfl
  | some t =>
    have there : t ∈ linkTargets := targeted t rfl
    have rest := (afterBlanks?_target t there).1
    cases tip <;> simp [afterLink, rest, there]

end
end Statement

/-- The link of the node can be written, and read again. -/
structure Node.Clickable (n : Node) : Prop where
  url : ∃ u, n.link = .text u ∧ Inline u ∧ '"' ∉ u
  tooltip : n.tooltip = .null ∨ ∃ t t', n.tooltip = .text t ∧ Inline t ∧ Entity.decode t = .ok t'
  target : n.linkTarget = .null ∨ ∃ t ∈ Statement.linkTargets, n.linkTarget = .text t

/-- What the codes in a text stand for; another value is as it is. -/
def Value.decoded : Value → Value
  | .text t => ((Entity.decode t).toOption.map .text).getD (.text t)
  | v => v

namespace Node

/-- The tooltip as it is written with a link. -/
def tip (n : Node) : Option Text := n.tooltip.text?.map Writing.coded

/-- A node with the link that is said of this one. -/
def clicks (n m : Node) : Node := { m with
  link := n.link
  tooltip := if n.tooltip.isSome then n.tooltip.decoded else m.tooltip
  linkTarget := Reading.textOr n.linkTarget.text? m.linkTarget }

namespace Clickable
variable {n : Node} {i url : Text}

theorem tipped (_ : n.Clickable) : ∀ t ∈ n.tip, '"' ∉ t := by
  intro t ht
  obtain ⟨u, _, rfl⟩ := Option.map_eq_some_iff.mp ht
  exact Writing.not_mem_coded u

theorem targeted (h : n.Clickable) : ∀ t ∈ n.linkTarget.text?, t ∈ Statement.linkTargets := by
  intro t ht
  rcases h.target with none_here | ⟨u, there, same⟩
  · rw [none_here] at ht
    cases ht
  · rw [same] at ht
    exact Option.some.inj ht ▸ there

theorem line_further {s : Text} (hs : Line s) {t : Option Text} (ht : ∀ u ∈ t, Line u) :
    Line (s ++ t.elim [] (' ' :: ·)) := by
  cases t with
  | none => simpa using hs
  | some u => exact (ht u rfl).spaced hs.toInline hs.some_text hs.tight.start

theorem line_marked {s : Text} (h : Inline s) : Line ('"' :: (s ++ ['"'])) := by
  have closed : Inline (s ++ ['"']) := h.after (by decide)
  refine ⟨closed.cons (by decide) (by decide), ⟨stops_cons.mpr (by decide), ?_⟩, by simp, ?_⟩
  · rw [List.reverse_cons, List.reverse_append]
    exact stops_cons.mpr (by decide)
  · rw [← List.cons_append, List.getLast?_concat]
    decide

theorem line_target : ∀ t ∈ Statement.linkTargets, Line t := by
  have chars : ∀ t ∈ Statement.linkTargets, t ≠ [] ∧
      ∀ c ∈ t, isBlank c = false ∧ c ∉ ['%', ',', ';'] := by decide
  exact fun t ht => (Item.of_chars (chars t ht).1 (chars t ht).2).line

theorem line_afterLink (h : n.Clickable) (inline : Inline url) :
    Line ('"' :: (url ++ '"' :: Statement.afterLink n.tip n.linkTarget.text?)) := by
  have tips : ∀ u ∈ n.tip.map fun t => '"' :: (t ++ ['"']), Line u := by
    intro u hu
    obtain ⟨t, ht, rfl⟩ := Option.map_eq_some_iff.mp hu
    obtain ⟨t, text, rfl⟩ := Option.map_eq_some_iff.mp ht
    rcases h.tooltip with none_here | ⟨t', _, same, inline, _⟩
    · rw [none_here] at text
      cases text
    · rw [same] at text
      cases text
      have quoted := Writing.inline_withoutQuotes "#quot;" (by decide) (by decide) inline
      exact line_marked (quoted.part ⟨['"'], ['"'], rfl⟩)
  have whole : '"' :: (url ++ '"' :: Statement.afterLink n.tip n.linkTarget.text?) =
      ('"' :: (url ++ ['"']) ++ (n.tip.map fun t => '"' :: (t ++ ['"'])).elim [] (' ' :: ·)) ++
        n.linkTarget.text?.elim [] (' ' :: ·) := by
    cases tip : n.tip <;> simp [Statement.afterLink]
  rw [whole]
  exact line_further (line_further (line_marked inline) tips) fun t ht =>
    line_target t (h.targeted t ht)

theorem click_eq (h : n.Clickable) (link : n.link = .text url) (no_quote : '"' ∉ url) :
    Writing.click (.text i) n.link n.tooltip n.linkTarget = .ok ("click".toList ++ ' ' ::
      (i ++ ' ' :: '"' :: (url ++ '"' :: Statement.afterLink n.tip n.linkTarget.text?))) := by
  have target : (if n.linkTarget.holds then ' ' :: n.linkTarget.shown else []) =
      n.linkTarget.text?.elim [] (' ' :: ·) := by
    rcases h.target with none_here | ⟨t, there, same⟩
    · rw [none_here]
      rfl
    · have some_text : ∀ t ∈ Statement.linkTargets, (Value.text t).holds = true := by decide
      rw [same, if_pos (some_text t there)]
      rfl
  have written (tip : Text) : "click ".toList ++ (Value.text i).shown ++
      ' ' :: Writing.withoutQuotes "%22" url ++ tip ++ n.linkTarget.text?.elim [] (' ' :: ·) =
      "click".toList ++ ' ' :: (i ++ ' ' :: '"' :: (url ++ '"' ::
        (tip ++ n.linkTarget.text?.elim [] (' ' :: ·)))) := by
    simp [Writing.withoutQuotes_eq _ no_quote, Value.shown]
  rw [Writing.click, link]
  rcases h.tooltip with none_here | ⟨t, _, same, _⟩
  · rw [Statement.afterLink, tip, none_here, ← written, target]
    rfl
  · rw [Statement.afterLink, tip, same, ← written, target]
    rfl

theorem readAs (h : n.Clickable) (word : Word i) (link : n.link = .text url) (inline : Inline url)
    (no_quote : '"' ∉ url) : (Written.click (.text i) n.link n.tooltip n.linkTarget).ReadAs
      (.click i url n.tip n.linkTarget.text?) := by
  have line := h.line_afterLink inline
  exact ⟨_, h.click_eq link no_quote, line.keyword word (by decide) (by decide),
    Statement.ofLine_click word no_quote h.tipped h.targeted line⟩

theorem read_click (h : n.Clickable) (link : n.link = .text url) {r : Reading} {m : Node}
    (found : r.diagram.node? (.text i) = some m) :
    r.read (.click i url n.tip n.linkTarget.text?) = .ok (r.putNode (n.clicks m)) := by
  rcases h.tooltip with none_here | ⟨t, t', same, _, told⟩
  · rw [Reading.read, tip, clicks, none_here, link]
    simp only [found]
    rfl
  · have decoded : Entity.decode (Writing.coded t) = .ok t' := by rw [Writing.decode_coded, told]
    have stands : (Value.text t).decoded = .text t' := by
      rw [Value.decoded, told]
      rfl
    rw [Reading.read, tip, clicks, same, link, stands]
    simp only [found, Value.text?, Option.map_some, decoded]
    rfl

end Clickable
end Node

theorem carries_click {ns : List Node} {es : List Edge} {n : Node} {i : Text} (h : n.Clickable)
    (hi : n.id = .text i) (word : Word i) (there : n.id ∈ ns.map Node.id) :
    Carries [.click n.id n.link n.tooltip n.linkTarget] (View.Shows · ns es)
      (View.Shows · (ns.map fun m => if m.id = n.id then n.clicks m else m) es) := by
  obtain ⟨url, link, inline, no_quote⟩ := h.url
  rw [hi] at there ⊢
  refine .read (h.readAs word link inline no_quote) fun r sound here => ?_
  obtain ⟨m, found⟩ := exists_node_of_shows here there
  exact ⟨r.putNode (n.clicks m), h.read_click link found,
    shows_putNode sound here found rfl fun _ => rfl⟩

end Flowchart
