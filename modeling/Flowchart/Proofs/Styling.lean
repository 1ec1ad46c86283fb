import Flowchart.Proofs.Assembling
import Flowchart.Proofs.Listings
import Flowchart.Proofs.RoundTrip

/-! Classes and styles that are written and read again. A class is given to nodes and edges by their
ids, a style to a node by its id and to an edge by its place among the edges; so the styling of a
diagram comes back if every edge statement is read as one edge and no edge is called like a node. -/
namespace Flowchart
open Text

/-! ### Classes that are given -/

/-- Classes with another one, if the id is among those that use it. -/
def donned (uses : List (Value × Value)) (id : Value) (classes : List Value) (c : Value) :
    List Value :=
  if (c, id) ∈ uses ∧ c ∉ classes then classes ++ [c] else classes

section Donned
variable {uses uses' : List (Value × Value)} {id c : Value} {classes cs : List Value}

theorem mem_foldl_donned {x : Value} :
    x ∈ cs.foldl (donned uses id) classes ↔ x ∈ classes ∨ x ∈ cs ∧ (x, id) ∈ uses := by
  induction cs generalizing classes with
  | nil => simp
  | cons c cs ih =>
    have one : x ∈ donned uses id classes c ↔ x ∈ classes ∨ x = c ∧ (c, id) ∈ uses := by
      unfold donned
      split <;> grind
    rw [List.foldl_cons, ih, one]
    grind

theorem donned_donned : donned uses' id (donned uses id classes c) c =
    donned (uses ++ uses') id classes c := by
  unfold donned
  grind

theorem donned_congr (same : (c, id) ∈ uses ↔ (c, id) ∈ uses') :
    donned uses id classes c = donned uses' id classes c := by
  simp only [donned, same]

theorem donned_one {i : Value} {name : Text} : donned [(.text name, i)] id classes (.text name) =
    if id = i then Reading.addClasses [name] classes else classes := by
  simp only [donned, List.mem_singleton, Prod.mk.injEq, true_and, Reading.addClasses, List.map_cons,
    List.map_nil, List.foldl_cons, List.foldl_nil]
  grind

end Donned

namespace View
variable {v : View} {uses uses' : List (Value × Value)} {cs : List Value} {c : Value}

/-- The view in which nodes and edges got the classes that they use. -/
def clothed (v : View) (uses : List (Value × Value)) (cs : List Value) : View :=
  { v with
    nodes := v.nodes.map fun n => { n with classes := cs.foldl (donned uses n.id) n.classes }
    edges := v.edges.map fun e => { e with classes := cs.foldl (donned uses e.id) e.classes } }

/-- No edge is called like a node. -/
def Apart (v : View) : Prop := ∀ e ∈ v.edges, e.id ∉ v.nodes.map Node.id

theorem Apart.clothed (h : v.Apart) : (v.clothed uses cs).Apart := by
  intro e' he'
  obtain ⟨e, he, rfl⟩ := List.mem_map.mp he'
  have same : (v.clothed uses cs).nodes.map Node.id = v.nodes.map Node.id := List.map_map
  rw [same]
  exact h e he

theorem clothed_cons : (v.clothed uses [c]).clothed uses cs = v.clothed uses (c :: cs) := by
  simp [clothed, Function.comp_def]

theorem clothed_clothed :
    (v.clothed uses [c]).clothed uses' [c] = v.clothed (uses ++ uses') [c] := by
  simp [clothed, Function.comp_def, donned_donned]

theorem clothed_congr (same : ∀ id, (c, id) ∈ uses ↔ (c, id) ∈ uses') :
    v.clothed uses [c] = v.clothed uses' [c] := by
  simp only [clothed, List.foldl_cons, List.foldl_nil, donned_congr (same _)]

theorem clothed_nobody : v.clothed [] [c] = v := by
  simp [clothed, donned]

/-- The view in which the nodes and edges of an id got a class. -/
theorem clothed_one (name : Text) (i : Value) : v.clothed [(.text name, i)] [.text name] =
    { v with
      nodes := v.nodes.map fun n =>
        if n.id = i then { n with classes := Reading.addClasses [name] n.classes } else n
      edges := v.edges.map fun e =>
        if e.id = i then { e with classes := Reading.addClasses [name] e.classes } else e } := by
  simp only [clothed, List.foldl_cons, List.foldl_nil, donned_one]
  congr 2
  · refine List.map_congr_left fun n _ => ?_
    split <;> rfl
  · refine List.map_congr_left fun e _ => ?_
    split <;> rfl

end View

namespace Reading
variable {r : Reading}

theorem view_assign (h : r.Sound) (apart : r.view.Apart) (name i : Text) :
    (assign [name] r i).view = r.view.clothed [(.text name, .text i)] [.text name] := by
  have no_edge (n : Node) (there : r.diagram.node? (.text i) = some n) :
      ∀ e ∈ r.diagram.edges, e.id ≠ .text i := by
    intro e he same
    refine apart e he ?_
    rw [same, ← Keyed.key_of_find? there]
    exact List.mem_map_of_mem (Keyed.mem_of_find? there)
  have absent_node (none_there : r.diagram.node? (.text i) = none) :
      ∀ n ∈ r.diagram.nodes, n.id ≠ .text i :=
    fun n hn same => Keyed.find?_eq_none_iff.mp none_there (same ▸ Keyed.mem_keys hn)
  have absent_edge (none_there : r.diagram.edge? (.text i) = none) :
      ∀ e ∈ r.diagram.edges, e.id ≠ .text i :=
    fun e he same => Keyed.find?_eq_none_iff.mp none_there (same ▸ Keyed.mem_keys he)
  -- who is called otherwise stays as it is
  have nodes (elsewhere : ∀ n ∈ r.diagram.nodes, n.id ≠ .text i) (f : Node → Node) :
      r.diagram.nodes.map (fun n => if n.id = .text i then f n else n) = r.diagram.nodes :=
    (List.map_congr_left fun n hn => if_neg (elsewhere n hn)).trans (List.map_id' _)
  have edges (elsewhere : ∀ e ∈ r.diagram.edges, e.id ≠ .text i) (f : Edge → Edge) :
      r.diagram.edges.map (fun e => if e.id = .text i then f e else e) = r.diagram.edges :=
    (List.map_congr_left fun e he => if_neg (elsewhere e he)).trans (List.map_id' _)
  rw [View.clothed_one, assign]
  split
  · rename_i n there
    have put := Keyed.put_change (f := fun n : Node => { n with classes := addClasses [name] n.classes })
      h.integral.distinct.nodes there rfl
    simp only [view, putNode, put, edges (no_edge n there)]
    rfl
  · rename_i e none_there there
    have put := Keyed.put_change (f := fun e : Edge => { e with classes := addClasses [name] e.classes })
      h.integral.distinct.edges there rfl
    simp only [view, putEdge, put, nodes (absent_node none_there)]
    rfl
  · rename_i none_there no_edge_there
    simp only [view, note, nodes (absent_node none_there), edges (absent_edge no_edge_there)]

/-- One after another, all that are named get the class. -/
theorem view_assignAll (h : r.Sound) (apart : r.view.Apart) (name : Text) (ids : List Text) :
    (ids.foldl (assign [name]) r).view =
      r.view.clothed (ids.map fun i => (.text name, .text i)) [.text name] := by
  induction ids generalizing r with
  | nil => exact View.clothed_nobody.symm
  | cons i ids ih =>
    have first := view_assign h apart name i
    have rest := ih (h.assign [name] i) (first ▸ apart.clothed)
    rw [first, View.clothed_clothed] at rest
    exact rest

end Reading

/-- A name between commas: a word that can be an item of a list. -/
structure ListName (s : Text) : Prop extends Item s, Word s

/-- The statement is written on one line, and the line is read as a statement. -/
def Written.ReadAs (w : Written) (s : Statement) : Prop :=
  ∃ l, w.line = .ok l ∧ Line l ∧ Statement.ofLine l = s

theorem Leads.read {w : Written} {s : Statement} {u v : View} (h : w.ReadAs s)
    (reads : ∀ r : Reading, r.Sound → r.view = u → ∃ r', r.read s = .ok r' ∧ r'.view = v) :
    Leads [w] u v := by
  obtain ⟨l, written, line, rfl⟩ := h
  exact .one written line reads

theorem Value.mapM_asText {vs : List Value} {ts : List Text} (same : vs = ts.map .text) :
    vs.mapM Value.asText = .ok ts := by
  rw [same, List.mapM_map]
  exact (mapM_ok (g := id) fun _ _ => rfl).trans (by rw [List.map_id])

section Lists
variable {name : Text} {ts : List Text}

theorem ListName.names_eq (h : ListName name) : Reading.names name = [name] := by
  have not_empty : name.isEmpty = false := by simpa using h.toItem.some_text
  rw [Reading.names, pieces_of_not_mem h.toItem.no_comma]
  simp [not_empty]

theorem Item.trim_pieces (some_item : ts ≠ []) (items : ∀ t ∈ ts, Item t) :
    (pieces ',' (join "," ts)).map trim = ts := by
  rw [Item.pieces_join some_item items]
  exact (List.map_congr_left fun t ht => trim_tight (items t ht).tight).trans (List.map_id' _)

theorem readAs_assign (hname : ListName name) (some_id : ts ≠ []) (items : ∀ t ∈ ts, Item t) :
    (Written.assign (ts.map .text) (.text name)).ReadAs (.assign (join "," ts) name) := by
  have list := Item.line_join some_id items
  have begun : Inline ("class ".toList ++ join "," ts) := .before (by decide) list.toInline
  refine ⟨"class ".toList ++ join "," ts ++ ' ' :: name, ?_, ?_,
    Statement.ofLine_assign hname.toWord list⟩
  · rw [Written.line, Writing.checkIds_ok (by simp [Value.isSimple]), Value.mapM_asText rfl]
    rfl
  · exact hname.toItem.line.spaced begun (by simp) (stops_cons.mpr (by decide))

theorem Reading.read_assign (hname : ListName name) (some_id : ts ≠ []) (items : ∀ t ∈ ts, Item t)
    (r : Reading) :
    r.read (.assign (Text.join "," ts) name) = .ok (ts.foldl (Reading.assign [name]) r) := by
  rw [Reading.read, hname.names_eq, Item.trim_pieces some_id items]

theorem readAs_define (hname : ListName name) (some_item : ts ≠ []) (items : ∀ t ∈ ts, Item t) :
    (Written.define (name, ts.map .text)).ReadAs (.define name (join "," ts)) := by
  have list := Item.line_join some_item items
  refine ⟨"classDef ".toList ++ name ++ ' ' :: join "," ts, ?_, ?_,
    Statement.ofLine_define hname.toWord list⟩
  · rw [Written.line, Value.mapM_asText rfl]
    rfl
  · have whole : "classDef ".toList ++ name ++ ' ' :: join "," ts =
        "classDef".toList ++ ' ' :: (name ++ ' ' :: join "," ts) := by simp
    rw [whole]
    exact list.keyword hname.toWord (by decide) (by decide)

end Lists

section Lines
variable {v : View}

theorem leads_assign {uses : List (Value × Value)} {name : Text} {ids : List Text}
    (hname : ListName name) (some_id : ids ≠ []) (items : ∀ i ∈ ids, Item i)
    (apart : v.Apart)
    (users : (uses.filter fun u => u.1 == .text name).map (·.2) = ids.map .text) :
    Leads [.assign ((uses.filter fun u => u.1 == .text name).map (·.2)) (.text name)] v
      (v.clothed uses [.text name]) := by
  rw [users]
  refine .read (readAs_assign hname some_id items) fun r sound here => ?_
  subst here
  refine ⟨ids.foldl (Reading.assign [name]) r, Reading.read_assign hname some_id items r, ?_⟩
  rw [Reading.view_assignAll sound apart]
  refine View.clothed_congr fun id => ?_
  have member : (Value.text name, id) ∈ uses ↔
      id ∈ (uses.filter fun u => u.1 == .text name).map (·.2) := by
    simp
  rw [member, users]
  simp

/-- The users of a class are named in a list. -/
theorem exists_users {uses : List (Value × Value)} {c : Value}
    (ids : ∀ u ∈ uses, ∃ i, u.2 = .text i ∧ Item i) (used : c ∈ uses.map (·.1)) :
    ∃ is : List Text, is ≠ [] ∧ (∀ i ∈ is, Item i) ∧
      (uses.filter fun u => u.1 == c).map (·.2) = is.map .text := by
  refine ⟨(uses.filter fun u => u.1 == c).map fun u => u.2.shown, ?_, fun i hi => ?_, ?_⟩
  · obtain ⟨u, hu, same⟩ := List.mem_map.mp used
    have here : u.2.shown ∈ (uses.filter fun u => u.1 == c).map fun u => u.2.shown :=
      List.mem_map_of_mem (List.mem_filter.mpr ⟨hu, by simpa using same⟩)
    exact List.ne_nil_of_mem here
  · obtain ⟨u, hu, rfl⟩ := List.mem_map.mp hi
    obtain ⟨i, hi, item⟩ := ids u (List.mem_of_mem_filter hu)
    rw [hi]
    exact item
  · rw [List.map_map]
    refine List.map_congr_left fun u hu => ?_
    obtain ⟨i, hi, _⟩ := ids u (List.mem_of_mem_filter hu)
    simp [hi]

/-- All classes that are used are given to their users. -/
theorem leads_assigns (uses : List (Value × Value)) (cs : List Value)
    (ids : ∀ u ∈ uses, ∃ i, u.2 = .text i ∧ Item i)
    (names : ∀ c ∈ cs, ∃ name, c = .text name ∧ ListName name)
    (used : ∀ c ∈ cs, c ∈ uses.map (·.1)) (apart : v.Apart) :
    Leads (cs.map fun c => .assign ((uses.filter fun u => u.1 == c).map (·.2)) c) v
      (v.clothed uses cs) := by
  induction cs generalizing v with
  | nil =>
    have same : v.clothed uses [] = v := by simp [View.clothed]
    rw [same]
    exact .nil v
  | cons c cs ih =>
    obtain ⟨name, rfl, listed⟩ := names c List.mem_cons_self
    obtain ⟨is, some_id, items, users⟩ := exists_users ids (used _ List.mem_cons_self)
    have first := leads_assign listed some_id items apart users
    have rest := ih (v := v.clothed uses [.text name])
      (fun c hc => names c (List.mem_cons_of_mem _ hc))
      (fun c hc => used c (List.mem_cons_of_mem _ hc)) apart.clothed
    rw [View.clothed_cons] at rest
    exact first.cons rest

/-! ### Classes that are defined -/

/-- The class can be defined on one line. -/
structure StyleClass.Writable (c : StyleClass) : Prop where
  name : ListName c.1
  declared : ∃ ts : List Text, c.2 = ts.map .text ∧ ∀ t ∈ ts, Item t

theorem leads_define {c : StyleClass} (h : StyleClass.Writable c) (some_style : c.2 ≠ [])
    (fresh : c.1 ∉ v.classes.map (·.1)) :
    Leads [.define c] v { v with classes := v.classes ++ [c] } := by
  obtain ⟨name, styles⟩ := c
  obtain ⟨ts, rfl, items⟩ := h.declared
  have some_item : ts ≠ [] := by simpa using some_style
  refine .read (readAs_define h.name some_item items) fun r _ here => ?_
  subst here
  refine ⟨r.define name (join "," ts), rfl, ?_⟩
  have kept : ((pieces ',' (dropTrailing (· == ';') (join "," ts))).map trim).filter
      (fun s => !s.isEmpty) = ts := by
    rw [(Item.line_join some_item items).no_semicolon, Item.trim_pieces some_item items,
      List.filter_eq_self]
    intro t ht
    simpa using (items t ht).some_text
  have put : Keyed.put (name, ts.map Value.text) r.diagram.classes =
      r.diagram.classes ++ [(name, ts.map Value.text)] := Keyed.put_of_not_mem fresh
  rw [Reading.define]
  simp only [h.name.names_eq, kept, List.foldl_cons, List.foldl_nil, put]
  rfl

theorem leads_defines (cs : List StyleClass) (h : ∀ c ∈ cs, StyleClass.Writable c ∧ c.2 ≠ [])
    (once : ((v.classes ++ cs).map (·.1)).Nodup) :
    Leads (cs.map .define) v { v with classes := v.classes ++ cs } := by
  induction cs generalizing v with
  | nil =>
    rw [List.append_nil]
    exact .nil v
  | cons c cs ih =>
    obtain ⟨writable, some_style⟩ := h c List.mem_cons_self
    have fresh : c.1 ∉ v.classes.map (·.1) := by
      rw [List.map_append, List.map_cons] at once
      exact fun taken => List.disjoint_of_nodup_append once taken List.mem_cons_self
    rw [List.append_cons] at once ⊢
    exact (leads_define writable some_style fresh).cons
      (ih (v := { v with classes := v.classes ++ [c] })
        (fun c hc => h c (List.mem_cons_of_mem _ hc)) once)

end Lines

/-! ### Styles of nodes -/

theorem filterMap_cons_eq {α β : Type} (f : α → Option β) (x : α) (xs : List α) :
    (x :: xs).filterMap f = (f x).toList ++ xs.filterMap f := by
  cases made : f x <;> simp [made]

/-- The style of a node, if it sets anything. -/
def Node.visible (n : Node) : Option NodeStyle := n.style.filter fun s => !s.isPlain

/-- The style of an edge, if it sets anything. -/
def Edge.visible (e : Edge) : Option EdgeStyle := e.style.filter fun s => !s.isPlain

namespace View
variable {v : View} {ns : List Node}

/-- The view in which nodes got the styles that some nodes of their ids have. -/
def attired (v : View) (ns : List Node) : View :=
  { v with nodes := v.nodes.map fun m =>
      (Keyed.find? m.id ns).elim m fun n => { m with style := n.visible } }

theorem attired_one (v : View) (n : Node) : v.attired [n] = { v with nodes := v.nodes.map fun m =>
    if m.id = n.id then { m with style := n.visible } else m } := by
  refine congrArg (fun nodes => View.mk { v.toDiagram with nodes } v.opened) ?_
  refine List.map_congr_left fun m _ => ?_
  rw [Keyed.find?_cons, Node.key_eq]
  by_cases here : n.id = m.id
  · rw [if_pos here, if_pos here.symm]
    rfl
  · rw [if_neg here, if_neg (Ne.symm here)]
    rfl

theorem attired_cons {n : Node} (fresh : n.id ∉ ns.map Node.id) :
    (v.attired [n]).attired ns = v.attired (n :: ns) := by
  rw [attired_one]
  simp only [attired, List.map_map]
  refine congrArg (fun nodes => View.mk { v.toDiagram with nodes } v.opened) ?_
  refine List.map_congr_left fun m _ => ?_
  rw [Function.comp_apply, Keyed.find?_cons, Node.key_eq]
  by_cases here : m.id = n.id
  · have absent : Keyed.find? n.id ns = none := Keyed.find?_eq_none_iff.mpr fresh
    simp [here, absent]
  · rw [if_neg here, if_neg (Ne.symm here)]

/-- Nodes without styles that are seen change nothing in nodes without styles. -/
theorem attired_unseen {n : Node} (unseen : n.visible = none)
    (bare : ∀ m ∈ v.nodes, m.id = n.id → m.style = none) : v.attired [n] = v := by
  rw [attired_one, unseen]
  refine congrArg (fun nodes => View.mk { v.toDiagram with nodes } v.opened) ?_
  refine (List.map_congr_left fun m hm => ?_).trans (List.map_id' _)
  split
  · rw [← bare m hm ‹_›]
  · rfl

theorem ids_attired : (v.attired ns).nodes.map Node.id = v.nodes.map Node.id := by
  rw [attired, List.map_map]
  refine List.map_congr_left fun m _ => ?_
  cases found : Keyed.find? m.id ns <;> simp [found]

end View

section NodeStyles
variable {v : View}

theorem readAs_style {i : Text} {s : NodeStyle} (word : Word i) (writable : s.Writable)
    (visible : s.isPlain = false) : (Written.style (.text i) s).ReadAs
      (.style i (join "," (Writing.declarations s.named))) := by
  obtain ⟨list, _, _⟩ := writable.declares.list (NodeStyle.setFields_ne_nil visible)
  have whole : "style ".toList ++ i ++ ' ' :: join "," (Writing.declarations s.named) =
      "style".toList ++ ' ' :: (i ++ ' ' :: join "," (Writing.declarations s.named)) := by simp
  refine ⟨_, rfl, ?_, Statement.ofLine_style word list⟩
  show Line ("style ".toList ++ i ++ ' ' :: join "," (Writing.declarations s.named))
  rw [whole]
  exact list.keyword word (by decide) (by decide)

theorem leads_style {n : Node} {i : Text} {s : NodeStyle} (hi : n.id = .text i) (word : Word i)
    (seen : n.visible = some s) (writable : s.Writable) (there : n.id ∈ v.nodes.map Node.id)
    (bare : ∀ m ∈ v.nodes, m.id = n.id → m.style = none) :
    Leads [.style n.id s] v (v.attired [n]) := by
  have visible : s.isPlain = false := by simpa using (Option.filter_eq_some_iff.mp seen).2
  obtain ⟨_, _, declared⟩ := writable.declares.list (NodeStyle.setFields_ne_nil visible)
  rw [View.attired_one, seen]
  rw [hi] at there bare ⊢
  refine .read (readAs_style word writable visible) fun r sound here => ?_
  subst here
  obtain ⟨m, found⟩ : ∃ m, r.diagram.node? (.text i) = some m :=
    Option.isSome_iff_exists.mp (Keyed.isSome_find?.trans (Keyed.has_iff.mpr there))
  have styled := writable.withStyle_eq visible
    (bare m (Keyed.mem_of_find? found) (Keyed.key_of_find? found))
  have put := Keyed.put_change (f := fun m : Node => { m with style := some s })
    sound.integral.distinct.nodes found rfl
  refine ⟨r.putNode { m with style := some s }, ?_, ?_⟩
  · rw [Reading.read]
    simp only [found, declared, styled]
    rfl
  · exact congrArg (fun nodes => View.mk { r.diagram with nodes } r.opened) put

/-- The style of a node is given to the node, if it is seen. -/
theorem leads_nodeStyle {n : Node} {i : Text} (hi : n.id = .text i) (word : Word i)
    (writable : ∀ s, n.visible = some s → s.Writable) (there : n.id ∈ v.nodes.map Node.id)
    (bare : ∀ m ∈ v.nodes, m.id = n.id → m.style = none) :
    Leads (n.visible.map fun s => Written.style n.id s).toList v (v.attired [n]) := by
  cases seen : n.visible with
  | none =>
    rw [View.attired_unseen seen bare]
    exact .nil v
  | some s => exact leads_style hi word seen (writable s seen) there bare

/-- All styles of nodes are given to the nodes. -/
theorem leads_nodeStyles {ns : List Node}
    (h : ∀ n ∈ ns, (∃ i, n.id = .text i ∧ Word i) ∧ (∀ s, n.visible = some s → s.Writable) ∧
      n.id ∈ v.nodes.map Node.id)
    (once : (ns.map Node.id).Nodup) (bare : ∀ m ∈ v.nodes, m.id ∈ ns.map Node.id → m.style = none) :
    Leads (ns.filterMap fun n => n.visible.map fun s => Written.style n.id s) v
      (v.attired ns) := by
  induction ns generalizing v with
  | nil =>
    have same : v.attired [] = v := by simp [View.attired]
    rw [same]
    exact .nil v
  | cons n ns ih =>
    obtain ⟨⟨i, hi, word⟩, writable, there⟩ := h n List.mem_cons_self
    obtain ⟨fresh, once⟩ := List.nodup_cons.mp once
    have first := leads_nodeStyle hi word writable there
      fun m hm same => bare m hm (same ▸ List.mem_cons_self)
    have later : ∀ m ∈ ns, (∃ i, m.id = .text i ∧ Word i) ∧
        (∀ s, m.visible = some s → s.Writable) ∧ m.id ∈ (v.attired [n]).nodes.map Node.id := by
      intro m hm
      rw [View.ids_attired]
      exact h m (List.mem_cons_of_mem n hm)
    have still : ∀ m ∈ (v.attired [n]).nodes, m.id ∈ ns.map Node.id → m.style = none := by
      intro m' hm' other
      rw [View.attired_one] at hm'
      obtain ⟨m, hm, rfl⟩ := List.mem_map.mp hm'
      by_cases here : m.id = n.id
      · rw [if_pos here] at other
        exact absurd (here ▸ other) fresh
      · rw [if_neg here] at other ⊢
        exact bare m hm (List.mem_cons_of_mem _ other)
    have rest := ih later once still
    rw [View.attired_cons fresh] at rest
    rw [filterMap_cons_eq]
    exact first.append rest

end NodeStyles

/-! ### Styles of edges -/

namespace Text

theorem trimNumeral_ofNat (n : Nat) : (ofNat n).trimNumeral = ofNat n := by
  have digit : ∀ c ∈ ofNat n, isNumeralBlank c = false := by
    intro c hc
    simp [isNumeralBlank, isBlank_of_isDecimal (isDecimal_of_mem_ofNat hc)]
  have start : (ofNat n).dropWhile isNumeralBlank = ofNat n := by
    have dropped := dropWhile_stop (s := []) (p := isNumeralBlank) (t := ofNat n) (by simp)
      fun c first => digit c (List.mem_of_mem_head? first)
    exact dropped
  rw [trimNumeral, start]
  exact dropTrailing_stop fun c first =>
    digit c (List.mem_reverse.mp (List.mem_of_mem_head? first))

end Text

theorem Reading.placesOf_one {place : Nat} (short : (ofNat place).length ≤ numeralLimit) :
    placesOf (ofNat place) = .ok [place] := by
  have no_comma : ',' ∉ ofNat place := fun here =>
    not_mark_of_isDecimal (isDecimal_of_mem_ofNat here) (by decide)
  rw [placesOf, pieces_of_not_mem no_comma, List.mapM_cons, trimNumeral_ofNat, toNat?_ofNat short]
  rfl

section EdgeStyles
variable {v : View} {before : List Edge}

theorem readAs_linkStyle {s : EdgeStyle} (writable : s.Writable) (visible : s.isPlain = false)
    (place : Nat) : (Written.linkStyle place s).ReadAs
      (.linkStyle (some (ofNat place)) (join "," (Writing.declarations s.named))) := by
  obtain ⟨list, open_start, _⟩ := writable.declares.list (EdgeStyle.setFields_ne_nil visible)
  have whole : "linkStyle ".toList ++ ofNat place ++ ' ' :: join "," (Writing.declarations s.named) =
      "linkStyle".toList ++ ' ' :: (ofNat place ++
        ' ' :: join "," (Writing.declarations s.named)) := by simp
  refine ⟨_, rfl, ?_, Statement.ofLine_linkStyle place list open_start⟩
  show Line ("linkStyle ".toList ++ ofNat place ++ ' ' :: join "," (Writing.declarations s.named))
  rw [whole]
  exact list.keyword (Word.ofNat _) (by decide) (by decide)

theorem leads_linkStyle {s : EdgeStyle} (writable : s.Writable) (visible : s.isPlain = false)
    {f : Edge} {after : List Edge} (bare : f.style = none) (edges : v.edges = before ++ f :: after)
    (short : (ofNat before.length).length ≤ numeralLimit) :
    Leads [.linkStyle before.length s] v
      { v with edges := before ++ { f with style := some s } :: after } := by
  obtain ⟨_, _, declared⟩ := writable.declares.list (EdgeStyle.setFields_ne_nil visible)
  refine .read (readAs_linkStyle writable visible before.length) fun r _ here => ?_
  subst here
  have edges : r.diagram.edges = before ++ f :: after := edges
  have styled := writable.withEdgeStyle_eq visible bare
  refine ⟨{ r with diagram.edges := before ++ { f with style := some s } :: after }, ?_, rfl⟩
  rw [Reading.read, Reading.styleLinks, declared]
  have here : (before ++ f :: after)[before.length]? = some f := by simp
  have put (g : Edge) : (before ++ f :: after).set before.length g = before ++ g :: after := by simp
  simp only [Reading.placesOf_one short, edges, bind, Except.bind, List.foldlM_cons,
    List.foldlM_nil, here, put, styled]
  rfl

/-- All styles of edges are given to the edges at their places. -/
theorem leads_linkStyles (before es : List Edge) (g : Edge → Edge)
    (h : ∀ e ∈ es, (∀ s, e.visible = some s → s.Writable) ∧ (g e).style = none)
    (edges : v.edges = before ++ es.map g)
    (short : ∀ place < before.length + es.length, (ofNat place).length ≤ numeralLimit) :
    Leads ((es.zipIdx before.length).filterMap fun (e, place) =>
        e.visible.map fun s => .linkStyle place s) v
      { v with edges := before ++ es.map fun e => { g e with style := e.visible } } := by
  induction es generalizing v before with
  | nil =>
    rw [List.map_nil, List.append_nil] at edges ⊢
    rw [← edges]
    exact .nil v
  | cons e es ih =>
    obtain ⟨writable, bare⟩ := h e List.mem_cons_self
    rw [List.map_cons] at edges
    have first : Leads (e.visible.map fun s => Written.linkStyle before.length s).toList v
        { v with edges := before ++ { g e with style := e.visible } :: es.map g } := by
      cases seen : e.visible with
      | none =>
        have same : { g e with style := none } = g e := by rw [← bare]
        rw [same, ← edges]
        exact .nil v
      | some s =>
        have visible : s.isPlain = false := by simpa using (Option.filter_eq_some_iff.mp seen).2
        exact leads_linkStyle (writable s seen) visible bare edges (short _ (by simp))
    have rest := ih (v := { v with edges := before ++ { g e with style := e.visible } :: es.map g })
      (before ++ [{ g e with style := e.visible }]) (fun f hf => h f (List.mem_cons_of_mem e hf)) (by simp)
      (fun place hp => short place (by simp at hp ⊢; omega))
    rw [List.length_append, List.length_singleton, ← List.append_cons] at rest
    rw [List.zipIdx_cons, filterMap_cons_eq]
    exact first.append rest

end EdgeStyles

/-! ### Edges that carry their ids -/

theorem Leads.of_line {s t : Written} {v w : View} (h : Leads [s] v w) (same : s.line = t.line) :
    Leads [t] v w := by
  obtain ⟨ls, renders, reads⟩ := h
  refine ⟨ls, ?_, reads⟩
  cases renders with
  | cons first rest => exact .cons (same ▸ first) rest

theorem Operator.one_le_lengthOfData {v : Value} {n : Int} (h : lengthOfData v = .ok n) :
    1 ≤ n := by
  unfold lengthOfData at h
  split at h
  · cases h
    omega
  · cases h
    decide
  · split at h
    · cases h
      decide
    · cases h
  · cases h

namespace Edge
variable {e : Edge}

/-- The edge as its line shows it: an empty text is none, an invisible edge has no tips, and the
length is the one it is drawn with. -/
def drawn (e : Edge) : Edge :=
  { e with
    text := if e.text.holds then e.text else .null
    sourceTip := if e.stroke = .invisible then .none else e.sourceTip
    targetTip := if e.stroke = .invisible then .none else e.targetTip
    length := .number (.int ((Operator.lengthOfData e.length).toOption.getD 1)) }

theorem operator_drawn (short : e.operator.isOk) :
    e.drawn.operator = e.operator ∧ ∃ k, e.drawn.length = .number (.int k) ∧ 1 ≤ k ∧
      Operator.repeats e.drawn.stroke e.drawn.targetTip k < roomLimit := by
  unfold operator at short
  cases length : Operator.lengthOfData e.length with
  | error f =>
    rw [length] at short
    cases short
  | ok k =>
    have some_length := Operator.one_le_lengthOfData length
    have same : max 1 k = k := by omega
    rw [length] at short
    have room := Operator.room_of_build short
    have tips : Operator.repeats e.stroke e.drawn.targetTip k =
          Operator.repeats e.stroke e.targetTip k ∧
        Operator.write e.stroke e.drawn.sourceTip e.drawn.targetTip k =
          Operator.write e.stroke e.sourceTip e.targetTip k := by
      cases stroke : e.stroke <;> simp [drawn, stroke, Operator.repeats, Operator.write]
    have whole : e.drawn.length = .number (.int k) := by
      rw [drawn, length]
      rfl
    refine ⟨?_, k, whole, some_length, tips.1 ▸ room⟩
    rw [operator, operator, whole, length, Operator.lengthOfData, same]
    show Operator.build e.stroke _ _ k = Operator.build e.stroke _ _ k
    rw [Operator.build_ok (tips.1 ▸ room), Operator.build_ok room, tips.2]

theorem edge_drawn (short : e.operator.isOk) : Writing.edge e.drawn = Writing.edge e := by
  have operator := (operator_drawn short).1
  by_cases holds : e.text.holds = true
  · have text : e.drawn.text = e.text := if_pos holds
    rw [Writing.edge, Writing.edge, operator, text]
    rfl
  · have text : e.drawn.text = .null := if_neg holds
    rw [Bool.not_eq_true] at holds
    simp only [Writing.edge, operator, text, holds]
    rfl

theorem writable_drawn (short : e.operator.isOk) (label : e.text.holds → e.text.IsFed)
    (source : ∃ s, e.source = .text s ∧ NodeId s) (target : ∃ t, e.target = .text t ∧ NodeId t)
    (id : Writing.needsId e → ∃ t, e.id = .text t ∧ Chain.Tag t) : e.drawn.Writable where
  source := source
  target := target
  text := by
    by_cases holds : e.text.holds = true
    · have text : e.drawn.text = e.text := if_pos holds
      rw [text]
      exact Or.inr ⟨holds, label holds⟩
    · exact Or.inl (if_neg holds)
  length := (operator_drawn short).2
  tips invisible := ⟨if_pos invisible, if_pos invisible⟩
  id := id

/-- The edge is drawn under an id that says who it is. -/
structure Authored (e : Edge) : Prop where
  text : e.text.holds → e.text.IsFed
  named : e.named.holds
  id : ∃ t, e.id = .text t ∧ Chain.Tag t
  short : e.operator.isOk

theorem Authored.writable (h : e.Authored) (source : ∃ s, e.source = .text s ∧ NodeId s)
    (target : ∃ t, e.target = .text t ∧ NodeId t) : e.drawn.Writable :=
  writable_drawn h.short h.text source target fun _ => h.id

/-- Edges that carry their ids come back under them. -/
theorem leads_authored {v : View} {es : List Edge}
    (h : ∀ e ∈ es, e.Authored ∧ e.drawn.Writable ∧ e.Joins v) (outside : v.opened = [])
    (once : (v.edges.map Edge.id ++ es.map Edge.id).Nodup) :
    Leads (es.map .edge) v (v.drew (es.map fun e => e.drawn.redrawn e.id.shown)) := by
  induction es generalizing v with
  | nil => simpa using Leads.nil v
  | cons e es ih =>
    obtain ⟨authored, writable, joins⟩ := h e List.mem_cons_self
    obtain ⟨t, ht, _⟩ := authored.id
    have needs : Writing.needsId e.drawn := by
      show Writing.needsId e = true
      simp [Writing.needsId, authored.named]
    have asked : e.drawn.asked = t := by
      rw [Edge.asked, if_pos needs]
      show e.id.shown = t
      rw [ht]
      rfl
    have fresh : t ∉ v.edgeIds := by
      intro taken
      have there : .text t ∈ v.edges.map Edge.id := Diagram.mem_edgeIds.mp taken
      exact (List.nodup_append.mp once).2.2 _ there _ (ht ▸ List.mem_cons_self) rfl
    have first : Leads [.edge e] v (v.drew [e.drawn.redrawn t]) := by
      have drawn := leads_edge writable ⟨joins.source, joins.target⟩ outside
      rw [asked, EdgeId.distinct_eq_self fresh] at drawn
      exact drawn.of_line (edge_drawn authored.short)
    have ids : (v.drew [e.drawn.redrawn t]).edges.map Edge.id ++ es.map Edge.id =
        v.edges.map Edge.id ++ (e :: es).map Edge.id := by
      simp [View.drew, redrawn, ht]
    have rest := ih (v := v.drew [e.drawn.redrawn t])
      (fun f hf => by
        obtain ⟨authored, writable, joins⟩ := h f (List.mem_cons_of_mem e hf)
        exact ⟨authored, writable, joins.source, joins.target⟩) outside (ids ▸ once)
    rw [View.drew_drew] at rest
    have shown : e.id.shown = t := by
      rw [ht]
      rfl
    rw [List.map_cons, List.map_cons, shown]
    exact first.cons rest

end Edge

/-! ### Diagrams with classes and styles -/

/-- An ASCII word with hyphens. -/
structure HyphenatedWord (s : Text) : Prop where
  some_text : s ≠ []
  chars : ∀ c ∈ s, isPlainChar c = true ∨ c = '-'

namespace HyphenatedWord
variable {s : Text}

theorem listName (h : HyphenatedWord s) : ListName s := by
  have value := plainValue_of_chars h.some_text h.chars
  refine ⟨⟨value.toInline, h.some_text, value.tight, fun c hc mark => ?_⟩, fun c hc => ?_⟩
  · rcases h.chars c hc with plain | rfl
    · have marks : ∀ d ∈ [',', ';'], d ∈ (":;%#,\"'\x60[]()\x7b\x7d" : String).toList := by decide
      exact not_mark_of_isPlainChar plain (marks c mark)
    · exact absurd mark (by decide)
  · rcases h.chars c hc with plain | rfl
    · exact isBlank_of_isWordOrHyphen (isWordOrHyphen_of_isPlainChar plain)
    · decide

theorem tag (h : HyphenatedWord s) : Chain.Tag s := by
  refine ⟨h.some_text, fun c hc => ?_⟩
  rcases h.chars c hc with plain | rfl
  · exact isWordOrHyphen_of_isPlainChar plain
  · decide

end HyphenatedWord

theorem PlainId.hyphenated {id : Text} (h : PlainId id) : HyphenatedWord id :=
  ⟨h.some_text, fun c hc => Or.inl (h.chars c hc)⟩

/-- The classes of an entity are names. -/
def Classed (classes : List Value) : Prop :=
  ∀ c ∈ classes, ∃ name, c = .text name ∧ HyphenatedWord name

/-- The node says nothing but its text, its shape, its place, its classes and its style. -/
structure Node.Stylish (n : Node) : Prop where
  id : ∃ t, n.id = .text t ∧ PlainId t
  text : n.text.IsFed
  shape : n.shape ∈ Shape.known
  further : ∀ v ∈ [n.link, n.tooltip, n.icon, n.image, n.form, n.labelPosition, n.width, n.height],
    v = .null
  classes : Classed n.classes
  style : ∀ s, n.style = some s → s.Writable

/-- The edge has an id from its author, and says nothing else but its ends, its text, its operator,
its classes and its style. -/
structure Edge.Stylish (e : Edge) : Prop where
  id : ∃ t, e.id = .text t ∧ HyphenatedWord t
  named : e.named.holds
  text : e.text.holds → e.text.IsFed
  animate : e.animate.holds = false
  animation : e.animation = .null
  classes : Classed e.classes
  style : ∀ s, e.style = some s → s.Writable

/-- Everything in the diagram is stylish, no edge is called like a node, and classes that are
defined can be written. -/
structure Diagram.Stylish (d : Diagram) : Prop where
  nodes : ∀ n ∈ d.nodes, n.Stylish
  edges : ∀ e ∈ d.edges, e.Stylish
  subgraphs : ∀ g ∈ d.subgraphs, g.Clean
  apart : ∀ e ∈ d.edges, d.hasNode e.id = false
  classes : ∀ c ∈ d.classes, StyleClass.Writable c
  once : (Keyed.keys d.classes).Nodup

/-- Another node has the same style and the same set of classes. A style that sets nothing counts as
none. -/
structure Node.DressedAs (n m : Node) : Prop where
  style : m.visible = n.visible
  classes : ∀ c, c ∈ m.classes ↔ c ∈ n.classes

/-- Another edge has the same style and the same set of classes. -/
structure Edge.DressedAs (e f : Edge) : Prop where
  style : f.visible = e.visible
  classes : ∀ c, c ∈ f.classes ↔ c ∈ e.classes

/-- Nodes of the same ids and edges at the same places are dressed alike, and the classes with styles
are the same. -/
structure Diagram.DressedAs (d d' : Diagram) : Prop where
  nodes : ∀ id, Option.Rel Node.DressedAs (d.node? id) (d'.node? id)
  edges : List.Forall₂ Edge.DressedAs d.edges d'.edges
  classes : d'.classes = d.classes.filter fun c => !c.2.isEmpty

theorem Node.Stylish.writable {n : Node} (h : n.Stylish) : n.Writable := by
  have clean : Node.Clean { n with style := none, classes := [] } :=
    ⟨h.id, h.text, h.shape, rfl, rfl, h.further⟩
  have writable := clean.writable
  exact ⟨writable.id, writable.text, writable.shape, writable.shapeName, writable.pictures,
    writable.placements, writable.extents, writable.tooltip⟩

theorem Edge.Stylish.authored {e : Edge} (h : e.Stylish) (short : e.operator.isOk) :
    e.Authored := by
  obtain ⟨t, ht, word⟩ := h.id
  exact ⟨h.text, h.named, ⟨t, ht, word.tag⟩, short⟩

/-- As many edges as can be counted have places that can be written. -/
theorem short_place {place : Nat} (few : (place : Int) < countLimit) :
    (ofNat place).length ≤ numeralLimit := by
  have limit : countLimit = 9223372036854775808 := by decide
  have small : place < 9223372036854775808 := by omega
  have digits : (ofNat place).length ≤ 19 :=
    (Nat.length_toDigits_le_iff (by decide) (by decide)).mpr
      (Nat.lt_of_lt_of_le small (by decide))
  exact Nat.le_trans digits (by decide)

/-- The classes that are used, each once. -/
def Diagram.used (d : Diagram) : List Value := (d.classUses.map (·.1)).eraseDups

namespace Diagram.Stylish
variable {d : Diagram}

theorem forested (h : d.Stylish) (integral : d.Integral) : d.Forested where
  toIntegral := integral
  writableNodes n hn := (h.nodes n hn).writable
  writableSubgraphs g hg := (h.subgraphs g hg).writable

theorem body_eq (h : d.Stylish) : (d.body {}).map (·.2) =
    (d.outsideNodes.map .node ++ d.blocks.map (·.2)) ++ d.edges.map .edge ++
      ((d.classes.filter fun c => !c.2.isEmpty).map .define ++ d.used.map fun c =>
        .assign ((d.classUses.filter fun u => u.1 == c).map (·.2)) c) ++
      (d.nodes.filterMap (fun n => n.visible.map fun s => Written.style n.id s) ++
        d.edges.zipIdx.filterMap fun (e, place) =>
          e.visible.map fun s => Written.linkStyle place s) := by
  have properties : d.edges.filter (fun e => !(Writing.edgeProperties e).isEmpty) = [] := by
    refine List.filter_eq_nil_iff.mpr fun e he => ?_
    have still : e.animation.ifHolds = none := by
      rw [(h.edges e he).animation]
      rfl
    simp [Writing.edgeProperties, (h.edges e he).animate, still]
  have unlinked : d.clickLines = [] := by
    refine List.filterMap_eq_nil_iff.mpr fun n hn => ?_
    rw [(h.nodes n hn).further n.link (by simp)]
    rfl
  have classes : d.classLines = (d.classes.filter fun c => !c.2.isEmpty).map .define ++
      d.used.map fun c => .assign ((d.classUses.filter fun u => u.1 == c).map (·.2)) c := rfl
  have styles : d.styleLines = d.nodes.filterMap (fun n => n.visible.map fun s =>
      Written.style n.id s) ++ d.edges.zipIdx.filterMap fun (e, place) =>
        e.visible.map fun s => Written.linkStyle place s := rfl
  rw [statements_body, properties, unlinked, classes, styles, List.map_nil, List.append_nil,
    List.append_nil]

/-- A node uses the classes that it has, and no edge of its id does. -/
theorem node_uses (h : d.Stylish) (integral : d.Integral) {n : Node} (hn : n ∈ d.nodes)
    {c : Value} : (c, n.id) ∈ d.classUses ↔ c ∈ n.classes := by
  simp only [classUses, List.mem_append, List.mem_flatMap, List.mem_map, Prod.mk.injEq]
  constructor
  · rintro (⟨m, hm, _, hc, rfl, same⟩ | ⟨e, he, _, _, _, same⟩)
    · exact Keyed.eq_of_key_eq integral.distinct.nodes hm hn same ▸ hc
    · have apart := h.apart e he
      rw [same, hasNode_iff.mpr ⟨n, hn, rfl⟩] at apart
      cases apart
  · exact fun hc => Or.inl ⟨n, hn, c, hc, rfl, rfl⟩

/-- So does an edge. -/
theorem edge_uses (h : d.Stylish) (integral : d.Integral) {e : Edge} (he : e ∈ d.edges)
    {c : Value} : (c, e.id) ∈ d.classUses ↔ c ∈ e.classes := by
  simp only [classUses, List.mem_append, List.mem_flatMap, List.mem_map, Prod.mk.injEq]
  constructor
  · rintro (⟨n, hn, _, _, _, same⟩ | ⟨f, hf, _, hc, rfl, same⟩)
    · have apart := h.apart e he
      rw [← same, hasNode_iff.mpr ⟨n, hn, rfl⟩] at apart
      cases apart
    · exact Keyed.eq_of_key_eq integral.distinct.edges hf he same ▸ hc
  · exact fun hc => Or.inr ⟨e, he, c, hc, rfl, rfl⟩

/-- The ids that use classes can stand in a list, and the classes are names. -/
theorem classUse (h : d.Stylish) {u : Value × Value} (hu : u ∈ d.classUses) :
    (∃ name, u.1 = .text name ∧ ListName name) ∧ ∃ i, u.2 = .text i ∧ Item i := by
  simp only [classUses, List.mem_append, List.mem_flatMap, List.mem_map] at hu
  rcases hu with ⟨n, hn, c, hc, rfl⟩ | ⟨e, he, c, hc, rfl⟩
  · obtain ⟨name, hname, word⟩ := (h.nodes n hn).classes c hc
    obtain ⟨i, hi, id⟩ := (h.nodes n hn).id
    exact ⟨⟨name, hname, word.listName⟩, i, hi, id.hyphenated.listName.toItem⟩
  · obtain ⟨name, hname, word⟩ := (h.edges e he).classes c hc
    obtain ⟨i, hi, id⟩ := (h.edges e he).id
    exact ⟨⟨name, hname, word.listName⟩, i, hi, id.listName.toItem⟩

end Diagram.Stylish

namespace Diagram

/-- The diagram as its text tells it before classes and styles come. -/
def undressed (d : Diagram) : View :=
  View.drew (View.grow { direction := d.direction } d.nodesInOrder d.inOrder)
    (d.edges.map fun e => e.drawn.redrawn e.id.shown)

/-- Then classes are defined and given to their users. -/
def inClasses (d : Diagram) : View :=
  View.clothed { d.undressed with classes := d.classes.filter fun c => !c.2.isEmpty } d.classUses
    d.used

/-- An edge as it is by then. -/
def drawnEdge (d : Diagram) (e : Edge) : Edge :=
  { e.drawn.redrawn e.id.shown with
    classes := d.used.foldl (donned d.classUses (.text e.id.shown)) [] }

/-- A node as it is by then. -/
def toldNode (d : Diagram) (n : Node) : Node :=
  { n.told with classes := d.used.foldl (donned d.classUses n.id) [] }

/-- At last nodes and edges get their styles. -/
def dressed (d : Diagram) : View :=
  { d.inClasses.attired d.nodes with
    edges := d.edges.map fun e => { d.drawnEdge e with style := e.visible } }

theorem nodes_inClasses (d : Diagram) : d.inClasses.nodes = d.nodesInOrder.map d.toldNode := by
  simp [inClasses, undressed, View.clothed, View.drew, View.grow, toldNode, Node.told,
    Function.comp_def]

theorem edges_inClasses (d : Diagram) : d.inClasses.edges = d.edges.map d.drawnEdge := by
  simp only [inClasses, undressed, View.clothed, View.drew, View.grow, List.nil_append,
    List.map_map]
  rfl

namespace Stylish
variable {d : Diagram}

theorem mem_ids_undressed (h : d.Stylish) (integral : d.Integral) {id : Value} :
    id ∈ d.undressed.nodes.map Node.id ↔ d.hasNode id := by
  have ids : d.undressed.nodes.map Node.id = d.nodesInOrder.map Node.id := by
    simp [undressed, View.drew, View.grow, Node.told]
  rw [ids, nodesInOrder, ((h.forested integral).perm_nodes.map Node.id).mem_iff, Diagram.hasNode,
    Keyed.has_iff]
  rfl

theorem apart_undressed (h : d.Stylish) (integral : d.Integral) : d.undressed.Apart := by
  intro f hf there
  obtain ⟨e, he, rfl⟩ := List.mem_map.mp hf
  obtain ⟨i, hi, _⟩ := (h.edges e he).id
  have same : Value.text e.id.shown = e.id := by
    rw [hi]
    rfl
  have found : d.hasNode (.text e.id.shown) = true := (h.mem_ids_undressed integral).mp there
  rw [same, h.apart e he] at found
  cases found

theorem leads_body (h : d.Stylish) (integral : d.Integral)
    (short : ∀ e ∈ d.edges, e.operator.isOk) (few : (d.edges.length : Int) < countLimit) :
    Leads ((d.body {}).map (·.2)) { direction := d.direction } d.dressed := by
  have forested := h.forested integral
  have forest := forested.leads_forest d.direction
  have authored : ∀ e ∈ d.edges, e.Authored ∧ e.drawn.Writable ∧
      e.Joins (View.grow { direction := d.direction } d.nodesInOrder d.inOrder) := by
    intro e he
    have own := (h.edges e he).authored (short e he)
    have ends : ∀ {id : Value}, d.hasNode id → ∃ t, id = .text t ∧ NodeId t := by
      intro id there
      obtain ⟨n, hn, rfl⟩ := hasNode_iff.mp there
      obtain ⟨t, ht, plain⟩ := (h.nodes n hn).id
      exact ⟨t, ht, plain.nodeId⟩
    have source := integral.source e he
    have target := integral.target e he
    exact ⟨own, own.writable (ends source) (ends target),
      (h.mem_ids_undressed integral).mpr source, (h.mem_ids_undressed integral).mpr target⟩
  have edges := Edge.leads_authored authored rfl
    integral.distinct.edges
  have defines := leads_defines (v := d.undressed) (d.classes.filter fun c => !c.2.isEmpty)
    (fun c hc => ⟨h.classes c (List.mem_of_mem_filter hc), by simpa using (List.mem_filter.mp hc).2⟩)
    (Keyed.nodup_keys_filter h.once _)
  have assigns := leads_assigns
    (v := { d.undressed with classes := d.classes.filter fun c => !c.2.isEmpty })
    d.classUses d.used (fun u hu => (h.classUse hu).2)
    (fun c hc => by
      obtain ⟨u, hu, rfl⟩ := List.mem_map.mp (List.mem_eraseDups.mp hc)
      exact (h.classUse hu).1)
    (fun c hc => List.mem_eraseDups.mp hc) (h.apart_undressed integral)
  have nodeStyles : Leads (d.nodes.filterMap fun n => n.visible.map fun s => Written.style n.id s)
      d.inClasses (d.inClasses.attired d.nodes) := by
    have ids : d.inClasses.nodes.map Node.id = d.undressed.nodes.map Node.id := List.map_map
    refine leads_nodeStyles (fun n hn => ?_) integral.distinct.nodes fun m hm _ => ?_
    · obtain ⟨i, hi, plain⟩ := (h.nodes n hn).id
      refine ⟨⟨i, hi, plain.hyphenated.listName.toWord⟩, fun s seen =>
        (h.nodes n hn).style s (Option.filter_eq_some_iff.mp seen).1, ?_⟩
      rw [ids, h.mem_ids_undressed integral]
      exact hasNode_iff.mpr ⟨n, hn, rfl⟩
    · rw [d.nodes_inClasses] at hm
      obtain ⟨n, _, rfl⟩ := List.mem_map.mp hm
      exact n.heard_style
  have linkStyles := leads_linkStyles (v := d.inClasses.attired d.nodes) [] d.edges d.drawnEdge
    (fun e he => ⟨fun s seen => (h.edges e he).style s (Option.filter_eq_some_iff.mp seen).1, rfl⟩)
    d.edges_inClasses
    (fun place hp => short_place (by simp at hp; omega))
  rw [h.body_eq]
  exact (((forest.append edges).append (defines.append assigns)).append
    (nodeStyles.append linkStyles))

/-- The classes that an id ends up with are those that it uses. -/
theorem mem_worn {d : Diagram} {id c : Value} :
    c ∈ d.used.foldl (donned d.classUses id) [] ↔ (c, id) ∈ d.classUses := by
  have known (use : (c, id) ∈ d.classUses) : c ∈ d.used :=
    List.mem_eraseDups.mpr (List.mem_map_of_mem use)
  rw [mem_foldl_donned]
  simpa using known

theorem node_dressed (h : d.Stylish) (integral : d.Integral) {n : Node} (hn : n ∈ d.nodes) :
    n.DressedAs (settleNode { d.toldNode n with style := n.visible }) := by
  rw [Node.settle_rest]
  refine ⟨?_, fun c => mem_worn.trans (h.node_uses integral hn)⟩
  rw [Node.visible, Node.visible, Option.filter_filter]
  simp

theorem edge_dressed (h : d.Stylish) (integral : d.Integral) {e : Edge} (he : e ∈ d.edges) :
    e.DressedAs (settleEdge { d.drawnEdge e with style := e.visible }) := by
  obtain ⟨i, hi, _⟩ := (h.edges e he).id
  have same : Value.text e.id.shown = e.id := by
    rw [hi]
    rfl
  refine ⟨?_, fun c => ?_⟩
  · show e.visible.filter _ = e.visible
    rw [Edge.visible, Option.filter_filter]
    simp
  · show c ∈ d.used.foldl (donned d.classUses (.text e.id.shown)) [] ↔ c ∈ e.classes
    rw [mem_worn, same, h.edge_uses integral he]

end Stylish

/-- Where no edge is too long to be written, and there are no more edges than can be counted, the
classes and the styles come back with the text. -/
theorem styling_comes_back {d : Diagram} (h : d.Stylish) (integral : d.Integral)
    (short : ∀ e ∈ d.edges, e.operator.isOk) (few : (d.edges.length : Int) < countLimit) :
    ∃ s d', d.write {} = .ok s ∧ Diagram.read s = .ok d' ∧ d.DressedAs d' := by
  obtain ⟨s, written, read⟩ := read_write (by decide) (h.leads_body integral short few)
  refine ⟨s, _, written, read, ⟨fun id => ?_, ?_, rfl⟩⟩
  · let dress (n : Node) : Node := settleNode ((Keyed.find? n.id d.nodes).elim (d.toldNode n)
      fun m => { d.toldNode n with style := m.visible })
    have nodes : (d.dressed.toDiagram.settle).nodes = d.nodesInOrder.map dress := by
      have id_told : ∀ n : Node, (d.toldNode n).id = n.id := fun n => n.heard_id
      simp only [settle, dressed, View.attired, nodes_inClasses, List.map_map, Function.comp_def,
        id_told, dress]
    have key : ∀ n : Node, Keyed.key (dress n) = Keyed.key n := by
      intro n
      show (settleNode _).id = n.id
      rw [Node.settle_rest]
      cases Keyed.find? n.id d.nodes <;> exact n.heard_id
    rw [node?, node?, nodes, nodesInOrder, Keyed.find?_map key,
      Keyed.find?_perm (h.forested integral).perm_nodes integral.distinct.nodes]
    cases found : Keyed.find? id d.nodes with
    | none => exact .none
    | some n =>
      have there : n ∈ d.nodes := Keyed.mem_of_find? found
      have own : Keyed.find? n.id d.nodes = some n :=
        (Keyed.find?_eq_some_iff integral.distinct.nodes).mpr ⟨there, rfl⟩
      have same : dress n = settleNode { d.toldNode n with style := n.visible } := by
        simp only [dress, own, Option.elim]
      rw [Option.map_some, same]
      exact .some (h.node_dressed integral there)
  · have edges : (d.dressed.toDiagram.settle).edges = d.edges.map fun e =>
        settleEdge { d.drawnEdge e with style := e.visible } := List.map_map
    rw [edges, List.forall₂_map_right_iff, List.forall₂_same]
    exact fun e he => h.edge_dressed integral he

/-- Two nodes and two edges with classes and styles, one of the nodes in a subgraph. -/
def colourful : Diagram where
  nodes := [
    { id := .text "B", text := .text "second", classes := [.text "cold", .text "hot-1"]
      style := some { stroke := .text "tomato", color := .text "red" } },
    { id := .text "A", text := .text "A", parent := .text "g"
      style := some { fill := .text "#9cf", strokeWidth := .number (.int (-3)) } }]
  edges := [
    { id := .text "e-1", source := .text "A", target := .text "B", named := .bool true
      stroke := .invisible, sourceTip := .cross, length := .number (.int (-5)) },
    { id := .text "e-2", source := .text "B", target := .text "A", named := .bool true
      text := .text "50%%", classes := [.text "hot-1"]
      style := some { stroke := .text "red", strokeWidth := .number (.int 2) } }]
  subgraphs := [{ id := .text "g", title := .text "g", members := [.text "A"] }]
  classes := [("empty", []), ("hot-1", [.text "fill:#f00", .text "color:white"])]

/-- How they are made. -/
def colouring : List Command :=
  colourful.subgraphs.map (fun g => .addSubgraph { g with members := [] }) ++
    colourful.nodes.map .addNode ++ colourful.edges.map .addEdge ++
    colourful.classes.map fun c => .defineClass c.1 c.2

theorem integral_colourful : colourful.Integral := by
  have made : ((Editor.ofDiagram .empty).after colouring).diagram = colourful := by decide +kernel
  have proper : ∀ c ∈ colouring, c.IsProper := by
    simp [colouring, colourful, Command.IsProper]
  exact made ▸ Editor.integral_after integral_empty proper

theorem stylish_colourful : colourful.Stylish := by
  refine ⟨fun n hn => ?_, fun e he => ?_, fun g hg => ?_, by decide, fun c hc => ?_, by decide⟩
  · simp only [colourful, List.mem_cons, List.not_mem_nil, or_false] at hn
    rcases hn with rfl | rfl
    · refine ⟨⟨_, rfl, by decide, by decide, by decide⟩, ⟨_, rfl, by decide⟩, by decide, by decide,
        ?_, ?_⟩
      · simp only [Classed, List.forall_mem_cons]
        exact ⟨⟨_, rfl, by decide, by decide⟩, ⟨_, rfl, by decide, by decide⟩, by simp⟩
      · rintro _ ⟨⟩
        exact ⟨Or.inl rfl, Or.inr ⟨_, rfl, .of_chars (by decide) (by decide)⟩, Or.inl rfl,
          Or.inr ⟨_, rfl, .of_chars (by decide) (by decide)⟩⟩
    · refine ⟨⟨_, rfl, by decide, by decide, by decide⟩, ⟨_, rfl, by decide⟩, by decide, by decide,
        by simp [Classed], ?_⟩
      rintro _ ⟨⟩
      exact ⟨Or.inr ⟨_, rfl, .of_chars (by decide) (by decide)⟩, Or.inl rfl,
        Or.inr ⟨_, rfl, by decide⟩, Or.inl rfl⟩
  · simp only [colourful, List.mem_cons, List.not_mem_nil, or_false] at he
    rcases he with rfl | rfl
    · exact ⟨⟨_, rfl, by decide, by decide⟩, rfl, by simp [Value.holds], rfl, rfl,
        by simp [Classed], nofun⟩
    · refine ⟨⟨_, rfl, by decide, by decide⟩, rfl, fun _ => ⟨_, rfl, by decide⟩, rfl, rfl, ?_, ?_⟩
      · simp only [Classed, List.forall_mem_cons]
        exact ⟨⟨_, rfl, by decide, by decide⟩, by simp⟩
      · rintro _ ⟨⟩
        exact ⟨Or.inr ⟨_, rfl, .of_chars (by decide) (by decide)⟩, Or.inr ⟨_, rfl, by decide⟩⟩
  · obtain rfl := List.mem_singleton.mp hg
    exact ⟨⟨_, rfl, by decide, by decide⟩, _, rfl, by decide, by decide⟩
  · simp only [colourful, List.mem_cons, List.not_mem_nil, or_false] at hc
    rcases hc with rfl | rfl
    · exact ⟨HyphenatedWord.listName ⟨by decide, by decide⟩, [], rfl, by simp⟩
    · refine ⟨HyphenatedWord.listName ⟨by decide, by decide⟩, ["fill:#f00", "color:white"], rfl, ?_⟩
      simp only [List.forall_mem_cons]
      exact ⟨.of_chars (by decide) (by decide), .of_chars (by decide) (by decide), by simp⟩

theorem colourful_comes_back : colourful.Stylish ∧ colourful.Integral ∧
    (∀ e ∈ colourful.edges, e.operator.isOk) ∧ (colourful.edges.length : Int) < countLimit ∧
    ∃ s d', colourful.write {} = .ok s ∧ Diagram.read s = .ok d' ∧ colourful.DressedAs d' := by
  have short : ∀ e ∈ colourful.edges, e.operator.isOk := by decide
  exact ⟨stylish_colourful, integral_colourful, short, by decide,
    styling_comes_back stylish_colourful integral_colourful short (by decide)⟩

/-- Two nodes and an edge that is longer than any machine could write. -/
def farApart : Diagram where
  nodes := [.bare (.text "A"), .bare (.text "B")]
  edges := [{
    id := .text "e", source := .text "A", target := .text "B"
    length := .number (.int 100000000000000000000), named := .bool true }]

theorem stylish_farApart : farApart.Stylish := by
  refine ⟨fun n hn => ?_, fun e he => ?_, by simp [farApart], by decide, by simp [farApart],
    by decide⟩
  · simp only [farApart, List.mem_cons, List.not_mem_nil, or_false] at hn
    rcases hn with rfl | rfl <;>
      exact ⟨⟨_, rfl, by decide, by decide, by decide⟩, ⟨_, rfl, by decide⟩, by decide, by decide,
        by simp [Classed, Node.bare], nofun⟩
  · obtain rfl := List.mem_singleton.mp he
    exact ⟨⟨_, rfl, by decide, by decide⟩, rfl, by simp [Value.holds], rfl, rfl,
      by simp [Classed], nofun⟩

/-- An edge that is too long is not even written, so no style comes back. -/
theorem farApart_does_not_come_back : ¬ ∀ d : Diagram, d.Stylish → d.Integral →
    (d.edges.length : Int) < countLimit →
    ∃ s d', d.write {} = .ok s ∧ Diagram.read s = .ok d' ∧ d.DressedAs d' := by
  intro all
  have made : ((Editor.ofDiagram .empty).after Editor.stretched).diagram = farApart := by
    decide +kernel
  have proper : ∀ c ∈ Editor.stretched, c.IsProper := by
    simp [Editor.stretched, Command.IsProper]
  have integral := Editor.integral_after integral_empty proper
  rw [made] at integral
  obtain ⟨s, d', written, _⟩ := all farApart stylish_farApart integral (by decide)
  have failed : farApart.write {} = .error .uncountable := by decide +kernel
  cases failed.symm.trans written

end Diagram

end Flowchart
