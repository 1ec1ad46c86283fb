import Flowchart.Proofs.Keyed
import Flowchart.Proofs.Results
import Flowchart.Proofs.Traits
import Flowchart.Source.Reading
import Mathlib.Logic.Relation

/-! What reading does to a diagram, in single steps. Whatever a line says, nodes are met and
met again, edges are drawn and changed, subgraphs are opened and enlarged, classes are defined.
What every such step keeps holds of every diagram that is read. -/
namespace Flowchart
open Relation (ReflTransGen)

/-- The shape is one that a text can ask for: it has brackets of its own, or a name. -/
def Shape.IsAsked (s : Shape) : Prop := s ∈ known ∨ ∃ name, s = resolve name

/-- What becomes of a node that a text names again. -/
inductive Node.Becomes (n : Node) : Node → Prop
  | met (text : Value) (shape : Shape) (parent : Value) (told : text = n.text ∨ ∃ t, text = .text t)
    (asked : shape = n.shape ∨ shape.IsAsked) : Becomes n { n with text, shape, parent }
  | withProperties {m : Node} (properties : List (Text × Text))
    (made : Reading.withProperties n properties = .ok m) : Becomes n m
  | withClasses (names : List Text) :
    Becomes n { n with classes := Reading.addClasses names n.classes }
  | withStyle {m : Node} (declared : List (Text × Text))
    (made : Reading.withStyle n declared = .ok m) : Becomes n m
  | withLink (link : Text) (tooltip : Value) (target : Option Text)
    (told : tooltip = n.tooltip ∨ ∃ t, tooltip = .text t) : Becomes n { n with
      link := .text link, tooltip, linkTarget := Reading.textOr target n.linkTarget }

/-- What becomes of an edge that a text names again. -/
inductive Edge.Becomes (e : Edge) : Edge → Prop
  | withProperties {f : Edge} (body : Text) (made : Reading.withEdgeProperties e body = .ok f) :
    Becomes e f
  | withClasses (names : List Text) :
    Becomes e { e with classes := Reading.addClasses names e.classes }
  | withStyle {f : Edge} (declared : List (Text × Text))
    (made : Reading.withEdgeStyle declared e = .ok f) : Becomes e f

theorem Node.Becomes.same {n m : Node} (becomes : n.Becomes m) :
    m.id = n.id ∧ (m.shape = n.shape ∨ m.shape.IsAsked) := by
  cases becomes with
  | met text shape parent told asked => exact ⟨rfl, asked⟩
  | withProperties properties made =>
    simp only [Reading.withProperties, bind_eq_ok, pure_eq_ok] at made
    obtain ⟨_, _, _, _, rfl⟩ := made
    exact ⟨rfl, Or.inl rfl⟩
  | withClasses names => exact ⟨rfl, Or.inl rfl⟩
  | withStyle declared made =>
    simp only [Reading.withStyle, bind_eq_ok, pure_eq_ok] at made
    obtain ⟨_, _, rfl⟩ := made
    exact ⟨rfl, Or.inl rfl⟩
  | withLink link tooltip target told => exact ⟨rfl, Or.inl rfl⟩

/-- An edge that a text names again keeps all but its style, its classes and its animation. -/
theorem Edge.Becomes.same {e f : Edge} (becomes : e.Becomes f) : f = { e with
    style := f.style, classes := f.classes, animate := f.animate, animation := f.animation } := by
  cases becomes with
  | withProperties body made =>
    simp only [Reading.withEdgeProperties, bind_eq_ok, pure_eq_ok] at made
    obtain ⟨_, _, rfl⟩ := made
    rfl
  | withClasses names => rfl
  | withStyle declared made =>
    simp only [Reading.withEdgeStyle, bind_eq_ok, pure_eq_ok] at made
    obtain ⟨_, _, rfl⟩ := made
    rfl

/-- The edge stays, but for its style, its classes and its animation. -/
def Edge.Kept (e f : Edge) : Prop := f = { e with
  style := f.style, classes := f.classes, animate := f.animate, animation := f.animation }

theorem Edge.Kept.id {e f : Edge} (h : e.Kept f) : f.id = e.id := by rw [h]

theorem Edge.Kept.trans {e f g : Edge} (h : e.Kept f) (h' : f.Kept g) : e.Kept g := by
  rw [Edge.Kept] at h' ⊢
  rw [h', h]

/-- The edge that a link draws into a diagram. -/
def Diagram.drawn (d : Diagram) (link : Link) (op : Operator) (source target : Text)
    (text : Option Text) : Edge :=
  let author := link.id.filter fun id => !id.isEmpty
  let wanted := author.getD
    (EdgeId.ofContent source target op.symbols text op.stroke op.source op.target)
  { id := .text (EdgeId.distinct wanted d.edgeIds), source, target, text := .ofText? text
    stroke := op.stroke, sourceTip := op.source, targetTip := op.target
    length := .number (.int op.length), named := .bool author.isSome }

/-- The links of the chain that a statement may be. -/
def Statement.links : Statement → List Link
  | .chain line | .properties _ _ line => (Chain.ofLine line).links
  | _ => []

/-- The links in the lines of a source text. -/
def Source.links (s : Text) : List Link :=
  (Reading.begin ((Source.meaningful s).map Reading.strip)).2.flatMap fun line =>
    (Statement.ofLine line).links

/-- One step of reading, in a text with these links. -/
inductive Diagram.ReadStep (links : List Link) (d : Diagram) : Diagram → Prop
  | direct (direction : Direction) : ReadStep links d { d with direction }
  | addNode (id text : Text) (shape : Shape) (parent : Value) (asked : shape.IsAsked) :
    ReadStep links d { d with nodes := Keyed.put { id, text, shape, parent } d.nodes }
  | changeNode {n m : Node} (there : n ∈ d.nodes) (becomes : n.Becomes m) :
    ReadStep links d { d with nodes := Keyed.put m d.nodes }
  | draw (link : Link) (op : Operator) (source target : Text) (text : Option Text)
    (here : link ∈ links) (tells : Operator.read? link.symbols = some op)
    (label : Reading.linkLabel link op = .ok text) :
    ReadStep links d { d with edges := Keyed.put (d.drawn link op source target text) d.edges }
  | changeEdge {e f : Edge} (there : e ∈ d.edges) (becomes : e.Becomes f) :
    ReadStep links d { d with edges := Keyed.put f d.edges }
  | setEdge (i : Nat) {e f : Edge} (there : d.edges[i]? = some e) (becomes : e.Becomes f) :
    ReadStep links d { d with edges := d.edges.set i f }
  | openSubgraph (id title : Text) (parent : Option Text) : ReadStep links d { d with
      subgraphs := Keyed.put { id, title, parent := .ofText? parent } d.subgraphs }
  | enlist {g : Subgraph} (there : g ∈ d.subgraphs) (node : Value) :
    ReadStep links d { d with subgraphs := Keyed.put (g.enlist node) d.subgraphs }
  | turn {g : Subgraph} (there : g ∈ d.subgraphs) (direction : Direction) :
    ReadStep links d { d with subgraphs := Keyed.put { g with direction := some direction } d.subgraphs }
  | define (name : Text) (declared : List Text) :
    ReadStep links d { d with classes := Keyed.put (name, declared.map .text) d.classes }

namespace Reading

/-- Steps lead from one reading to another. -/
def Proceeds (links : List Link) (r r' : Reading) : Prop :=
  ReflTransGen (Diagram.ReadStep links) r.diagram r'.diagram

variable {links : List Link} {r r' r'' : Reading}

theorem Proceeds.refl (r : Reading) : Proceeds links r r := ReflTransGen.refl

theorem Proceeds.trans (h : Proceeds links r r') (h' : Proceeds links r' r'') : Proceeds links r r'' :=
  ReflTransGen.trans h h'

theorem Proceeds.same (same : r'.diagram = r.diagram) : Proceeds links r r' := by
  unfold Proceeds
  rw [same]

theorem Proceeds.step (step : r.diagram.ReadStep links r'.diagram) : Proceeds links r r' := .single step

/-! ### Nodes -/

theorem join_proceeds (r : Reading) (n : Node) :
    Proceeds links r (r.join n).1 ∧ ∃ parent, (r.join n).2 = { n with parent } := by
  unfold join
  split
  · rename_i id _ _
    refine ⟨?_, _, rfl⟩
    dsimp only
    split
    · rename_i g found
      exact .step (.enlist (Keyed.mem_of_find? found) n.id)
    · exact .refl r
  · exact ⟨.refl r, n.parent, rfl⟩

theorem nodes_join (r : Reading) (n : Node) : (r.join n).1.diagram.nodes = r.diagram.nodes := by
  unfold join
  split
  · dsimp only
    split <;> rfl
  · rfl

theorem isAsked_rect : Shape.rect.IsAsked := Or.inl (by decide)

theorem meet_proceeds (r : Reading) (id : Text) (text : Option Text) (shape : Option Shape)
    (asked : ∀ s, shape = some s → s.IsAsked) : Proceeds links r (r.meet id text shape) := by
  have wanted : (shape.getD .rect).IsAsked := by
    cases shape with
    | none => exact isAsked_rect
    | some s => exact asked s rfl
  -- whether the node is new or not, it joins what is open and is put where it belongs
  have put : ∀ n : Node, (∀ parent, ∀ d : Diagram, d.nodes = r.diagram.nodes →
      d.ReadStep links { d with nodes := Keyed.put { n with parent } d.nodes }) →
      Proceeds links r ((r.join n).1.putNode (r.join n).2) := by
    intro n step
    obtain ⟨joins, parent, same⟩ := join_proceeds r n
    rw [same]
    exact joins.trans (.step (step parent _ (nodes_join r n)))
  unfold meet
  dsimp only
  split
  · refine put _ fun parent d _ => .addNode id (text.getD id) _ parent ?_
    split
    · exact isAsked_rect
    · exact wanted
  · rename_i n known
    refine put _ fun parent d same =>
      .changeNode (n := n) (same ▸ Keyed.mem_of_find? known) (.met _ _ _ ?_ ?_)
    · dsimp only
      split
      · split
        · exact Or.inl rfl
        · exact Or.inr ⟨_, rfl⟩
      · exact Or.inl rfl
    · dsimp only
      split
      · rename_i s
        split
        · exact Or.inl rfl
        · exact Or.inr (asked s rfl)
      · exact Or.inl rfl

theorem putNode_proceeds {n m : Node} {id : Value} (there : r.diagram.node? id = some n)
    (becomes : n.Becomes m) : Proceeds links r (r.putNode m) :=
  .step (.changeNode (Keyed.mem_of_find? there) becomes)

theorem known_of_bracketed {s id text : Text} {shape : Shape}
    (read : readBracketed? s = some (id, text, shape)) : shape ∈ Shape.known := by
  have listed : ∀ b ∈ Shape.brackets, b.shape ∈ Shape.known := by decide
  unfold readBracketed? at read
  dsimp only at read
  split at read
  · cases read
  · obtain ⟨b, hb, read⟩ := List.exists_of_findSome?_eq_some read
    simp only [Option.bind_eq_bind, Option.bind_eq_some_iff, pure, Option.some.injEq,
      Prod.mk.injEq] at read
    obtain ⟨_, _, _, _, _, _, rfl⟩ := read
    exact listed b hb

theorem meetNode_proceeds {s : Text} {found : Option Text}
    (read : r.meetNode s = .ok (found, r')) : Proceeds links r r' := by
  unfold Reading.meetNode at read
  split at read
  · rename_i id body _
    simp only [bind_eq_ok] at read
    obtain ⟨properties, _, read⟩ := read
    have met : Proceeds links r (r.meet id ((Keyed.find? "label".toList properties).map (·.2))
        ((property? properties "shape").map Shape.resolve)) := by
      refine meet_proceeds r id _ _ fun s hs => ?_
      obtain ⟨name, _, rfl⟩ := Option.map_eq_some_iff.mp hs
      exact Or.inr ⟨name, rfl⟩
    split at read
    · rename_i n known
      simp only [bind_eq_ok, pure_eq_ok, Prod.mk.injEq] at read
      obtain ⟨m, made, _, rfl⟩ := read
      exact met.trans (putNode_proceeds known (.withProperties properties made))
    · simp only [pure_eq_ok, Prod.mk.injEq] at read
      obtain ⟨_, rfl⟩ := read
      exact met
  · split at read
    · rename_i id text shape bracketed
      simp only [bind_eq_ok, pure_eq_ok, Prod.mk.injEq] at read
      obtain ⟨text, _, _, rfl⟩ := read
      refine meet_proceeds r id (some text) (some shape) fun s hs => ?_
      cases hs
      exact Or.inl (known_of_bracketed bracketed)
    · split at read
      · cases read
        exact meet_proceeds r s none none (by simp)
      · cases read
        exact .refl r

theorem meetPiece_proceeds {piece : Text} {found : Option Text}
    (read : r.meetPiece piece = .ok (found, r')) : Proceeds links r r' := by
  simp only [Reading.meetPiece, bind_eq_ok] at read
  obtain ⟨⟨id?, q⟩, met, read⟩ := read
  have met : Proceeds links r q := meetNode_proceeds met
  split at read
  · rename_i n known
    simp only [pure_eq_ok, Prod.mk.injEq] at read
    obtain ⟨_, rfl⟩ := read
    obtain ⟨id, _, known⟩ := Option.bind_eq_some_iff.mp known
    exact met.trans (putNode_proceeds known (.withClasses _))
  · simp only [pure_eq_ok, Prod.mk.injEq] at read
    obtain ⟨_, rfl⟩ := read
    exact met

theorem meetPieces_proceeds {pieces ids : List Text}
    (read : r.meetPieces pieces = .ok (ids, r')) : Proceeds links r r' := by
  induction pieces generalizing r ids with
  | nil =>
    cases read
    exact .refl _
  | cons piece pieces ih =>
    simp only [Reading.meetPieces, bind_eq_ok, pure_eq_ok, Prod.mk.injEq] at read
    obtain ⟨⟨id?, q⟩, met, ⟨ids, q'⟩, rest, _, rfl⟩ := read
    exact (meetPiece_proceeds met).trans (ih rest)

theorem meetTexts_proceeds {line : Text} {texts : List Text} {groups : Option (List (List Text))}
    (read : r.meetTexts line texts = .ok (groups, r')) : Proceeds links r r' := by
  induction texts generalizing r groups with
  | nil =>
    cases read
    exact .refl _
  | cons text texts ih =>
    simp only [Reading.meetTexts, bind_eq_ok] at read
    obtain ⟨⟨ids, q⟩, met, read⟩ := read
    have met : Proceeds links r q := meetPieces_proceeds met
    split at read
    · simp only [pure_eq_ok, Prod.mk.injEq] at read
      obtain ⟨_, rfl⟩ := read
      exact met.trans (.same rfl)
    · simp only [bind_eq_ok, pure_eq_ok, Prod.mk.injEq] at read
      obtain ⟨⟨rest, q'⟩, more, _, rfl⟩ := read
      exact met.trans (ih more)

/-! ### Edges -/

theorem draw_proceeds {link : Link} {op : Operator} (here : link ∈ links)
    (tells : Operator.read? link.symbols = some op) {source target : Text}
    (read : r.draw link op source target = .ok r') : Proceeds links r r' := by
  simp only [Reading.draw, bind_eq_ok, pure_eq_ok] at read
  obtain ⟨text, label, rfl⟩ := read
  -- with or without a note that the id was taken
  split
  · exact .step (.draw link op source target text here tells label)
  · exact .step (.draw link op source target text here tells label)

theorem drawLinks_proceeds {drawn : List Link} (here : drawn ⊆ links) {groups : List (List Text)}
    (read : r.drawLinks drawn groups = .ok r') : Proceeds links r r' := by
  induction drawn generalizing r groups with
  | nil =>
    rw [Reading.drawLinks] at read
    · cases read
      exact .refl _
    · simp
  | cons link drawn ih =>
    obtain ⟨first, later⟩ := List.cons_subset.mp here
    match groups with
    | [] | [_] =>
      cases read
      exact .refl _
    | sources :: targets :: groups =>
      simp only [Reading.drawLinks] at read
      split at read
      · refine Proceeds.trans ?_ (ih later read)
        exact .same rfl
      · rename_i op tells
        obtain ⟨q, drawn, rest⟩ := bind_eq_ok.mp read
        refine Proceeds.trans ?_ (ih later rest)
        refine foldlM_inv (P := fun q => Proceeds links _ q) ?_ (.refl _) drawn
        exact fun _ _ _ _ before one => before.trans (draw_proceeds first tells one)

theorem readChain_proceeds {line : Text} (here : (Chain.ofLine line).links ⊆ links)
    (read : r.readChain line = .ok r') : Proceeds links r r' := by
  simp only [Reading.readChain, bind_eq_ok] at read
  obtain ⟨⟨groups, q⟩, met, read⟩ := read
  have before : Proceeds links r q := meetTexts_proceeds met
  cases groups with
  | none =>
    cases read
    exact before
  | some groups => exact before.trans (drawLinks_proceeds here read)

theorem putEdge_proceeds {e f : Edge} {id : Value} (there : r.diagram.edge? id = some e)
    (becomes : e.Becomes f) : Proceeds links r (r.putEdge f) :=
  .step (.changeEdge (Keyed.mem_of_find? there) becomes)

theorem styleLinks_proceeds {places : Option Text} {declared : List (Text × Text)}
    (read : r.styleLinks places declared = .ok r') : Proceeds links r r' := by
  unfold Reading.styleLinks at read
  -- the places are all or listed, and what is done at them is the same
  cases places
  all_goals
    obtain ⟨targets, _, read⟩ := bind_eq_ok.mp read
    obtain ⟨es, walk, read⟩ := bind_eq_ok.mp read
    cases read
    refine foldlM_inv (P := fun es => Proceeds links r { r with diagram.edges := es }) ?_ (.refl r) walk
    intro es i es' _ before one
    split at one
    · rename_i e there
      obtain ⟨f, made, one⟩ := bind_eq_ok.mp one
      cases one
      exact before.trans (.step (.setEdge i there (.withStyle declared made)))
    · cases one
      exact before

/-! ### Statements -/

theorem openSubgraph_proceeds {header : Text} (read : r.openSubgraph header = .ok r') :
    Proceeds links r r' := by
  simp only [Reading.openSubgraph, bind_eq_ok, pure_eq_ok] at read
  obtain ⟨⟨id, title⟩, _, rfl⟩ := read
  split
  · exact .same rfl
  · exact .step (.openSubgraph id title r.opened.head?)

theorem setDirection_proceeds (r : Reading) (word : Text) : Proceeds links r (r.setDirection word) := by
  unfold Reading.setDirection
  split
  · exact .same rfl
  · rename_i direction _
    split
    · exact .step (.direct direction)
    · split
      · rename_i g found
        exact .step (.turn (Keyed.mem_of_find? found) direction)
      · exact .refl r

theorem define_proceeds (r : Reading) (classNames styles : Text) :
    Proceeds links r (r.define classNames styles) := by
  unfold Reading.define
  dsimp only
  refine List.foldlRecOn (motive := fun cs => Proceeds links r { r with diagram.classes := cs })
    (names classNames) _ (.refl r) fun cs before name _ => ?_
  exact before.trans (.step (.define name _))

theorem assign_proceeds (r : Reading) (classes : List Text) (id : Text) :
    Proceeds links r (Reading.assign classes r id) := by
  unfold Reading.assign
  split
  · rename_i found
    exact putNode_proceeds found (.withClasses classes)
  · rename_i found
    exact putEdge_proceeds found (.withClasses classes)
  · exact .same rfl

theorem read_proceeds {s : Statement} (here : s.links ⊆ links) (read : r.read s = .ok r') :
    Proceeds links r r' := by
  cases s with
  | close =>
    cases read
    split
    · exact .same rfl
    · exact .same rfl
  | subgraph header => exact openSubgraph_proceeds read
  | direction word =>
    cases read
    exact setDirection_proceeds r word
  | define names styles =>
    cases read
    exact define_proceeds r names styles
  | assign ids classes =>
    cases read
    refine List.foldlRecOn (motive := fun q => Proceeds links r q) _ _ (.refl r) ?_
    exact fun q before id _ => before.trans (assign_proceeds q _ id)
  | style id declarations =>
    simp only [Reading.read] at read
    split at read
    · cases read
      exact .same rfl
    · rename_i n found
      obtain ⟨m, made, rfl⟩ := map_eq_ok.mp read
      exact putNode_proceeds found (.withStyle _ made)
  | linkStyle places declarations => exact styleLinks_proceeds read
  | click id url tooltip target =>
    simp only [Reading.read] at read
    split at read
    · cases read
      exact .same rfl
    · rename_i n found
      cases tooltip with
      | none =>
        cases read
        exact putNode_proceeds found (.withLink url n.tooltip target (Or.inl rfl))
      | some t =>
        obtain ⟨t', decoded, read⟩ := bind_eq_ok.mp read
        obtain ⟨t'', _, rfl⟩ := map_eq_ok.mp decoded
        cases read
        exact putNode_proceeds found (.withLink url (.text t'') target (Or.inr ⟨t'', rfl⟩))
  | properties id body line =>
    simp only [Reading.read] at read
    split at read
    · rename_i e found
      obtain ⟨f, made, rfl⟩ := map_eq_ok.mp read
      exact putEdge_proceeds found (.withProperties body made)
    · exact readChain_proceeds here read
  | chain line => exact readChain_proceeds here read

theorem readLines_proceeds {lines : List Text}
    (here : ∀ line ∈ lines, (Statement.ofLine line).links ⊆ links)
    (read : r.readLines lines = .ok r') : Proceeds links r r' := by
  refine foldlM_inv (P := fun q => Proceeds links r q) ?_ (.refl r) read
  exact fun _ line _ there before one =>
    before.trans (read_proceeds (here line (List.mem_of_mem_filter there)) one)

theorem diagram_begin (lines : List Text) :
    ∃ direction : Direction, (begin lines).1.diagram = { direction } := by
  unfold begin
  split
  rename_i before rest _
  cases rest with
  | nil => exact ⟨.tb, rfl⟩
  | cons line body =>
    cases declared : Source.declaration? line with
    | none =>
      simp only [declared]
      exact ⟨.tb, rfl⟩
    | some declaration =>
      simp only [declared]
      exact ⟨_, rfl⟩

end Reading

/-! ### What becomes of edges -/

theorem forall₂_trans {α β γ : Type} {R : α → β → Prop} {S : β → γ → Prop} {T : α → γ → Prop}
    {xs : List α} {ys : List β} {zs : List γ} (h : List.Forall₂ R xs ys)
    (h' : List.Forall₂ S ys zs) (through : ∀ x y z, R x y → S y z → T x z) :
    List.Forall₂ T xs zs := by
  induction h generalizing zs with
  | nil =>
    cases h'
    exact .nil
  | cons one _ ih =>
    cases h' with
    | cons next rest => exact .cons (through _ _ _ one next) (ih rest)

theorem Edge.keys_kept {es fs : List Edge} (kept : List.Forall₂ Edge.Kept es fs) :
    Keyed.keys fs = Keyed.keys es := by
  induction kept with
  | nil => rfl
  | cons same _ ih => exact congrArg₂ List.cons same.id ih

namespace Diagram
variable {d d' : Diagram} {links : List Link}

/-- In a single step of reading all edges stay, or one is drawn. -/
theorem ReadStep.edges (step : d.ReadStep links d') (nodup : (Keyed.keys d.edges).Nodup) :
    List.Forall₂ Edge.Kept d.edges d'.edges ∨ ∃ link ∈ links, ∃ op source target text,
      Operator.read? link.symbols = some op ∧
        d'.edges = Keyed.put (d.drawn link op source target text) d.edges := by
  have unchanged : List.Forall₂ Edge.Kept d.edges d.edges :=
    List.forall₂_same.mpr fun _ _ => rfl
  cases step with
  | draw link op source target text here tells _ =>
    exact Or.inr ⟨link, here, op, source, target, text, tells, rfl⟩
  | @changeEdge e f there becomes =>
    have kept : e.Kept f := becomes.same
    have key : Keyed.key f ∈ Keyed.keys d.edges := by
      rw [Edge.key_eq, kept.id]
      exact Keyed.mem_keys there
    apply Or.inl
    show List.Forall₂ _ d.edges (Keyed.put f d.edges)
    rw [Keyed.put_eq_map nodup key, List.forall₂_map_right_iff, List.forall₂_same]
    intro g hg
    split
    · rename_i same
      rw [Edge.key_eq, Edge.key_eq, kept.id] at same
      rw [Keyed.eq_of_key_eq nodup hg there same]
      exact kept
    · rfl
  | @setEdge i e f there becomes =>
    apply Or.inl
    refine List.forall₂_iff_get.mpr ⟨List.length_set.symm, fun j here here' => ?_⟩
    rw [List.get_eq_getElem, List.get_eq_getElem]
    show Edge.Kept d.edges[j] (d.edges.set i f)[j]
    rw [List.getElem_set]
    split
    · rename_i same
      subst same
      rw [List.getElem?_eq_getElem here] at there
      rw [Option.some.inj there]
      exact becomes.same
    · rfl
  | _ => exact Or.inl unchanged

end Diagram

/-- Where no link is read, all edges stay. -/
theorem Reading.Proceeds.edges {r r' : Reading} (h : Proceeds [] r r')
    (nodup : (Keyed.keys r.diagram.edges).Nodup) :
    List.Forall₂ Edge.Kept r.diagram.edges r'.diagram.edges := by
  have reached : ∀ {d'}, ReflTransGen (Diagram.ReadStep []) r.diagram d' →
      List.Forall₂ Edge.Kept r.diagram.edges d'.edges := by
    intro d' steps
    induction steps with
    | refl => exact List.forall₂_same.mpr fun _ _ => rfl
    | tail _ step ih =>
      have distinct := Edge.keys_kept ih ▸ nodup
      rcases step.edges distinct with kept | ⟨link, nowhere, _⟩
      · exact forall₂_trans ih kept fun _ _ _ => Edge.Kept.trans
      · cases nowhere
  exact reached h

/-- What an empty diagram has and every step of reading keeps, every diagram that is read had before
it was settled. -/
theorem Diagram.read_induction {P : Diagram → Prop} {s : Text}
    (start : ∀ direction : Direction, P { direction })
    (step : ∀ d d' : Diagram, P d → d.ReadStep (Source.links s) d' → P d') {d : Diagram}
    (h : Diagram.read s = .ok d) : ∃ q, P q ∧ d = q.settle := by
  obtain ⟨r, read, rfl⟩ := map_eq_ok.mp h
  simp only [Reading.ofText] at read
  split at read
  · simp only [Reading.ofSource, bind_eq_ok, pure_eq_ok] at read
    obtain ⟨q, read, rfl⟩ := read
    obtain ⟨direction, begun⟩ := Reading.diagram_begin ((Source.meaningful s).map Reading.strip)
    have reached : ∀ e, ReflTransGen (ReadStep (Source.links s)) { direction } e → P e := by
      intro e steps
      induction steps with
      | refl => exact start direction
      | tail _ one ih => exact step _ _ ih one
    have steps : Reading.Proceeds (Source.links s) _ q := Reading.readLines_proceeds
      (fun line here link mem => List.mem_flatMap.mpr ⟨line, here, mem⟩) read
    exact ⟨q.diagram, reached q.diagram (begun ▸ steps), rfl⟩
  · cases read
    exact ⟨{}, start .tb, rfl⟩

/-- What a text makes has the trait, and keeps it when it is named again. -/
structure Trait.Readable (t : Trait) : Prop where
  node : ∀ (id text : Text) (shape : Shape) (parent : Value), shape.IsAsked →
    t.node { id, text, shape, parent }
  becomes : ∀ {n m : Node}, n.Becomes m → t.node n → t.node m
  drawn : ∀ (d : Diagram) (link : Link) (op : Operator) (source target : Text) (text : Option Text),
    t.edge (d.drawn link op source target text)
  changes : ∀ {e f : Edge}, e.Becomes f → t.edge e → t.edge f
  opened : ∀ (id title : Text) (parent : Value), t.subgraph { id, title, parent }
  turned : ∀ (g : Subgraph) (direction : Direction), t.subgraph g →
    t.subgraph { g with direction := some direction }
  defined : ∀ (cs : List StyleClass) (name : Text) (declared : List Text), t.classes cs →
    t.classes (Keyed.put (name, declared.map .text) cs)

namespace Diagram
open Keyed (forall_mem_put)

theorem ReadStep.has {t : Trait} (readable : t.Readable) {links : List Link} {d d' : Diagram}
    (h : d.Has t) (step : d.ReadStep links d') : d'.Has t := by
  obtain ⟨nodes, edges, subgraphs, classes⟩ := h
  cases step with
  | direct direction => exact ⟨nodes, edges, subgraphs, classes⟩
  | addNode id text shape parent asked =>
    exact ⟨forall_mem_put (readable.node id text shape parent asked) nodes, edges, subgraphs, classes⟩
  | changeNode there becomes =>
    exact ⟨forall_mem_put (readable.becomes becomes (nodes _ there)) nodes, edges, subgraphs, classes⟩
  | draw link op source target text =>
    exact ⟨nodes, forall_mem_put (readable.drawn d link op source target text) edges, subgraphs, classes⟩
  | changeEdge there becomes =>
    exact ⟨nodes, forall_mem_put (readable.changes becomes (edges _ there)) edges, subgraphs, classes⟩
  | setEdge i there becomes =>
    refine ⟨nodes, fun f hf => ?_, subgraphs, classes⟩
    rcases List.mem_or_eq_of_mem_set hf with old | rfl
    · exact edges f old
    · exact readable.changes becomes (edges _ (List.mem_of_getElem? there))
  | openSubgraph id title parent =>
    exact ⟨nodes, edges, forall_mem_put (readable.opened id title _) subgraphs, classes⟩
  | @enlist g there node =>
    refine ⟨nodes, edges, forall_mem_put ?_ subgraphs, classes⟩
    unfold Subgraph.enlist
    split
    · exact subgraphs g there
    · exact t.regrouped g _ g.parent (subgraphs g there)
  | turn there direction =>
    exact ⟨nodes, edges, forall_mem_put (readable.turned _ direction (subgraphs _ there)) subgraphs, classes⟩
  | define name declared =>
    exact ⟨nodes, edges, subgraphs, readable.defined d.classes name declared classes⟩

theorem has_read {t : Trait} (readable : t.Readable) {s : Text} {d : Diagram}
    (h : Diagram.read s = .ok d) : ∃ q : Diagram, q.Has t ∧ d = q.settle :=
  read_induction (fun _ => ⟨by simp, by simp, by simp, t.unstyled⟩)
    (fun _ _ has step => step.has readable has) h

end Diagram
end Flowchart
