import Flowchart.Proofs.EdgeId
import Flowchart.Proofs.Listings
import Flowchart.Proofs.Parts
import Flowchart.Proofs.ReadingSteps
import Flowchart.Proofs.Traits
import Flowchart.Proofs.Wording

/-! The words of a diagram that is read. Ids of nodes, classes, styles and links are parts of lines as
they stand there; texts, titles, tooltips and properties are what lines tell, which may be written in
codes. Ids of edges and of subgraphs may also be made up. Nothing else gets into a diagram. -/
namespace Flowchart
open Text

/-- What holds of the lines of a text and so of their parts, and what then holds of all that is told in
them and of the ids that are made for subgraphs. -/
structure Vocabulary (word told : Text → Prop) : Prop where
  inline : ∀ {s}, word s → Inline s
  part : ∀ {s t}, s <:+: t → word t → word s
  tells : ∀ {s t}, word s → Told s t → told t
  numbered : ∀ n, told ("subGraph".toList ++ ofNat n)

/-- The value is a text of some kind, or nothing. -/
def Value.Says (p : Text → Prop) (v : Value) : Prop := v = .null ∨ ∃ t, v = .text t ∧ p t

section
variable {p q : Text → Prop} {v : Value} {t : Text}

theorem Value.Says.text (h : p t) : Value.Says p (.text t) := Or.inr ⟨t, rfl, h⟩

theorem Value.says_ofText? {t : Option Text} (h : ∀ s ∈ t, p s) : (Value.ofText? t).Says p := by
  cases t with
  | none => exact Or.inl rfl
  | some t => exact .text (h t rfl)

theorem Value.says_textOr {t : Option Text} (h : ∀ s ∈ t, p s) (before : v.Says p) :
    (Reading.textOr t v).Says p := by
  cases t with
  | none => exact before
  | some t => exact .text (h t rfl)

/-- The value is an integer if it is anything. -/
def Value.Counts (v : Value) : Prop := v.isSome → v.isInt

theorem Value.counts_integerOr {t : Option Text} {w : Value} (h : v.Counts)
    (read : Reading.integerOr t v = .ok w) : w.Counts := by
  unfold Reading.integerOr at read
  split at read
  · obtain ⟨n, _, rfl⟩ := map_eq_ok.mp read
    cases n with
    | none => exact fun here => absurd here (by decide)
    | some n => exact fun _ => rfl
  · cases read
    exact h

theorem Reading.says_addClasses {names : List Text} {classes : List Value} (h : ∀ n ∈ names, p n)
    (before : ∀ c ∈ classes, c.Says p) : ∀ c ∈ addClasses names classes, c.Says p := by
  refine List.foldlRecOn (motive := fun cs : List Value => ∀ c ∈ cs, c.Says p) _ _ before ?_
  intro cs said c hc
  obtain ⟨name, here, rfl⟩ := List.mem_map.mp hc
  split
  · exact said
  · intro d hd
    rcases List.mem_append.mp hd with hd | hd
    · exact said d hd
    · rw [List.mem_singleton.mp hd]
      exact .text (h name here)

end

/-! ### Entities -/

section
variable (word told : Text → Prop)

/-- The colours of the style are words, and its line width is an integer. -/
structure NodeStyle.Spelled (s : NodeStyle) : Prop where
  fill : s.fill.Says word
  stroke : s.stroke.Says word
  width : s.strokeWidth.Counts
  color : s.color.Says word

/-- The colour of the style is a word, and its line width is an integer. -/
structure EdgeStyle.Spelled (s : EdgeStyle) : Prop where
  stroke : s.stroke.Says word
  width : s.strokeWidth.Counts

/-- The shape is one that the notation knows, or has a name that was told. -/
def Shape.Named (s : Shape) : Prop := s ∈ known ∨ ∃ t, told t ∧ s = resolve t

/-- All that the node says is a word or was told. -/
structure Node.Spelled (n : Node) : Prop where
  id : ∃ t, n.id = .text t ∧ Word t
  text : n.text.Says told
  shape : n.shape.Named told
  further : ∀ v ∈ [n.icon, n.image, n.form, n.labelPosition, n.tooltip], v.Says told
  width : n.width.Counts
  height : n.height.Counts
  classes : ∀ c ∈ n.classes, c.Says word
  link : n.link.Says fun t => word t ∧ '"' ∉ t
  target : n.linkTarget.Says word
  style : ∀ s, n.style = some s → s.Spelled word

/-- All that the edge says is a word or was told, except that its id may be made up. -/
structure Edge.Spelled (e : Edge) : Prop where
  id : e.id.Says Inline
  text : e.text.Says told
  animation : e.animation.Says told
  classes : ∀ c ∈ e.classes, c.Says word
  style : ∀ s, e.style = some s → s.Spelled word

/-- The id and the title of the subgraph were told. -/
structure Subgraph.Spelled (g : Subgraph) : Prop where
  id : g.id.Says told
  title : g.title.Says told

/-- All that a diagram says is spelled in words or was told. -/
def Trait.spelled : Trait where
  node := Node.Spelled word told
  edge := Edge.Spelled word told
  subgraph := Subgraph.Spelled told
  classes cs := ∀ c ∈ cs, word c.1 ∧ ∀ v ∈ c.2, v.Says word
  moved _ _ h := { h with }
  regrouped _ _ _ h := ⟨h.id, h.title⟩
  unstyled := by simp
  undefined _ _ h := fun c hc => h c (List.mem_of_mem_filter hc)

end

/-! ### Ids of edges -/

namespace EdgeId

theorem chars_ofContent (source target symbols : Text) (label : Option Text) (stroke : Stroke)
    (start finish : Tip) : ∀ c ∈ ofContent source target symbols label stroke start finish,
      isLineBreak c = false ∧ c ≠ '%' :=
  forall_mem_ofContent (by decide) (by decide) source target symbols label stroke start finish

theorem inline_distinct {base : Text} (h : Inline base) (taken : List Text) :
    Inline (distinct base taken) := by
  unfold distinct
  split
  · obtain ⟨m, _, found, _⟩ := firstFree_spec base taken 1
    have begun : Inline (base ++ "-dup".toList) := h.after (by decide)
    rw [found, numbered]
    exact begun.append (Word.ofNat m).toInline (Or.inr (by simp))
  · exact h

end EdgeId

namespace Reading
variable {word told : Text → Prop} {r r' : Reading}

/-- The diagram that has been read so far is spelled. -/
abbrev Spelled (word told : Text → Prop) (r : Reading) : Prop := r.diagram.Has (.spelled word told)

/-! ### What becomes of single entities -/

theorem Spelled.putNode (h : r.Spelled word told) {n : Node} (hn : n.Spelled word told) :
    (r.putNode n).Spelled word told :=
  ⟨Keyed.forall_mem_put hn h.nodes, h.edges, h.subgraphs, h.classes⟩

theorem Spelled.putEdge (h : r.Spelled word told) {e : Edge} (he : e.Spelled word told) :
    (r.putEdge e).Spelled word told :=
  ⟨h.nodes, Keyed.forall_mem_put he h.edges, h.subgraphs, h.classes⟩

theorem Spelled.putSubgraph (h : r.Spelled word told) {g : Subgraph} (hg : g.Spelled told) :
    (r.putSubgraph g).Spelled word told :=
  ⟨h.nodes, h.edges, Keyed.forall_mem_put hg h.subgraphs, h.classes⟩

theorem Spelled.node? (h : r.Spelled word told) {id : Value} {n : Node}
    (found : r.diagram.node? id = some n) : n.Spelled word told :=
  h.nodes n (Keyed.mem_of_find? found)

theorem withProperties_spelled {n m : Node} {properties : List (Text × Text)}
    (h : n.Spelled word told) (said : ∀ p ∈ properties, told p.2)
    (made : withProperties n properties = .ok m) : m.Spelled word told := by
  have get : ∀ key, ∀ t ∈ property? properties key, told t := by
    intro key t ht
    obtain ⟨found, _⟩ := Option.filter_eq_some_iff.mp ht
    obtain ⟨p, there, rfl⟩ := Option.map_eq_some_iff.mp found
    exact said p (Keyed.mem_of_find? there)
  obtain ⟨icon, image, form, position, tooltip⟩ := by
    simpa only [List.forall_mem_cons] using h.further
  simp only [withProperties, bind_eq_ok, pure_eq_ok] at made
  obtain ⟨width, hwidth, height, hheight, rfl⟩ := made
  refine { h with further := ?_, width := ?_, height := ?_ }
  · simp only [List.forall_mem_cons]
    exact ⟨Value.says_textOr (get _) icon, Value.says_textOr (get _) image,
      Value.says_textOr (get _) form, Value.says_textOr (get _) position,
      Value.says_textOr (get _) tooltip.1, by simp⟩
  · exact Value.counts_integerOr h.width hwidth
  · exact Value.counts_integerOr h.height hheight

theorem withEdgeProperties_spelled (v : Vocabulary word told) {e f : Edge} {body : Text}
    (h : e.Spelled word told) (said : word body) (made : withEdgeProperties e body = .ok f) :
    f.Spelled word told := by
  simp only [withEdgeProperties, bind_eq_ok, pure_eq_ok] at made
  obtain ⟨properties, read, rfl⟩ := made
  refine { h with animation := ?_ }
  dsimp only
  split
  · rename_i t found
    obtain ⟨p, there, rfl⟩ := Option.map_eq_some_iff.mp found
    split
    · exact Or.inl rfl
    · exact .text (v.tells said (Quoted.told_properties read p (Keyed.mem_of_find? there)))
  · exact h.animation

section
variable {declared : List (Text × Text)}

theorem says_declared (said : ∀ d ∈ declared, word d.2) (key : Text) :
    ∀ t ∈ (Keyed.find? key declared).map (·.2), word t := by
  intro t ht
  obtain ⟨d, there, rfl⟩ := Option.map_eq_some_iff.mp ht
  exact said d (Keyed.mem_of_find? there)

theorem withStyle_spelled {n m : Node} (h : n.Spelled word told) (said : ∀ d ∈ declared, word d.2)
    (made : withStyle n declared = .ok m) : m.Spelled word told := by
  have old : (n.style.getD .plain).Spelled word := by
    cases given : n.style with
    | none => exact ⟨Or.inl rfl, Or.inl rfl, fun here => absurd here (by decide), Or.inl rfl⟩
    | some s => exact h.style s given
  simp only [withStyle, bind_eq_ok, pure_eq_ok] at made
  obtain ⟨width, read, rfl⟩ := made
  refine { h with style := fun s hs => ?_ }
  split at hs
  · cases hs
  · cases hs
    exact ⟨Value.says_textOr (says_declared said _) old.fill,
      Value.says_textOr (says_declared said _) old.stroke, Value.counts_integerOr old.width read,
      Value.says_textOr (says_declared said _) old.color⟩

theorem withEdgeStyle_spelled {e f : Edge} (h : e.Spelled word told)
    (said : ∀ d ∈ declared, word d.2) (made : withEdgeStyle declared e = .ok f) :
    f.Spelled word told := by
  have old : (e.style.getD .plain).Spelled word := by
    cases given : e.style with
    | none => exact ⟨Or.inl rfl, fun here => absurd here (by decide)⟩
    | some s => exact h.style s given
  simp only [withEdgeStyle, bind_eq_ok, pure_eq_ok] at made
  obtain ⟨width, read, rfl⟩ := made
  refine { h with style := fun s hs => ?_ }
  split at hs
  · cases hs
  · cases hs
    exact ⟨Value.says_textOr (says_declared said _) old.stroke, Value.counts_integerOr old.width read⟩

end

/-! ### Nodes -/

theorem Spelled.joined (h : r.Spelled word told) {n : Node} (hn : n.Spelled word told) :
    ((r.join n).1.putNode (r.join n).2).Spelled word told := by
  unfold join
  split
  · dsimp only
    split
    · rename_i g found
      have old := h.subgraphs g (Keyed.mem_of_find? found)
      refine (h.putSubgraph ?_).putNode { hn with }
      unfold Subgraph.enlist
      split
      · exact old
      · exact ⟨old.id, old.title⟩
    · exact h.putNode { hn with }
  · exact h.putNode hn

theorem Spelled.meet (v : Vocabulary word told) (h : r.Spelled word told) {id : Text}
    (own : word id ∧ Word id) {text : Option Text} (said : ∀ t ∈ text, told t)
    {shape : Option Shape} (named : ∀ s ∈ shape, s.Named told) :
    (r.meet id text shape).Spelled word told := by
  have rect : Shape.rect.Named told := Or.inl (by decide)
  have nothing : Value.Counts .null := fun here => absurd here (by decide)
  unfold Reading.meet
  dsimp only
  split
  · refine h.joined ⟨⟨id, rfl, own.2⟩, .text ?_, ?_, ?_, nothing, nothing, by simp, Or.inl rfl,
      Or.inl rfl, nofun⟩
    · cases text with
      | none => exact v.tells own.1 (.part (List.infix_refl id))
      | some t => exact said t rfl
    · split
      · exact rect
      · cases shape with
        | none => exact rect
        | some s => exact named s rfl
    · intro w hw
      simp only [List.mem_cons, List.not_mem_nil, or_false, or_self] at hw
      exact Or.inl hw
  · rename_i n known
    have old := h.node? known
    refine h.joined { old with text := ?_, shape := ?_ }
    · dsimp only
      split
      · split
        · exact old.text
        · exact .text (said _ rfl)
      · exact old.text
    · dsimp only
      split
      · split
        · exact old.shape
        · exact named _ rfl
      · exact old.shape

theorem Spelled.meetNode (v : Vocabulary word told) (h : r.Spelled word told) {s : Text}
    (here : word s) {found : Option Text} (read : r.meetNode s = .ok (found, r')) :
    r'.Spelled word told := by
  have own : ∀ {id : Text}, id <:+: s → id ≠ [] → (∀ c ∈ id, isBlank c = false) →
      word id ∧ Word id := fun inner some_id solid =>
    ⟨v.part inner here, v.inline (v.part inner here), some_id, solid⟩
  unfold Reading.meetNode at read
  split at read
  · rename_i id body parts
    obtain ⟨first, last, some_id, solid⟩ := propertied?_parts parts
    simp only [bind_eq_ok] at read
    obtain ⟨properties, told_body, read⟩ := read
    have said : ∀ p ∈ properties, told p.2 := fun p hp =>
      v.tells (v.part last here) (Quoted.told_properties told_body p hp)
    have met : (r.meet id ((Keyed.find? "label".toList properties).map (·.2))
        ((property? properties "shape").map Shape.resolve)).Spelled word told := by
      refine h.meet v (own first some_id solid) (says_declared said _) fun shape hs => Or.inr ?_
      obtain ⟨name, there, rfl⟩ := Option.map_eq_some_iff.mp hs
      exact ⟨name, says_declared said _ name (Option.filter_eq_some_iff.mp there).1, rfl⟩
    split at read
    · rename_i n known
      simp only [bind_eq_ok, pure_eq_ok, Prod.mk.injEq] at read
      obtain ⟨m, made, _, rfl⟩ := read
      exact met.putNode (withProperties_spelled (met.node? known) said made)
    · simp only [pure_eq_ok, Prod.mk.injEq] at read
      obtain ⟨_, rfl⟩ := read
      exact met
  · split at read
    · rename_i id text shape parts
      obtain ⟨first, last, some_id, solid⟩ := readBracketed?_parts parts
      simp only [bind_eq_ok, pure_eq_ok, Prod.mk.injEq] at read
      obtain ⟨t, unquoted, _, rfl⟩ := read
      refine h.meet v (own first some_id solid) (fun t' ht => ?_) fun s' hs => ?_
      · cases ht
        exact v.tells (v.part last here) (Quoted.told_unquote unquoted)
      · cases hs
        exact Or.inl (known_of_bracketed parts)
    · split at read
      · rename_i bare
        cases read
        obtain ⟨some_id, solid⟩ := solid_of_isBareId bare fun last =>
          absurd ((v.inline here).breaks _ (List.mem_of_getLast? last)) (by decide)
        exact h.meet v (own (List.infix_refl s) some_id solid) (by simp) (by simp)
      · cases read
        exact h

theorem Spelled.meetPiece (v : Vocabulary word told) (h : r.Spelled word told) {piece : Text}
    (here : word piece) {found : Option Text} (read : r.meetPiece piece = .ok (found, r')) :
    r'.Spelled word told := by
  obtain ⟨text, classes⟩ := takeClasses_parts piece.length piece
  simp only [Reading.meetPiece, bind_eq_ok] at read
  obtain ⟨⟨id?, q⟩, met, read⟩ := read
  have met : q.Spelled word told :=
    h.meetNode v (v.part ((infix_trim _).trans text.isInfix) here) met
  split at read
  · rename_i n known
    simp only [pure_eq_ok, Prod.mk.injEq] at read
    obtain ⟨_, rfl⟩ := read
    obtain ⟨id, _, known⟩ := Option.bind_eq_some_iff.mp known
    have old := met.node? known
    exact met.putNode { old with
      classes := says_addClasses (fun c hc => v.part (classes c hc) here) old.classes }
  · simp only [pure_eq_ok, Prod.mk.injEq] at read
    obtain ⟨_, rfl⟩ := read
    exact met

theorem Spelled.meetPieces (v : Vocabulary word told) (h : r.Spelled word told)
    {pieces ids : List Text} (here : ∀ p ∈ pieces, word p)
    (read : r.meetPieces pieces = .ok (ids, r')) : r'.Spelled word told := by
  induction pieces generalizing r ids with
  | nil =>
    cases read
    exact h
  | cons piece pieces ih =>
    simp only [Reading.meetPieces, bind_eq_ok, pure_eq_ok, Prod.mk.injEq] at read
    obtain ⟨⟨id?, q⟩, met, ⟨ids, q'⟩, rest, _, rfl⟩ := read
    exact ih (h.meetPiece v (here piece List.mem_cons_self) met)
      (fun p hp => here p (List.mem_cons_of_mem _ hp)) rest

theorem Spelled.meetTexts (v : Vocabulary word told) (h : r.Spelled word told) {line : Text}
    {texts : List Text} (here : ∀ t ∈ texts, word t) {groups : Option (List (List Text))}
    (read : r.meetTexts line texts = .ok (groups, r')) : r'.Spelled word told := by
  induction texts generalizing r groups with
  | nil =>
    cases read
    exact h
  | cons text texts ih =>
    simp only [Reading.meetTexts, bind_eq_ok] at read
    obtain ⟨⟨ids, q⟩, met, read⟩ := read
    have met : q.Spelled word told :=
      h.meetPieces v (fun p hp => v.part (infix_group hp) (here text List.mem_cons_self)) met
    split at read
    · simp only [pure_eq_ok, Prod.mk.injEq] at read
      obtain ⟨_, rfl⟩ := read
      exact met
    · simp only [bind_eq_ok, pure_eq_ok, Prod.mk.injEq] at read
      obtain ⟨⟨rest, q'⟩, more, _, rfl⟩ := read
      exact ih met (fun t ht => here t (List.mem_cons_of_mem _ ht)) more

/-! ### Edges -/

theorem Spelled.draw (v : Vocabulary word told) (h : r.Spelled word told) {line : Text}
    (here : word line) {link : Link} (within : link.Within line) {op : Operator}
    (tells : Operator.read? link.symbols = some op) {source target : Text}
    (read : r.draw link op source target = .ok r') : r'.Spelled word told := by
  simp only [Reading.draw, bind_eq_ok, pure_eq_ok] at read
  obtain ⟨text, label, rfl⟩ := read
  have said : ∀ t ∈ text, told t := by
    intro t ht
    have shown : ∀ l ∈ link.label.or op.label, l <:+: line := by
      intro l hl
      rcases Option.or_eq_some_iff.mp hl with hl | ⟨_, hl⟩
      · exact within.label l hl
      · exact (Operator.infix_label tells l hl).trans within.symbols
    unfold linkLabel at label
    split at label
    · cases label
      cases ht
    · rename_i l hl
      obtain ⟨t', unquoted, made⟩ := bind_eq_ok.mp label
      split at made
      · cases made
        cases ht
      · cases made
        cases ht
        exact v.tells (v.part (shown l hl) here) (Quoted.told_unquote unquoted)
  have wanted : Inline ((link.id.filter fun id => !id.isEmpty).getD
      (EdgeId.ofContent source target op.symbols text op.stroke op.source op.target)) := by
    cases own : link.id.filter fun id => !id.isEmpty with
    | none => exact .of_chars (EdgeId.chars_ofContent source target op.symbols text _ _ _)
    | some id =>
      exact v.inline (v.part (within.id id (Option.filter_eq_some_iff.mp own).1).1 here)
  have drawn : (r.diagram.drawn link op source target text).Spelled word told :=
    ⟨.text (EdgeId.inline_distinct wanted _), Value.says_ofText? said, Or.inl rfl,
      by simp [Diagram.drawn], fun _ unstyled => by cases unstyled⟩
  -- with or without a note that the id was taken
  split
  · exact h.putEdge drawn
  · exact h.putEdge drawn

theorem Spelled.drawLinks (v : Vocabulary word told) (h : r.Spelled word told) {line : Text}
    (here : word line) {links : List Link} (within : ∀ link ∈ links, link.Within line)
    {groups : List (List Text)} (read : r.drawLinks links groups = .ok r') :
    r'.Spelled word told := by
  induction links generalizing r groups with
  | nil =>
    rw [Reading.drawLinks] at read
    · cases read
      exact h
    · simp
  | cons link links ih =>
    obtain ⟨first, later⟩ := List.forall_mem_cons.mp within
    rcases groups with _ | ⟨sources, _ | ⟨targets, groups⟩⟩
    · cases read
      exact h
    · cases read
      exact h
    · simp only [Reading.drawLinks] at read
      split at read
      · refine ih ?_ later read
        exact h
      · rename_i op tells
        obtain ⟨q, drawn, rest⟩ := bind_eq_ok.mp read
        refine ih ?_ later rest
        refine foldlM_inv (P := Spelled word told) ?_ h drawn
        exact fun _ _ _ _ before one => before.draw v here first tells one

theorem Spelled.readChain (v : Vocabulary word told) (h : r.Spelled word told) {line : Text}
    (here : word line) (read : r.readChain line = .ok r') : r'.Spelled word told := by
  have within := Chain.within_ofLine line
  simp only [Reading.readChain, bind_eq_ok] at read
  obtain ⟨⟨groups, q⟩, met, read⟩ := read
  have before : q.Spelled word told :=
    h.meetTexts v (fun t ht => v.part (within.texts t ht) here) met
  cases groups with
  | none =>
    cases read
    exact before
  | some groups => exact before.drawLinks v here within.links read

theorem Spelled.styleLinks (h : r.Spelled word told) {places : Option Text}
    {declared : List (Text × Text)} (said : ∀ d ∈ declared, word d.2)
    (read : r.styleLinks places declared = .ok r') : r'.Spelled word told := by
  unfold Reading.styleLinks at read
  -- the places are all or listed, and what is done at them is the same
  cases places
  all_goals
    obtain ⟨targets, _, read⟩ := bind_eq_ok.mp read
    obtain ⟨es, walk, read⟩ := bind_eq_ok.mp read
    cases read
    refine ⟨h.nodes, ?_, h.subgraphs, h.classes⟩
    refine foldlM_inv (P := fun es => ∀ e ∈ es, e.Spelled word told) ?_ h.edges walk
    intro es i es' _ before one
    split at one
    · rename_i e there
      obtain ⟨f, made, one⟩ := bind_eq_ok.mp one
      cases one
      intro e' he
      rcases List.mem_or_eq_of_mem_set he with old | rfl
      · exact before e' old
      · exact withEdgeStyle_spelled (before e (List.mem_of_getElem? there)) said made
    · cases one
      exact before

/-! ### Statements -/

theorem Spelled.openSubgraph (v : Vocabulary word told) (h : r.Spelled word told) {header : Text}
    (here : word header) (read : r.openSubgraph header = .ok r') : r'.Spelled word told := by
  simp only [Reading.openSubgraph, bind_eq_ok, pure_eq_ok] at read
  obtain ⟨⟨id, title⟩, parts, rfl⟩ := read
  have said : told id ∧ told title := by
    rcases Statement.told_subgraphHeader parts with ⟨rfl, rfl⟩ | ⟨first, last⟩
    · exact ⟨v.numbered _, v.numbered _⟩
    · exact ⟨v.tells here first, v.tells here last⟩
  dsimp only
  split
  · exact h
  · exact h.putSubgraph ⟨.text said.1, .text said.2⟩

theorem Spelled.setDirection (h : r.Spelled word told) (w : Text) :
    (r.setDirection w).Spelled word told := by
  unfold Reading.setDirection
  split
  · exact h
  · split
    · exact ⟨h.nodes, h.edges, h.subgraphs, h.classes⟩
    · split
      · rename_i g found
        exact h.putSubgraph { h.subgraphs g (Keyed.mem_of_find? found) with }
      · exact h

theorem infix_names (s : Text) : ∀ n ∈ names s, n <:+: s :=
  fun _ hn => infix_pieces (List.mem_of_mem_filter hn)

theorem Spelled.define (v : Vocabulary word told) (h : r.Spelled word told) {classNames styles : Text}
    (here : word classNames) (said : word styles) : (r.define classNames styles).Spelled word told := by
  have declared : ∀ s ∈ ((pieces ',' (dropTrailing (· == ';') styles)).map trim).filter
      fun s => !s.isEmpty, word s := by
    intro s hs
    obtain ⟨piece, hp, rfl⟩ := List.mem_map.mp (List.mem_of_mem_filter hs)
    exact v.part (((infix_trim piece).trans (infix_pieces hp)).trans
      (prefix_dropTrailing _ styles).isInfix) said
  refine ⟨h.nodes, h.edges, h.subgraphs, ?_⟩
  refine List.foldlRecOn (motive := fun cs : List StyleClass => ∀ c ∈ cs, word c.1 ∧
    ∀ v ∈ c.2, v.Says word) (names classNames) _ h.classes fun cs before name hn => ?_
  refine Keyed.forall_mem_put ⟨v.part (infix_names _ name hn) here, fun w hw => ?_⟩ before
  obtain ⟨s, hs, rfl⟩ := List.mem_map.mp hw
  exact .text (declared s hs)

theorem Spelled.assign (h : r.Spelled word told) {classes : List Text} (said : ∀ c ∈ classes, word c)
    (id : Text) : (Reading.assign classes r id).Spelled word told := by
  unfold Reading.assign
  split
  · rename_i found
    have old := h.node? found
    exact h.putNode { old with classes := says_addClasses said old.classes }
  · rename_i found
    have old := h.edges _ (Keyed.mem_of_find? found)
    exact h.putEdge { old with classes := says_addClasses said old.classes }
  · exact h

theorem Spelled.read (v : Vocabulary word told) (h : r.Spelled word told) {line : Text}
    (here : word line) {s : Statement} (within : s.Within line) (read : r.read s = .ok r') :
    r'.Spelled word told := by
  cases s with
  | close =>
    cases read
    split <;> exact h
  | subgraph header => exact h.openSubgraph v (v.part within here) read
  | direction w =>
    cases read
    exact h.setDirection w
  | define names styles =>
    cases read
    exact h.define v (v.part within.1 here) (v.part within.2 here)
  | assign ids classes =>
    cases read
    refine List.foldlRecOn (motive := Spelled word told) _ _ h ?_
    exact fun q before id _ =>
      before.assign (fun c hc => v.part ((infix_names _ c hc).trans within) here) id
  | style id declarations =>
    simp only [Reading.read] at read
    split at read
    · cases read
      exact h
    · rename_i n found
      obtain ⟨m, made, rfl⟩ := map_eq_ok.mp read
      refine h.putNode (withStyle_spelled (h.node? found) (fun d hd => ?_) made)
      exact v.part ((Statement.infix_declarations _ d hd).trans within) here
  | linkStyle places declarations =>
    exact h.styleLinks
      (fun d hd => v.part ((Statement.infix_declarations _ d hd).trans within) here) read
  | click id url tooltip target =>
    obtain ⟨first, unquoted, tip, last⟩ := within
    simp only [Reading.read] at read
    split at read
    · cases read
      exact h
    · rename_i n found
      have old := h.node? found
      obtain ⟨icon, image, form, position, shown, _⟩ := by
        simpa only [List.forall_mem_cons] using old.further
      have linked : ∀ w : Value, w.Says told → (r.putNode { n with
          link := .text url, tooltip := w
          linkTarget := textOr target n.linkTarget }).Spelled word told := by
        intro w shown
        refine h.putNode { old with
          further := ?_, link := .text ⟨v.part first here, unquoted⟩
          target := Value.says_textOr (fun t ht => v.part (last t ht) here) old.target }
        simp only [List.forall_mem_cons]
        exact ⟨icon, image, form, position, shown, by simp⟩
      cases tooltip with
      | none =>
        cases read
        exact linked _ shown
      | some t =>
        obtain ⟨w, made, read⟩ := bind_eq_ok.mp read
        obtain ⟨t', decoded, rfl⟩ := map_eq_ok.mp made
        cases read
        exact linked _ (.text (v.tells here (.decoded (tip t rfl) decoded)))
  | properties id body text =>
    obtain ⟨inner, rfl⟩ := within
    simp only [Reading.read] at read
    split at read
    · rename_i e found
      obtain ⟨f, made, rfl⟩ := map_eq_ok.mp read
      exact h.putEdge (withEdgeProperties_spelled v (h.edges e (Keyed.mem_of_find? found))
        (v.part inner here) made)
    · exact h.readChain v here read
  | chain text =>
    obtain rfl := within
    exact h.readChain v here read

theorem Spelled.readLines (v : Vocabulary word told) (h : r.Spelled word told) {lines : List Text}
    (here : ∀ l ∈ lines, word l) (read : r.readLines lines = .ok r') : r'.Spelled word told := by
  refine foldlM_inv (P := Spelled word told) ?_ h read
  exact fun _ line _ there before one => before.read v (here line (List.mem_of_mem_filter there))
    (Statement.within_ofLine line) one

/-! ### Sources -/

theorem infix_strip (line : Text) : strip line <:+: line :=
  (infix_trim _).trans (prefix_dropTrailing _ line).isInfix

theorem declaration?_suffix {line more : Text} {w : Option Text}
    (h : Source.declaration? line = some (w, more)) : more <:+ line := by
  simp only [Source.declaration?, Option.bind_eq_bind, Option.bind_eq_some_iff] at h
  obtain ⟨keyword, _, h⟩ := h
  have behind := List.drop_suffix keyword.length line
  generalize line.drop keyword.length = r at behind h
  -- with the word for the direction passed over, or without one
  have passed : ∀ (c : Bool) (w : Option Text),
      (if c then (w, (trimStart r).dropWhile isWord) else (none, r)).2 <:+ line := by
    intro c w
    split
    · exact ((List.dropWhile_suffix _).trans (List.dropWhile_suffix _)).trans behind
    · exact behind
  split at h
  · cases h
    exact List.nil_suffix
  · rename_i found
    cases h
    calc more <:+ ';' :: more := List.suffix_cons ';' more
      _ = trimStart _ := found.symm
      _ <:+ _ := List.dropWhile_suffix _
      _ <:+ line := passed _ _
  · cases h

/-- The lines of the body are lines of the source, or what stands behind a declaration. -/
theorem infix_begin (lines : List Text) : ∀ l ∈ (begin lines).2, ∃ line ∈ lines, l <:+: line := by
  intro l hl
  have same : ∀ l ∈ lines, ∃ line ∈ lines, l <:+: line := fun l hl => ⟨l, hl, List.infix_refl l⟩
  unfold begin at hl
  have whole : lines.takeWhile (fun l => (Source.declaration? l).isNone) ++
      lines.dropWhile (fun l => (Source.declaration? l).isNone) = lines :=
    List.takeWhile_append_dropWhile
  rw [List.span_eq_takeWhile_dropWhile] at hl
  dsimp only at hl
  split at hl
  · exact same l hl
  · rename_i line body rest
    split at hl
    · exact same l hl
    · rename_i w more declared
      rw [rest] at whole
      have there : ∀ k ∈ line :: body, k ∈ lines := fun k hk => whole ▸ List.mem_append_right _ hk
      rcases List.mem_cons.mp hl with rfl | hl
      · exact ⟨line, there line List.mem_cons_self, (infix_strip _).trans
          ((infix_trim _).trans (declaration?_suffix declared).isInfix)⟩
      · exact same l (there l (List.mem_cons_of_mem _ hl))

end Reading

namespace Diagram
variable {word told : Text → Prop} {d : Diagram}

theorem Has.settle_spelled (h : d.Has (.spelled word told)) : d.settle.Has (.spelled word told) := by
  refine ⟨fun n' hn => ?_, fun e' he => ?_, fun g' hg => ?_, h.classes⟩
  · obtain ⟨n, there, rfl⟩ := List.mem_map.mp hn
    have node := h.nodes n there
    unfold settleNode
    split
    · have rect : Shape.rect ∈ Shape.known := by decide
      exact { node with shape := Or.inl rect }
    · exact node
  · obtain ⟨e, there, rfl⟩ := List.mem_map.mp he
    exact { h.edges e there with }
  · obtain ⟨g, there, rfl⟩ := List.mem_map.mp hg
    obtain ⟨id, title⟩ := h.subgraphs g there
    refine ⟨id, ?_⟩
    show (g.title.orElse g.id).Says told
    unfold Value.orElse
    split
    · exact title
    · exact id

/-- What is read of a text is spelled in its lines. -/
theorem spelled_read (v : Vocabulary word told) {s : Text}
    (here : ∀ l ∈ Source.meaningful s, word l) (h : Diagram.read s = .ok d) :
    d.Has (.spelled word told) := by
  obtain ⟨r, read, rfl⟩ := map_eq_ok.mp h
  unfold Reading.ofText at read
  dsimp only at read
  split at read
  · simp only [Reading.ofSource, bind_eq_ok, pure_eq_ok] at read
    obtain ⟨q, read, rfl⟩ := read
    obtain ⟨direction, begun⟩ := Reading.diagram_begin ((Source.meaningful s).map Reading.strip)
    have start : Reading.Spelled word told
        (Reading.begin ((Source.meaningful s).map Reading.strip)).1 := by
      rw [Reading.Spelled, begun]
      exact ⟨by simp, by simp, by simp, by simp [Trait.spelled]⟩
    refine Has.settle_spelled (start.readLines v (fun l hl => ?_) read)
    obtain ⟨line, there, inner⟩ := Reading.infix_begin _ l hl
    obtain ⟨source, found, rfl⟩ := List.mem_map.mp there
    exact v.part (inner.trans (Reading.infix_strip source)) (here source found)
  · cases read
    exact ⟨by simp, by simp, by simp, by simp [Trait.spelled]⟩

end Diagram
end Flowchart
