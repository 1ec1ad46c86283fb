import Flowchart.Proofs.ChangeLog
import Flowchart.Proofs.Lowercase
import Flowchart.Proofs.PlainData
import Flowchart.Proofs.ReadingIntegrity
import Flowchart.Proofs.ReadingSteps
import Flowchart.Proofs.Settling

/-! Diagrams through plain data. Each entity goes into a record that it can be read from again;
where ids and the names of classes differ, the entities come back as they were and in their order.
What comes back is the settled diagram, and a diagram that lasts comes back as it went. -/
namespace Flowchart
open Action

/-! ### Fields -/

namespace Fields
variable {fields : Fields} {name : Text}

theorem get_cons (entry : Text × Value) :
    get (entry :: fields) name = if entry.1 = name then entry.2 else fields.get name := by
  rw [get, get?_cons]
  split <;> rfl

theorem get_of_not_mem (absent : name ∉ Keyed.keys fields) : fields.get name = .null := by
  rw [get, get?, Keyed.find?_eq_none_iff.mpr absent]
  rfl

/-- A field that is not set says as much as one that is not there. -/
theorem get_setFields (once : (Keyed.keys fields).Nodup) :
    (setFields fields).get name = fields.get name := by
  induction fields with
  | nil => rfl
  | cons entry fields ih =>
    obtain ⟨fresh, once⟩ := List.nodup_cons.mp once
    rw [get_cons, setFields, List.filter_cons]
    split
    · rw [get_cons]
      split
      · rfl
      · exact ih once
    · rename_i unset
      have null : entry.2 = .null := by simpa [Value.isSome] using unset
      split
      · rename_i here
        rw [null]
        refine get_of_not_mem fun there => fresh ?_
        obtain ⟨other, kept, same⟩ := List.mem_map.mp there
        have called : Keyed.key other = Keyed.key entry := Eq.trans same here.symm
        exact called ▸ Keyed.mem_keys (List.mem_of_mem_filter kept)
      · exact ih once

theorem onlyFields_ok {names : List Text} (known : ∀ f ∈ fields, f.1 ∈ names) :
    onlyFields names (.record fields) = .ok fields := by
  have none : fields.find? (fun f => !names.contains f.1) = none :=
    List.find?_eq_none.mpr fun f hf => by simpa using known f hf
  simp only [onlyFields, Value.fields, bind_eq_ok]
  refine ⟨fields, rfl, ?_⟩
  rw [none]

end Fields

/-! ### Styles, places and extents -/

theorem NodeStyle.ofData?_toData (style : Option NodeStyle) :
    ofData? ((style.map toData).getD .null) = .ok style := by
  cases style with
  | none => rfl
  | some s =>
    have once : (Keyed.keys [("fill".toList, s.fill), ("stroke".toList, s.stroke),
        ("stroke_width".toList, s.strokeWidth), ("color".toList, s.color)]).Nodup := by
      simp [Keyed.keys, Keyed.key]
    show ofData? s.toData = .ok (some s)
    simp only [ofData?, toData, bind_eq_ok, pure_eq_ok]
    refine ⟨_, Fields.onlyFields_ok fun f hf => ?_, ?_⟩
    · have listed := List.mem_of_mem_filter hf
      simp only [List.mem_cons, List.not_mem_nil, or_false] at listed ⊢
      rcases listed with rfl | rfl | rfl | rfl <;> simp
    · simp only [Fields.get_setFields once]
      rfl

theorem EdgeStyle.ofData?_toData (style : Option EdgeStyle) :
    ofData? ((style.map toData).getD .null) = .ok style := by
  cases style with
  | none => rfl
  | some s =>
    have once : (Keyed.keys [("stroke".toList, s.stroke),
        ("stroke_width".toList, s.strokeWidth)]).Nodup := by simp [Keyed.keys, Keyed.key]
    show ofData? s.toData = .ok (some s)
    simp only [ofData?, toData, bind_eq_ok, pure_eq_ok]
    refine ⟨_, Fields.onlyFields_ok fun f hf => ?_, ?_⟩
    · have listed := List.mem_of_mem_filter hf
      simp only [List.mem_cons, List.not_mem_nil, or_false] at listed ⊢
      rcases listed with rfl | rfl <;> simp
    · simp only [Fields.get_setFields once]
      rfl

theorem Position.ofData?_toData (p : Option Position) :
    ofData? ((p.map toData).getD .null) = .ok p := by
  cases p <;> rfl

theorem Size.ofData?_toData (s : Option Size) : ofData? ((s.map toData).getD .null) = .ok s := by
  cases s <;> rfl

theorem Value.partsIfAny_list (vs : List Value) : partsIfAny (.list vs) = .ok vs := by
  cases vs <;> rfl

/-! ### Entities -/

theorem Node.ofData_toData {n : Node} (asked : Shape.resolve n.shape.name = n.shape) :
    ofData n.toData = .ok (Diagram.settleNode n) := by
  have reads : ∀ shape, (if (Value.text n.shape.name).holds
      then Shape.ofData (.text n.shape.name) else .ok .rect) = .ok shape →
      ofData n.toData = .ok { n with shape } := fun shape given =>
    ofData_eq_ok.mpr ⟨rfl, rfl, given, NodeStyle.ofData?_toData n.style,
      Value.partsIfAny_list n.classes, rfl, rfl, rfl, rfl, Position.ofData?_toData n.position,
      Size.ofData?_toData n.size, rfl, rfl, rfl, rfl, rfl, rfl⟩
  unfold Diagram.settleNode
  split
  · rename_i blank
    exact reads .rect (by rw [blank]; rfl)
  · rename_i named
    refine reads n.shape ?_
    rw [if_pos (by simpa using named)]
    exact congrArg Except.ok asked

theorem Edge.ofData_toData (e : Edge) : ofData e.toData = .ok (Diagram.settleEdge e) := by
  refine ofData_eq_ok.mpr ⟨rfl, rfl, rfl, rfl, ?_, ?_, ?_, rfl, EdgeStyle.ofData?_toData e.style,
    Value.partsIfAny_list e.classes, rfl, rfl, rfl⟩
  · show Stroke.ofData (.text e.stroke.name) = .ok e.stroke
    cases e.stroke <;> rfl
  · show Tip.ofData (.text e.sourceTip.name) = .ok e.sourceTip
    cases e.sourceTip <;> rfl
  · show Tip.ofData (.text e.targetTip.name) = .ok e.targetTip
    cases e.targetTip <;> rfl

theorem Subgraph.ofData_toData (g : Subgraph) : ofData g.toData = .ok (Diagram.settleSubgraph g) := by
  refine ofData_eq_ok.mpr ⟨rfl, rfl, Value.partsIfAny_list g.members, rfl, ?_,
    Value.partsIfAny_list g.classes⟩
  show (if (Direction.toData? g.direction).holds
    then (Direction.ofData (Direction.toData? g.direction)).map some else .ok none) = .ok g.direction
  cases g.direction with
  | none => rfl
  | some direction => cases direction <;> rfl

/-! ### Lists of entities -/

namespace Diagram

/-- Entities with simple ids of their own come back one by one. -/
theorem entries_toData {α : Type} [Keyed α Value] {toData : α → Value}
    {ofData : Value → Except Error α} (settled : α → α) {xs : List α}
    (back : ∀ x ∈ xs, ofData (toData x) = .ok (settled x))
    (same : ∀ x, Keyed.key (settled x) = Keyed.key x) (simple : ∀ x ∈ xs, (Keyed.key x).isSimple)
    (once : (Keyed.keys xs).Nodup) :
    entries ofData (.list (xs.map toData)) = .ok (xs.map settled) := by
  have step : ∀ found, ∀ x ∈ xs, (do
      let y ← ofData (toData x)
      let _ ← (Keyed.key y).simple
      return Keyed.put y found : Except Error (List α)) = .ok (Keyed.put (settled x) found) := by
    intro found x hx
    simp only [bind_eq_ok, pure_eq_ok]
    refine ⟨settled x, back x hx, _, if_pos ?_, rfl⟩
    rw [same]
    exact simple x hx
  have keys : Keyed.keys (xs.map settled) = Keyed.keys xs := by
    simp only [Keyed.keys, List.map_map, Function.comp_def, same]
  rw [entries, Value.partsIfAny_list]
  show (xs.map toData).foldlM _ [] = _
  rw [List.foldlM_map, foldlM_ok step, ← List.foldl_map (f := settled)
    (g := fun found y => Keyed.put y found)]
  exact congrArg Except.ok (Keyed.foldl_put [] (keys ▸ once))

theorem classEntries_toData {cs : List StyleClass} (once : (Keyed.keys cs).Nodup) :
    classEntries (.record (cs.map fun c => (c.1, .list c.2))) = .ok cs := by
  refine bind_eq_ok.mpr ⟨cs, ?_, congrArg Except.ok (Keyed.foldl_put [] once)⟩
  rw [List.mapM_map]
  exact (mapM_ok (g := id) fun _ _ => rfl).trans (congrArg Except.ok (List.map_id cs))

end Diagram

/-! ### Diagrams -/

/-- The entity can be looked up by its id, and a node has the shape that its shape's name asks for.
The names of classes differ. -/
def Trait.recorded : Trait where
  node n := n.id.isSimple ∧ Shape.resolve n.shape.name = n.shape
  edge e := e.id.isSimple
  subgraph g := g.id.isSimple
  classes cs := (Keyed.keys cs).Nodup
  moved _ _ h := h
  regrouped _ _ _ h := h
  unstyled := List.nodup_nil
  undefined _ name h := Keyed.nodup_keys_remove h name

namespace Diagram
variable {d : Diagram}

theorem ofData_toData (distinct : d.Distinct) (has : d.Has .recorded) :
    ofData d.toData = .ok d.settle := by
  have node_id : ∀ n : Node, (settleNode n).id = n.id := fun n => by rw [n.settle_rest]
  simp only [ofData, bind_eq_ok, pure_eq_ok]
  refine ⟨_, rfl, some d.direction, ?_, _,
    entries_toData settleNode (fun n hn => Node.ofData_toData (has.nodes n hn).2)
      node_id (fun n hn => (has.nodes n hn).1) distinct.nodes, _,
    entries_toData settleEdge (fun e _ => e.ofData_toData) (fun _ => rfl) has.edges
      distinct.edges, _,
    entries_toData settleSubgraph (fun g _ => g.ofData_toData) (fun _ => rfl)
      has.subgraphs distinct.subgraphs, _, classEntries_toData has.classes, rfl⟩
  exact congrArg Except.ok (Direction.ofToken?_name d.direction)

theorem Has.recorded_settle (h : d.Has .recorded) : d.settle.Has .recorded := by
  refine ⟨?_, ?_, ?_, h.classes⟩
  · intro n' there
    obtain ⟨n, hn, rfl⟩ := List.mem_map.mp there
    obtain ⟨simple, asked⟩ := h.nodes n hn
    unfold settleNode
    split
    · exact ⟨simple, Shape.resolve_name (by decide : Shape.rect ∈ Shape.known)⟩
    · exact ⟨simple, asked⟩
  · intro e' there
    obtain ⟨e, he, rfl⟩ := List.mem_map.mp there
    exact h.edges e he
  · intro g' there
    obtain ⟨g, hg, rfl⟩ := List.mem_map.mp there
    exact h.subgraphs g hg

end Diagram

/-! ### Diagrams that are read -/

theorem Shape.IsAsked.resolve_name {s : Shape} (asked : s.IsAsked) : resolve s.name = s := by
  rcases asked with listed | ⟨name, rfl⟩
  · exact Shape.resolve_name listed
  · exact resolve_name_resolve name

theorem Trait.readable_recorded : Readable .recorded where
  node _ _ _ _ asked := ⟨rfl, asked.resolve_name⟩
  becomes {n m} becomes h := by
    obtain ⟨id, shape⟩ := becomes.same
    refine ⟨(congrArg Value.isSimple id).trans h.1, ?_⟩
    rcases shape with same | asked
    · rw [same]
      exact h.2
    · exact asked.resolve_name
  drawn _ _ _ _ _ _ := rfl
  changes becomes h := (congrArg Value.isSimple (congrArg Edge.id becomes.same)).trans h
  opened _ _ _ := rfl
  turned _ _ h := h
  defined _ _ _ h := Keyed.nodup_keys_put h _

/-! ### Commands -/

mutual

/-- Has the command the property, and every command inside batches and of listeners? -/
def Command.Throughout (P : Command → Prop) : Command → Prop
  | .withBatch steps => Command.allThroughout P steps
  | .subscribe _ reaction => Command.reactsThroughout P reaction
  | c => P c

/-- Have all commands the property throughout? -/
def Command.allThroughout (P : Command → Prop) : List Command → Prop
  | [] => True
  | c :: cs => c.Throughout P ∧ Command.allThroughout P cs

/-- Has the command that a reaction has run the property throughout? -/
def Command.reactsThroughout (P : Command → Prop) : Reaction Command → Prop
  | .act c => c.Throughout P
  | _ => True

end

/-- A node that is handed over has a shape that can be asked for by its name. -/
def Command.AsksShape : Command → Prop
  | .addNode n => Shape.resolve n.shape.name = n.shape
  | _ => True

namespace Edit

theorem lets_recorded (changes : Fields) : Lets Node.setters Trait.recorded.node changes := by
  refine lets_of fun entry mem v f given one n h => ?_
  refine ⟨(congrArg Value.isSimple (spares_node_id entry mem v f one n)).trans h.1, ?_⟩
  rcases shape_setter entry mem v f one n with same | ⟨_, read⟩
  · rw [same]
    exact h.2
  · obtain ⟨t, _, resolved⟩ := map_eq_ok.mp read
    rw [← resolved]
    exact Shape.resolve_name_resolve t

end Edit

namespace Editor

theorem allThroughout_iff {P : Command → Prop} {cs : List Command} :
    Command.allThroughout P cs ↔ ∀ c ∈ cs, c.Throughout P := by
  induction cs with
  | nil => simp [Command.allThroughout]
  | cons c cs ih => simp [Command.allThroughout, ih]

theorem recorded_after {d : Diagram} (h : d.Has .recorded) {cs : List Command}
    (asked : ∀ c ∈ cs, c.Throughout Command.AsksShape) :
    ((ofDiagram d).after cs).diagram.Has .recorded := by
  have makes : Makes (fun _ edit => Edit.Spreads .recorded edit)
      (Command.Throughout Command.AsksShape) :=
    makes_spread (fun asked simple => ⟨simple, asked⟩) (fun _ _ _ simple => simple)
      (fun _ simple => simple) (fun _ => Edit.lets_recorded _)
      (fun _ set hset e simple =>
        (congrArg Value.isSimple (Edit.setAll_spares Edit.spares_edge_id hset e)).trans simple)
      fun _ set hset g simple =>
        (congrArg Value.isSimple (Edit.setAll_spares Edit.spares_subgraph_id hset g)).trans simple
  have upholds := fun run keeps => upholds_trait makes (fun asked => allThroughout_iff.mp asked) id
    run keeps fun _ cs once => Keyed.nodup_keys_put once _
  exact (after_keeps upholds asked (hosts_ofDiagram h)).diagram

theorem lasting_after {d : Diagram} (h : d.Has .lasting) {cs : List Command}
    (typed : ∀ c ∈ cs, c.IsTyped) : ((ofDiagram d).after cs).diagram.Has .lasting :=
  (after_keeps upholds_lasts typed (hosts_ofDiagram h)).diagram

/-- Whatever is done to a diagram that was empty or was read from a text, it comes back from plain
data settled. -/
theorem plain_data_settles {d : Diagram} (start : d = .empty ∨ ∃ s, Diagram.read s = .ok d)
    {cs : List Command} (asked : ∀ c ∈ cs, c.Throughout Command.AsksShape) :
    Diagram.ofData ((ofDiagram d).after cs).diagram.toData =
      .ok ((ofDiagram d).after cs).diagram.settle := by
  have before : d.Distinct ∧ d.Has .recorded := by
    rcases start with rfl | ⟨s, read⟩
    · exact ⟨Diagram.integral_empty.distinct, Diagram.has_empty⟩
    · have distinct := (Diagram.integral_read read).distinct
      obtain ⟨q, recorded, rfl⟩ := Diagram.has_read Trait.readable_recorded read
      exact ⟨distinct, recorded.recorded_settle⟩
  exact Diagram.ofData_toData (settled_after before.1 cs).distinct (recorded_after before.2 asked)

/-- Whatever is done to it with values that the fields are meant for, it comes back as it went,
entity for entity, field for field and in the same order. -/
theorem plain_data_lossless {d : Diagram} (start : d = .empty ∨ ∃ s, Diagram.read s = .ok d)
    {cs : List Command} (asked : ∀ c ∈ cs, c.Throughout Command.AsksShape)
    (typed : ∀ c ∈ cs, c.IsTyped) :
    Diagram.ofData ((ofDiagram d).after cs).diagram.toData = .ok ((ofDiagram d).after cs).diagram := by
  have lasting : d.Has .lasting := by
    rcases start with rfl | ⟨s, read⟩
    · exact Diagram.has_empty
    · obtain ⟨q, _, rfl⟩ := Diagram.has_read Trait.readable_recorded read
      exact q.has_settle
  rw [plain_data_settles start asked, (lasting_after lasting typed).settle_eq]

/-- A diagram with something of everything. One node asks for its shape by another name, and a
listener has a node added when another one comes. -/
def everything : List Command := [
  .subscribe "listener" (.act (.addNode { id := .text "C", text := .text "" })),
  .addNode { id := .text "A", text := .text "a", style := some { fill := .text "#f00" } },
  .addNode { id := .text "B", text := .text "b", link := .text "https://b", width := .bool true },
  .addSubgraph { id := .text "g", title := .text "t", members := [.text "A"] },
  .addEdge { id := .null, source := .text "A", target := .text "B", style := some {} },
  .updateNode (.text "B") [("shape", .text " Database"), ("position", .null)],
  .updateEdge (.text "A") [("animate", .bool true)],
  .updateSubgraph (.text "g") [("title", .text "u"), ("direction", .text "lr")],
  .defineClass "hot" [.text "fill:#f00"],
  .withBatch [.removeClass "cold", .setDirection (.text "BT")]]

theorem everything_lossless :
    Diagram.ofData ((ofDiagram .empty).after everything).diagram.toData =
      .ok ((ofDiagram .empty).after everything).diagram := by
  have asked : ∀ c ∈ everything, c.Throughout Command.AsksShape := by
    have rect := Shape.resolve_name (by decide : Shape.rect ∈ Shape.known)
    simp only [everything, List.forall_mem_cons]
    exact ⟨rect, rect, rect, trivial, trivial, trivial, trivial, trivial, trivial,
      ⟨trivial, trivial, trivial⟩, fun _ h => absurd h List.not_mem_nil⟩
  have shapes : Fields.NameShapes [("shape", .text " Database"), ("position", .null)] := by
    intro t given
    obtain rfl : t = " Database".toList := by simpa using given
    decide
  have truth : Fields.TellTruth [("animate", .bool true)] := by simp [Fields.TellTruth, Value.holds]
  have titles : Fields.GiveTitles [("title", .text "u"), ("direction", .text "lr")] := by
    simp [Fields.GiveTitles]
  have typed : ∀ c ∈ everything, c.IsTyped := by
    have named : Shape.rect.name ≠ [] := by decide
    simp only [everything, List.forall_mem_cons]
    exact ⟨named, named, named, rfl, rfl, shapes, truth, titles, trivial,
      ⟨trivial, trivial, trivial⟩, fun _ h => absurd h List.not_mem_nil⟩
  exact plain_data_lossless (Or.inl rfl) asked typed

/-- A subgraph loses its title. -/
def untitled : List Command := [
  .addSubgraph { id := .text "g", title := .text "t" },
  .updateSubgraph (.text "g") [("title", .text [])]]

/-- Plain data has no empty title: the subgraph comes back titled by its id. -/
theorem untitled_not_lossless :
    (Diagram.ofData ((ofDiagram .empty).after untitled).diagram.toData).map Diagram.toData ≠
      .ok ((ofDiagram .empty).after untitled).diagram.toData := by
  decide +kernel

end Editor
end Flowchart
