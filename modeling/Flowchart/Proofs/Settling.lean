import Flowchart.Proofs.Lowercase
import Flowchart.Proofs.Traits

/-! Diagrams that come back from plain data as they went. Plain data has no word for a shape
without a name, for an empty title, or for something between true and false; what has none of
these lasts. What is read from a text lasts, and so does what is made of it with values that the
fields are meant for. -/
namespace Flowchart
open Action

/-- The shape has a name, truth values are truth values, and the title holds or is the id. -/
def Trait.lasting : Trait where
  node n := n.shape.name ≠ []
  edge e := Diagram.settleEdge e = e
  subgraph g := g.title.orElse g.id = g.title
  moved _ _ h := h
  regrouped _ _ _ h := h

namespace Diagram

theorem has_settle (d : Diagram) : d.settle.Has .lasting := by
  refine ⟨?_, ?_, ?_, trivial⟩
  · intro n' hn
    obtain ⟨n, _, rfl⟩ := List.mem_map.mp hn
    show (settleNode n).shape.name ≠ []
    unfold settleNode
    split
    · exact List.cons_ne_nil _ _
    · assumption
  · intro e' he
    obtain ⟨e, _, rfl⟩ := List.mem_map.mp he
    rfl
  · intro g' hg
    obtain ⟨g, _, rfl⟩ := List.mem_map.mp hg
    show (g.title.orElse g.id).orElse g.id = g.title.orElse g.id
    by_cases holds : g.title.holds <;> simp [Value.orElse, holds]

theorem Has.settle_eq {d : Diagram} (h : d.Has .lasting) : d.settle = d := by
  have nodes : d.nodes.map settleNode = d.nodes :=
    (List.map_congr_left fun n hn => if_neg (h.nodes n hn)).trans (List.map_id _)
  have edges : d.edges.map settleEdge = d.edges :=
    (List.map_congr_left fun e he => h.edges e he).trans (List.map_id _)
  have subgraphs : d.subgraphs.map settleSubgraph = d.subgraphs := by
    refine (List.map_congr_left fun g hg => ?_).trans (List.map_id _)
    show { g with title := g.title.orElse g.id } = g
    rw [h.subgraphs g hg]
  rw [settle, nodes, edges, subgraphs]

end Diagram

/-! ### Values that fields are meant for -/

/-- No shape is asked for by blanks. -/
def Fields.NameShapes (fields : Fields) : Prop :=
  ∀ t, ("shape".toList, Value.text t) ∈ fields → t.trim ≠ []

/-- What is true or false of an edge is given by a truth value. -/
def Fields.TellTruth (fields : Fields) : Prop :=
  ∀ name ∈ ["animate".toList, "user_defined_id".toList], ∀ v, (name, v) ∈ fields →
    .bool v.holds = v

/-- No title is empty. -/
def Fields.GiveTitles (fields : Fields) : Prop := ∀ v, ("title".toList, v) ∈ fields → v.holds

theorem Value.asWord_eq_ok {v : Value} {t : Text} : v.asWord = .ok t ↔ v = .text t := by
  cases v <;> simp [asWord]

theorem Fields.mem_of_get {fields : Fields} {name : Text} {v : Value} (h : fields.get name = v)
    (some_value : v ≠ .null) : (name, v) ∈ fields := by
  cases found : fields.get? name with
  | none =>
    rw [get, found] at h
    exact absurd h.symm some_value
  | some w =>
    obtain ⟨entry, mem, rfl⟩ := Option.map_eq_some_iff.mp found
    have called : entry.1 = name := Keyed.key_of_find? mem
    rw [get, found] at h
    subst h
    exact called ▸ Keyed.mem_of_find? mem

theorem Node.name_shape_ofData {fields : Fields} (named : fields.NameShapes) {n : Node}
    (read : ofData (.record fields) = .ok n) : n.shape.name ≠ [] := by
  simp only [ofData, bind_eq_ok] at read
  obtain ⟨_, ⟨⟩, id, _, read⟩ := read
  split at read
  · simp only [bind_eq_ok, pure_eq_ok] at read
    obtain ⟨shape, given, _, _, _, _, _, _, _, _, rfl⟩ := read
    obtain ⟨t, word, rfl⟩ := map_eq_ok.mp given
    have asked := Fields.mem_of_get (Value.asWord_eq_ok.mp word) (by simp)
    exact Shape.name_resolve_ne_nil (named t asked)
  · simp only [bind_eq_ok, pure_eq_ok] at read
    obtain ⟨shape, ⟨⟩, _, _, _, _, _, _, _, _, rfl⟩ := read
    exact List.cons_ne_nil _ _

theorem Edge.settle_ofData {v : Value} {e : Edge} (read : ofData v = .ok e) :
    Diagram.settleEdge e = e := by
  simp only [ofData, bind_eq_ok, pure_eq_ok] at read
  obtain ⟨_, _, _, _, _, _, _, _, _, _, _, _, _, _, _, _, _, _, rfl⟩ := read
  rfl

mutual

/-- Does the command give fields the values that they are meant for? This is asked of commands
inside batches and of listeners as well. -/
def Command.IsTyped : Command → Prop
  | .addNode n => n.shape.name ≠ []
  | .addEdge e => Diagram.settleEdge e = e
  | .addSubgraph g => g.title.orElse g.id = g.title
  | .updateNode _ changes => changes.NameShapes
  | .updateEdge _ changes => changes.TellTruth
  | .updateSubgraph _ changes => changes.GiveTitles
  | .withBatch steps => Command.areTyped steps
  | .subscribe _ reaction => Command.reactsTyped reaction
  | _ => True

/-- Are all commands typed? -/
def Command.areTyped : List Command → Prop
  | [] => True
  | c :: cs => c.IsTyped ∧ Command.areTyped cs

/-- Is the command that a reaction has run typed? -/
def Command.reactsTyped : Reaction Command → Prop
  | .act c => c.IsTyped
  | _ => True

end

namespace Edit

theorem shape_setter : ∀ entry ∈ Node.setters, ∀ v f, entry.2 v = .ok f → ∀ n : Node,
    (f n).shape = n.shape ∨ entry.1 = "shape".toList ∧ Shape.ofData v = .ok (f n).shape := by
  have read : ∀ v s, Shape.ofData v = .ok s → ∀ n : Node, s = n.shape ∨ Shape.ofData v = .ok s :=
    fun _ _ read _ => Or.inr read
  simpa [Node.setters, map_eq_ok] using read

theorem truth_setter : ∀ entry ∈ Edge.setters, ∀ v f, entry.2 v = .ok f → ∀ e : Edge,
    ((f e).animate = e.animate ∨ entry.1 = "animate".toList ∧ (f e).animate = v) ∧
      ((f e).named = e.named ∨ entry.1 = "user_defined_id".toList ∧ (f e).named = v) := by
  simp [Edge.setters, map_eq_ok]

theorem title_setter : ∀ entry ∈ Subgraph.setters, ∀ v f, entry.2 v = .ok f → ∀ g : Subgraph,
    (f g).title = g.title ∨ entry.1 = "title".toList ∧ (f g).title = v := by
  simp [Subgraph.setters, map_eq_ok]

theorem lets_shapes {changes : Fields} (named : changes.NameShapes) :
    Lets Node.setters Trait.lasting.node changes := by
  refine lets_of fun entry mem v f given one n h => ?_
  show (f n).shape.name ≠ []
  rcases shape_setter entry mem v f one n with same | ⟨shape, read⟩
  · rw [same]
    exact h
  · obtain ⟨t, word, resolved⟩ := map_eq_ok.mp read
    have text := Value.asWord_eq_ok.mp word
    rw [← resolved]
    exact Shape.name_resolve_ne_nil (named t (text ▸ shape ▸ given))

theorem lets_truth {changes : Fields} (truth : changes.TellTruth) :
    Lets Edge.setters Trait.lasting.edge changes := by
  refine lets_of fun entry mem v f given one e h => ?_
  have animate : .bool e.animate.holds = e.animate := congrArg Edge.animate h
  have named : .bool e.named.holds = e.named := congrArg Edge.named h
  obtain ⟨animated, authored⟩ := truth_setter entry mem v f one e
  have first : .bool (f e).animate.holds = (f e).animate := by
    rcases animated with same | ⟨field, same⟩
    · rw [same, animate]
    · rw [same]
      exact truth _ (by simp) v (field ▸ given)
  have second : .bool (f e).named.holds = (f e).named := by
    rcases authored with same | ⟨field, same⟩
    · rw [same, named]
    · rw [same]
      exact truth _ (by simp) v (field ▸ given)
  show { f e with animate := .bool (f e).animate.holds, named := .bool (f e).named.holds } = f e
  rw [first, second]

theorem lets_titles {changes : Fields} (titles : changes.GiveTitles) :
    Lets Subgraph.setters Trait.lasting.subgraph changes := by
  refine lets_of fun entry mem v f given one g h => ?_
  show (f g).title.orElse (f g).id = (f g).title
  rw [spares_subgraph_id entry mem v f one g]
  rcases title_setter entry mem v f one g with same | ⟨field, same⟩
  · rw [same]
    exact h
  · rw [same]
    exact if_pos (titles v (field ▸ given))

end Edit

namespace Editor

theorem areTyped_iff {cs : List Command} : Command.areTyped cs ↔ ∀ c ∈ cs, c.IsTyped := by
  induction cs with
  | nil => simp [Command.areTyped]
  | cons c cs ih => simp [Command.areTyped, ih]

/-- The diagram lasts, and listeners have only typed commands run. -/
abbrev Lasts (e : Editor) : Prop := Hosts (Diagram.Has .lasting) Command.IsTyped e

theorem upholds_lasts (run : Runner) (h : ∀ c : Command, c.IsTyped → Keeps Lasts (run c)) :
    Upholds Lasts run (fun _ edit => Edit.Spreads .lasting edit) Command.IsTyped := by
  refine upholds_trait (makes_spread (fun typed _ => typed) (fun {e} typed id _ _ => ?_)
    (fun typed _ => typed) (fun typed => Edit.lets_shapes typed) (fun typed => Edit.lets_truth typed)
    fun typed => ?_) (fun typed => areTyped_iff.mp typed) id run h
  · exact congrArg (fun e : Edge => { e with id }) typed
  · exact Edit.lets_titles fun v given => typed v (List.mem_of_mem_filter given)

end Editor
end Flowchart
