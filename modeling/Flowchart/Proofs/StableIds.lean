import Flowchart.Proofs.FixedPoint
import Flowchart.Proofs.ReadingSteps

/-! Ids of edges that are written and read again. An id that is made of what an edge says is made of
it again: the operator is written as it was read, unless the line that it draws was too short to be
written, and ids that are taken are told apart in the same order. -/
namespace Flowchart

namespace Edge
variable {e f : Edge} {es fs : List Edge} {taken : List Text}

/-- The edges have one id, from an author or not, and the same id would be made for both. -/
structure Alike (e f : Edge) : Prop where
  id : f.id = e.id
  named : f.named.holds = e.named.holds
  generated : f.generated = e.generated

theorem Alike.refl (e : Edge) : e.Alike e := ⟨rfl, rfl, rfl⟩

theorem Kept.alike (kept : e.Kept f) : e.Alike f := by
  rw [kept]
  exact ⟨rfl, rfl, rfl⟩

theorem Alike.keys (alike : List.Forall₂ Alike es fs) : Keyed.keys fs = Keyed.keys es := by
  induction alike with
  | nil => rfl
  | cons same _ ih => exact congrArg₂ List.cons same.id ih

/-- Every edge without an author's id has the id that is made for it, told apart from those that
were taken before. -/
def AreDrawn (taken : List Text) : List Edge → Prop
  | [] => True
  | e :: es => (e.named.holds = false → e.id = .text (EdgeId.distinct e.generated taken)) ∧
      AreDrawn (taken ++ e.id.text?.toList) es

theorem AreDrawn.alike (h : AreDrawn taken es) (alike : List.Forall₂ Alike es fs) :
    AreDrawn taken fs := by
  induction alike generalizing taken with
  | nil => trivial
  | cons same _ ih =>
    obtain ⟨drawn, rest⟩ := h
    refine ⟨fun unnamed => ?_, ?_⟩
    · rw [same.id, same.generated]
      exact drawn (same.named ▸ unnamed)
    · rw [same.id]
      exact ih rest

theorem AreDrawn.concat (h : AreDrawn taken es) (drawn : e.named.holds = false →
      e.id = .text (EdgeId.distinct e.generated (taken ++ es.filterMap fun e => e.id.text?))) :
    AreDrawn taken (es ++ [e]) := by
  induction es generalizing taken with
  | nil => exact ⟨by simpa using drawn, trivial⟩
  | cons f es ih =>
    refine ⟨h.1, ih h.2 ?_⟩
    have ids : (f :: es).filterMap (fun e => e.id.text?) =
        f.id.text?.toList ++ es.filterMap fun e => e.id.text? := by
      cases taken : f.id.text? <;> simp [taken]
    rw [ids, ← List.append_assoc] at drawn
    exact drawn

theorem AreDrawn.take (h : AreDrawn taken es) (k : Nat) : AreDrawn taken (es.take k) := by
  induction es generalizing taken k with
  | nil => simp [AreDrawn]
  | cons e es ih =>
    cases k with
    | zero => trivial
    | succ k => exact ⟨h.1, ih h.2 k⟩

/-- Edges that were drawn one after another take their ids again. -/
theorem AreDrawn.ids_allRedrawn (h : AreDrawn taken es) (writable : ∀ e ∈ es, e.Writable)
    (nodup : (taken.map Value.text ++ es.map Edge.id).Nodup) :
    (allRedrawn taken es).map Edge.id = es.map Edge.id := by
  induction es generalizing taken with
  | nil => rfl
  | cons e es ih =>
    obtain ⟨drawn, rest⟩ := h
    have again : e.id = .text (EdgeId.distinct e.asked taken) := by
      cases needs : Writing.needsId e with
      | true =>
        have same := id_eq_asked (writable e List.mem_cons_self) needs
        have new : e.asked ∉ taken := fun old =>
          (List.nodup_append.mp nodup).2.2 _ (List.mem_map_of_mem old) _ List.mem_cons_self same.symm
        rw [EdgeId.distinct_eq_self new, same]
      | false =>
        -- an author's id is always told
        have unnamed : e.named.holds = false := by
          by_contra named
          simp [Writing.needsId, named] at needs
        rw [asked_eq_generated needs]
        exact drawn unnamed
    have later : ((taken ++ [EdgeId.distinct e.asked taken]).map Value.text ++
        es.map Edge.id).Nodup := by
      rw [List.map_append, List.append_assoc, List.map_singleton, ← again]
      exact nodup
    rw [again] at rest
    have ids := ih rest (fun f hf => writable f (List.mem_cons_of_mem e hf)) later
    exact congrArg₂ List.cons again.symm ids

end Edge

/-! ### Reading -/

namespace Diagram
variable {d d' : Diagram} {links : List Link}

/-- The edges of the diagram were drawn one after another. -/
structure Drawn (d : Diagram) : Prop where
  nodup : (Keyed.keys d.edges).Nodup
  areDrawn : Edge.AreDrawn [] d.edges

theorem generated_drawn {link : Link} {op : Operator} (tells : Operator.read? link.symbols = some op)
    (long : link.symbols.trim ∉ Operator.stubs) (source target : Text) (text : Option Text)
    (d : Diagram) : (d.drawn link op source target text).generated =
      EdgeId.ofContent source target op.symbols text op.stroke op.source op.target := by
  have symbols : (d.drawn link op source target text).symbols = op.symbols := by
    rw [Operator.symbols_of_read? tells long]
    exact Operator.write_max_one ..
  have told : (Value.ofText? text).text? = text := by cases text <;> rfl
  rw [Edge.generated, symbols]
  exact congrArg (EdgeId.ofContent source target op.symbols · op.stroke op.source op.target) told

theorem Drawn.alike (h : d.Drawn) (alike : List.Forall₂ Edge.Alike d.edges d'.edges) : d'.Drawn where
  nodup := Edge.Alike.keys alike ▸ h.nodup
  areDrawn := h.areDrawn.alike alike

theorem Drawn.draw (h : d.Drawn) {link : Link} {op : Operator}
    (tells : Operator.read? link.symbols = some op) (long : link.symbols.trim ∉ Operator.stubs)
    (source target : Text) (text : Option Text) : Drawn
      { d with edges := Keyed.put (d.drawn link op source target text) d.edges } := by
  have fresh : Keyed.key (d.drawn link op source target text) ∉ Keyed.keys d.edges :=
    fun taken => EdgeId.distinct_not_mem _ _ (mem_edgeIds.mpr taken)
  refine ⟨Keyed.nodup_keys_put h.nodup _, ?_⟩
  show Edge.AreDrawn [] (Keyed.put _ d.edges)
  rw [Keyed.put_of_not_mem fresh]
  refine h.areDrawn.concat fun unnamed => ?_
  have nobody : (link.id.filter fun id => !id.isEmpty) = none := by
    rw [← Option.isNone_iff_eq_none, ← Option.isSome_eq_false_iff]
    exact unnamed
  rw [generated_drawn tells long]
  show Value.text (EdgeId.distinct ((link.id.filter fun id => !id.isEmpty).getD _) _) = _
  rw [nobody]
  rfl

theorem Drawn.read (h : d.Drawn) (long : ∀ link ∈ links, link.symbols.trim ∉ Operator.stubs)
    (step : d.ReadStep links d') : d'.Drawn := by
  rcases step.edges h.nodup with kept | ⟨link, here, op, source, target, text, tells, edges⟩
  · exact h.alike (kept.imp fun _ _ => Edge.Kept.alike)
  · obtain ⟨nodup, areDrawn⟩ := h.draw tells (long link here) source target text
    exact ⟨edges ▸ nodup, edges ▸ areDrawn⟩

theorem Drawn.settle (h : d.Drawn) : d.settle.Drawn := by
  refine h.alike ?_
  show List.Forall₂ _ d.edges (d.edges.map settleEdge)
  rw [List.forall₂_map_right_iff, List.forall₂_same]
  exact fun e _ => ⟨rfl, rfl, rfl⟩

theorem drawn_read {src : Text} (read : Diagram.read src = .ok d)
    (long : ∀ link ∈ Source.links src, link.symbols.trim ∉ Operator.stubs) : d.Drawn := by
  obtain ⟨q, drawn, rfl⟩ := read_induction (P := Drawn) (fun _ => ⟨List.nodup_nil, trivial⟩)
    (fun _ _ h step => h.read long step) read
  exact drawn.settle

/-- Equal edges, an edge with a label and an author's id, and one with a label inside. -/
def repeatedText : Text :=
  "flowchart LR\n    A --> B\n    A --> B\n    B e1@-.->|maybe| A\n".toList ++
  "    A -- no ---x B\n".toList

/-- What is read of them. -/
def repeated : Diagram where
  direction := .lr
  nodes := [.bare (.text "A"), .bare (.text "B")]
  edges := [
    { id := .text "edge-763a13f8", source := .text "A", target := .text "B" },
    { id := .text "edge-763a13f8-dup1", source := .text "A", target := .text "B" },
    { id := .text "e1", source := .text "B", target := .text "A", text := .text "maybe"
      stroke := .dotted, named := .bool true },
    { id := .text "edge-9cb45bd5", source := .text "A", target := .text "B", text := .text "no"
      targetTip := .cross, length := .number (.int 2) }]

theorem read_repeatedText : Diagram.read repeatedText = .ok repeated := by decide +kernel

theorem repeated_clean : repeated.Clean := by
  have node : ∀ t ∈ ["A".toList, "B"], (Node.bare (.text t)).Clean := by
    simp only [List.forall_mem_cons]
    exact ⟨⟨⟨_, rfl, by decide, by decide, by decide⟩, ⟨_, rfl, by decide⟩, by decide, rfl, rfl,
      by decide⟩, ⟨⟨_, rfl, by decide, by decide, by decide⟩, ⟨_, rfl, by decide⟩, by decide, rfl,
      rfl, by decide⟩, fun _ h => absurd h List.not_mem_nil⟩
  refine ⟨fun n hn => ?_, fun e he => ?_, fun _ h => absurd h List.not_mem_nil, rfl⟩
  · simp only [repeated, List.mem_cons, List.not_mem_nil, or_false] at hn
    rcases hn with rfl | rfl
    · exact node _ (by simp)
    · exact node _ (by simp)
  · simp only [repeated, List.mem_cons, List.not_mem_nil, or_false] at he
    rcases he with rfl | rfl | rfl | rfl
    · exact ⟨Or.inl rfl, ⟨1, rfl, by decide⟩, by decide, fun named => absurd named (by decide), rfl,
        rfl, rfl, rfl⟩
    · exact ⟨Or.inl rfl, ⟨1, rfl, by decide⟩, by decide, fun named => absurd named (by decide), rfl,
        rfl, rfl, rfl⟩
    · exact ⟨Or.inr ⟨_, rfl, by decide, by decide⟩, ⟨1, rfl, by decide⟩, by decide,
        fun _ => ⟨_, rfl, by decide, by decide⟩, rfl, rfl, rfl, rfl⟩
    · exact ⟨Or.inr ⟨_, rfl, by decide, by decide⟩, ⟨2, rfl, by decide⟩, by decide,
        fun named => absurd named (by decide), rfl, rfl, rfl, rfl⟩

end Diagram
end Flowchart
