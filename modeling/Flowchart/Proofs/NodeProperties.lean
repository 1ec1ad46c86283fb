import Flowchart.Proofs.Legible

/-! Properties of nodes that are written and read again. What is read into a property is a text that
is not empty or a number, and it is written as such: in quotes, or without them where it can stand
without them. -/
namespace Flowchart
open Text

/-! ### What properties hold -/

/-- The properties of the node hold texts that are not empty, numbers, or nothing. With a link there
may be an empty tooltip. -/
structure Node.Furnished (n : Node) : Prop where
  texts : ∀ v ∈ [n.icon, n.image, n.form, n.labelPosition], v.Says (· ≠ [])
  width : n.width.Counts
  height : n.height.Counts
  tooltip : n.link = .null → n.tooltip.Says (· ≠ [])

def Trait.furnished : Trait where
  node := Node.Furnished
  edge _ := True
  subgraph _ := True
  moved _ _ h := ⟨h.texts, h.width, h.height, h.tooltip⟩
  regrouped _ _ _ h := h

theorem Reading.property?_ne_nil {properties : List (Text × Text)} {key : Text} :
    ∀ t ∈ property? properties key, t ≠ [] := by
  intro t ht
  have some_text := (Option.filter_eq_some_iff.mp ht).2
  simpa using some_text

theorem Node.Furnished.withProperties {n m : Node} (h : n.Furnished)
    {properties : List (Text × Text)} (made : Reading.withProperties n properties = .ok m) :
    m.Furnished := by
  simp only [Reading.withProperties, bind_eq_ok, pure_eq_ok] at made
  obtain ⟨width, wide, height, high, rfl⟩ := made
  have told (key : Text) {before : Value} (said : before.Says (· ≠ [])) :
      (Reading.textOr (Reading.property? properties key) before).Says (· ≠ []) :=
    Value.says_textOr Reading.property?_ne_nil said
  have texts := h.texts
  simp only [List.forall_mem_cons] at texts
  obtain ⟨icon, image, form, position, _⟩ := texts
  refine ⟨?_, Value.counts_integerOr h.width wide, Value.counts_integerOr h.height high,
    fun unlinked => told "tooltip" (h.tooltip unlinked)⟩
  simp only [List.forall_mem_cons]
  exact ⟨told "icon" icon, told "img" image, told "form" form, told "pos" position, by simp⟩

theorem Trait.readable_furnished : Readable .furnished where
  node _ _ _ _ _ := by
    have unset : Value.null.Counts := by simp [Value.Counts, Value.isSome]
    exact ⟨by simp [Value.Says], unset, unset, fun _ => Or.inl rfl⟩
  becomes {n m} becomes h := by
    cases becomes with
    | met text shape parent told asked => exact ⟨h.texts, h.width, h.height, h.tooltip⟩
    | withProperties properties made => exact h.withProperties made
    | withClasses names => exact ⟨h.texts, h.width, h.height, h.tooltip⟩
    | withStyle declared made =>
      simp only [Reading.withStyle, bind_eq_ok, pure_eq_ok] at made
      obtain ⟨_, _, rfl⟩ := made
      exact ⟨h.texts, h.width, h.height, h.tooltip⟩
    | withLink link tooltip target told => exact ⟨h.texts, h.width, h.height, by simp⟩
  drawn _ _ _ _ _ _ := trivial
  changes _ _ := trivial
  opened _ _ _ := trivial
  turned _ _ _ := trivial
  defined _ _ _ _ := trivial

/-! ### What is read of them -/

theorem Text.ofInt_ne_nil (i : Int) : ofInt i ≠ [] := by
  cases i with
  | ofNat n => exact ofNat_ne_nil n
  | negSucc n => exact List.cons_ne_nil _ _

namespace Node
variable {n : Node}

/-- Another node has the same shape and the same further properties. -/
structure SameProperties (n m : Node) : Prop where
  shape : m.shape = n.shape
  icon : m.icon = n.icon
  image : m.image = n.image
  form : m.form = n.form
  labelPosition : m.labelPosition = n.labelPosition
  width : m.width = n.width
  height : m.height = n.height
  tooltip : m.tooltip = n.tooltip

/-- The further properties of the node, by the names that they are written under. -/
def fields (n : Node) : Fields :=
  Writing.pictures n ++ Writing.placements n ++ Writing.extents n ++ [("tooltip".toList, n.tooltip)]

theorem keys_fields (n : Node) : Keyed.keys n.fields =
    ["icon".toList, "img", "form", "pos", "w", "h", "tooltip"] := rfl

theorem eq_of_mem_fields {f g : Text × Value} (hf : f ∈ n.fields) (hg : g ∈ n.fields)
    (same : g.1 = f.1) : g = f := by
  have once : (Keyed.keys n.fields).Nodup := by
    rw [keys_fields]
    decide
  exact Keyed.eq_of_key_eq once hg hf same

/-- What is written as a property of the node is its shape, its label or a further property that is
set. -/
theorem field_of_property {p : Property} (hp : p ∈ n.properties) :
    p.key ∈ ["shape".toList, "label"] ∨ ∃ f ∈ n.fields, f.2.isSome = true ∧ p.key = f.1 := by
  have given {v : Value} (holds : v.holds = true) : v.isSome = true := by
    cases v <;> first | rfl | cases holds
  rcases mem_properties hp with rfl | rfl | ⟨f, hf, holds, rfl⟩ | ⟨f, hf, holds, rfl⟩ |
    ⟨f, hf, set, rfl⟩ | ⟨own, rfl⟩
  · exact Or.inl (by simp [Property.plain])
  · exact Or.inl (by simp [Property.ofText, Property.quoted])
  · exact Or.inr ⟨f, by simp [fields, hf], given holds, rfl⟩
  · exact Or.inr ⟨f, by simp [fields, hf], given holds, rfl⟩
  · exact Or.inr ⟨f, by simp [fields, hf], set, rfl⟩
  · simp only [Writing.hasOwnTooltip, Bool.and_eq_true] at own
    exact Or.inr ⟨("tooltip".toList, n.tooltip), by simp [fields], own.1, rfl⟩

theorem property?_unset {f : Text × Value} (hf : f ∈ n.fields) (unset : ¬ f.2.isSome = true) :
    Reading.property? n.readProperties f.1 = none := by
  have absent : Keyed.find? f.1 n.readProperties = none := by
    refine Keyed.find?_eq_none_iff.mpr fun here => ?_
    obtain ⟨q, hq, same⟩ := List.mem_map.mp here
    obtain ⟨p, hp, rfl⟩ := List.mem_map.mp hq
    rcases field_of_property hp with first | ⟨g, hg, set, key⟩
    · have names : ∀ k ∈ Keyed.keys n.fields, k ∉ ["shape".toList, "label"] := by
        rw [keys_fields]
        decide
      exact names f.1 (List.mem_map_of_mem hf) (same ▸ first)
    · rw [eq_of_mem_fields hf hg (key.symm.trans same)] at set
      exact unset set
  rw [Reading.property?, absent]
  rfl

namespace Furnished

theorem text_of_says {v : Value} (said : v.Says (· ≠ [])) (given : v.isSome = true) :
    ∃ t, v = .text t ∧ t ≠ [] ∧ v.holds = true := by
  rcases said with rfl | ⟨t, rfl, some_text⟩
  · cases given
  · exact ⟨t, rfl, some_text, by simpa [Value.holds] using some_text⟩

/-- A further property that is set is written with what it shows. -/
theorem written (h : n.Furnished) (unlinked : n.link = .null) {f : Text × Value} (hf : f ∈ n.fields)
    (given : f.2.isSome = true) :
    f.2.shown ≠ [] ∧ ∃ p ∈ n.properties, p.key = f.1 ∧ p.value = f.2.shown := by
  have texts := h.texts
  simp only [List.forall_mem_cons] at texts
  obtain ⟨icon, image, form, position, _⟩ := texts
  have quoted {f : Text × Value} (said : f.2.Says (· ≠ [])) (given : f.2.isSome = true) :
      (Property.ofText f).value = f.2.shown ∧ f.2.shown ≠ [] ∧ f.2.holds = true := by
    obtain ⟨k, v⟩ := f
    obtain ⟨t, rfl, some_text, holds⟩ := text_of_says said given
    exact ⟨rfl, some_text, holds⟩
  simp only [fields, List.mem_append, List.mem_singleton] at hf
  simp only [properties, List.mem_append, List.mem_map]
  rcases hf with ((picture | placement) | extent) | rfl
  · have said : f.2.Says (· ≠ []) := by
      simp only [Writing.pictures, List.mem_cons, List.not_mem_nil, or_false] at picture
      rcases picture with rfl | rfl
      · exact icon
      · exact image
    obtain ⟨value, some_text, holds⟩ := quoted said given
    have shown : f ∈ (Writing.pictures n).filter fun f => f.2.holds :=
      List.mem_filter.mpr ⟨picture, holds⟩
    exact ⟨some_text, .ofText f, Or.inl (Or.inl (Or.inr ⟨f, shown, rfl⟩)), rfl, value⟩
  · have said : f.2.Says (· ≠ []) := by
      simp only [Writing.placements, List.mem_cons, List.not_mem_nil, or_false] at placement
      rcases placement with rfl | rfl
      · exact form
      · exact position
    obtain ⟨_, some_text, holds⟩ := quoted said given
    have shown : f ∈ n.shownFields :=
      List.mem_append_left _ (List.mem_filter.mpr ⟨placement, holds⟩)
    exact ⟨some_text, .ofShown f, Or.inl (Or.inr ⟨f, shown, rfl⟩), rfl, rfl⟩
  · have counts : f.2.Counts := by
      simp only [Writing.extents, List.mem_cons, List.not_mem_nil, or_false] at extent
      rcases extent with rfl | rfl
      · exact h.width
      · exact h.height
    obtain ⟨i, same⟩ := Value.isInt_iff.mp (counts given)
    have shown : f ∈ n.shownFields :=
      List.mem_append_right _ (List.mem_filter.mpr ⟨extent, given⟩)
    refine ⟨?_, .ofShown f, Or.inl (Or.inr ⟨f, shown, rfl⟩), rfl, rfl⟩
    rw [same, Value.shown_int]
    exact ofInt_ne_nil i
  · have own : Writing.hasOwnTooltip n = true := by
      simpa [Writing.hasOwnTooltip, unlinked, Value.isSome] using given
    obtain ⟨value, some_text, _⟩ := quoted (h.tooltip unlinked) given
    have shown : ("tooltip".toList, n.tooltip) ∈ n.tooltips := by
      rw [tooltips, if_pos own]
      exact List.mem_singleton_self _
    exact ⟨some_text, .ofText ("tooltip", n.tooltip), Or.inr ⟨_, shown, rfl⟩, rfl, value⟩

theorem property?_written (h : n.Furnished) (unlinked : n.link = .null) {f : Text × Value}
    (hf : f ∈ n.fields) (given : f.2.isSome = true) :
    Reading.property? n.readProperties f.1 = some f.2.shown := by
  obtain ⟨some_text, p, hp, key, value⟩ := h.written unlinked hf given
  have filled : (!f.2.shown.isEmpty) = true := by simpa using some_text
  rw [Reading.property?, ← key, find?_readProperties hp, Option.map_some, value,
    Option.filter_some, if_pos filled]

theorem textOr_fields (h : n.Furnished) (unlinked : n.link = .null) {f : Text × Value}
    (hf : f ∈ n.fields) (said : f.2.Says (· ≠ [])) :
    Reading.textOr (Reading.property? n.readProperties f.1) .null = f.2 := by
  by_cases given : f.2.isSome = true
  · rw [h.property?_written unlinked hf given]
    obtain ⟨t, same, _⟩ := text_of_says said given
    rw [same]
    rfl
  · rw [property?_unset hf given, Value.eq_null_of_isSome given]
    rfl

theorem integerOr_fields (h : n.Furnished) (writable : n.Writable) (unlinked : n.link = .null)
    {f : Text × Value} (hf : f ∈ Writing.extents n) (counts : f.2.Counts) :
    Reading.integerOr (Reading.property? n.readProperties f.1) .null = .ok f.2 := by
  have there : f ∈ n.fields := by simp [fields, hf]
  by_cases given : f.2.isSome = true
  · obtain ⟨i, same⟩ := Value.isInt_iff.mp (counts given)
    have read := (writable.extents f hf given).2
    rw [h.property?_written unlinked there given]
    rw [same, Value.shown_int] at read ⊢
    have whole := firstInt?_ofInt (short_of_firstInt? read) (stops_nil isDecimal)
    rw [List.append_nil] at whole
    rw [Reading.integerOr, whole]
    rfl
  · rw [property?_unset there given, Value.eq_null_of_isSome given]
    rfl

theorem withProperties_eq (h : n.Furnished) (writable : n.Writable) (unlinked : n.link = .null) :
    Reading.withProperties n.spoken n.readProperties = .ok { n.spoken with
      icon := n.icon, image := n.image, form := n.form, labelPosition := n.labelPosition
      tooltip := n.tooltip, width := n.width, height := n.height } := by
  have texts := h.texts
  simp only [List.forall_mem_cons] at texts
  obtain ⟨icon, image, form, position, _⟩ := texts
  have told {key : Text} {v : Value} (there : (key, v) ∈ n.fields) (said : v.Says (· ≠ [])) :
      Reading.textOr (Reading.property? n.readProperties key) .null = v :=
    h.textOr_fields unlinked there said
  have icon : Reading.textOr (Reading.property? n.readProperties "icon") n.spoken.icon = n.icon :=
    told (by simp [fields, Writing.pictures]) icon
  have image : Reading.textOr (Reading.property? n.readProperties "img") n.spoken.image = n.image :=
    told (by simp [fields, Writing.pictures]) image
  have form : Reading.textOr (Reading.property? n.readProperties "form") n.spoken.form = n.form :=
    told (by simp [fields, Writing.placements]) form
  have position : Reading.textOr (Reading.property? n.readProperties "pos") n.spoken.labelPosition =
      n.labelPosition := told (by simp [fields, Writing.placements]) position
  have tooltip : Reading.textOr (Reading.property? n.readProperties "tooltip") n.spoken.tooltip =
      n.tooltip := told (by simp [fields]) (h.tooltip unlinked)
  have width : Reading.integerOr (Reading.property? n.readProperties "w") n.spoken.width =
      .ok n.width := h.integerOr_fields writable unlinked (f := ("w", n.width)) (.head _) h.width
  have height : Reading.integerOr (Reading.property? n.readProperties "h") n.spoken.height =
      .ok n.height :=
    h.integerOr_fields writable unlinked (f := ("h", n.height)) (.tail _ (.head _)) h.height
  simp only [Reading.withProperties, bind_eq_ok, pure_eq_ok]
  refine ⟨n.width, width, n.height, height, ?_⟩
  simp only [icon, image, form, position, tooltip]

end Furnished

theorem Furnished.sameProperties_heard (h : n.Furnished) (writable : n.Writable)
    (unlinked : n.link = .null) :
    n.SameProperties n.heard := by
  by_cases needs : Writing.needsProperties n = true
  · have read := (withProperties_spoken writable needs).symm.trans
      (h.withProperties_eq writable unlinked)
    rw [Except.ok.inj read]
    exact ⟨rfl, rfl, rfl, rfl, rfl, rfl, rfl, rfl⟩
  · rw [heard, if_neg needs]
    have no_link : Value.null.isSome = false := rfl
    simp only [Writing.needsProperties, Writing.hasOwnTooltip, unlinked, no_link, Bool.not_false,
      Bool.and_true, Bool.or_eq_true, not_or, Bool.not_eq_true] at needs
    obtain ⟨⟨⟨⟨⟨⟨⟨_, icon⟩, image⟩, form⟩, position⟩, width⟩, height⟩, tooltip⟩ := needs
    have unset {v : Value} (none_here : v.isSome = false) : Value.null = v :=
      (Value.eq_null_of_isSome (by simp [none_here])).symm
    exact ⟨rfl, unset icon, unset image, unset form, unset position, unset width, unset height,
      unset tooltip⟩

end Node

namespace Diagram
variable {d : Diagram}

theorem furnished_read {src : Text} (read : Diagram.read src = .ok d) :
    ∀ n ∈ d.nodes, n.Furnished := by
  obtain ⟨q, furnished, rfl⟩ := has_read Trait.readable_furnished read
  intro n' there
  obtain ⟨n, hn, rfl⟩ := List.mem_map.mp there
  have h : n.Furnished := furnished.nodes n hn
  rw [n.settle_rest]
  exact ⟨h.texts, h.width, h.height, h.tooltip⟩

/-- If what is read of a text can be written and read again, then all nodes without links come back
with their shapes and their further properties. -/
theorem properties_come_back {src : Text} (read : Diagram.read src = .ok d) (legible : d.Legible) :
    ∃ s d', d.write {} = .ok s ∧ Diagram.read s = .ok d' ∧ ∀ n ∈ d.nodes, n.link = .null →
      ∃ m, d'.node? n.id = some m ∧ n.SameProperties m := by
  obtain ⟨s, d', written, again, nodes, _⟩ := legible.read_write (integral_read read)
  refine ⟨s, d', written, again, fun n hn unlinked => ?_⟩
  obtain ⟨m, found, bared⟩ := nodes n hn
  have heard := (furnished_read read n hn).sameProperties_heard (legible.nodes n hn).toWritable
    unlinked
  have told : m.bared = n.told := by
    rw [bared, Node.retold, Node.links, unlinked]
    rfl
  have same : n.SameProperties m.bared := by
    rw [told]
    exact ⟨heard.shape, heard.icon, heard.image, heard.form, heard.labelPosition, heard.width,
      heard.height, heard.tooltip⟩
  exact ⟨m, found, same.shape, same.icon, same.image, same.form, same.labelPosition, same.width,
    same.height, same.tooltip⟩

theorem adorned_properties_come_back : Diagram.read adornedText = .ok adorned ∧ adorned.Legible ∧
    ∃ s d', adorned.write {} = .ok s ∧ Diagram.read s = .ok d' ∧ ∀ n ∈ adorned.nodes,
      n.link = .null → ∃ m, d'.node? n.id = some m ∧ n.SameProperties m :=
  ⟨read_adornedText, legible_adorned, properties_come_back read_adornedText legible_adorned⟩

/-- A form that is told in quotes is written without them: it ends at its comma. -/
theorem forms_do_not_come_back : ¬ ∀ src d, Diagram.read src = .ok d →
    ∃ s d', d.write {} = .ok s ∧ Diagram.read s = .ok d' ∧ ∀ n ∈ d.nodes, n.link = .null →
      ∃ m, d'.node? n.id = some m ∧ n.SameProperties m := by
  intro back
  let d : Diagram := { nodes := [{ id := .text "A", text := .text "A", form := .text "a, b" }] }
  have read : Diagram.read "flowchart TB\n    A@\x7b form: \"a, b\" \x7d".toList = .ok d := by
    decide +kernel
  have written : d.write {} =
      .ok "flowchart TB\n    A@\x7b shape: rect, label: \"A\", form: a, b \x7d\n".toList := by
    decide +kernel
  have again : (Diagram.read
      "flowchart TB\n    A@\x7b shape: rect, label: \"A\", form: a, b \x7d\n".toList).map
        (fun d' => (d'.node? (.text "A")).map Node.form) = .ok (some (.text "a")) := by
    decide +kernel
  obtain ⟨s, d', same, reread, nodes⟩ := back _ d read
  rw [written] at same
  cases same
  obtain ⟨m, found, form⟩ :
      ∃ m, d'.node? (.text "A") = some m ∧ m.form = .text "a, b" := by
    obtain ⟨m, found, same⟩ := nodes _ (List.mem_singleton_self _) rfl
    exact ⟨m, found, same.form⟩
  rw [reread] at again
  have cut : (d'.node? (.text "A")).map Node.form = some (.text "a") := Except.ok.inj again
  rw [found, Option.map_some, form] at cut
  exact absurd cut (by decide)

end Diagram
end Flowchart
