import Flowchart.Proofs.RoundTrip

/-! Declarations that are joined into a line, and the line that is split again. Nothing in the
texts of two nodes is taken for an edge or for an ampersand between nodes, whatever the texts, the
shapes and the edge are. -/
namespace Flowchart
open Text

/-- The node is declared with no more than its id, its text and its shape, and the id is a word or
empty. -/
structure Node.Unadorned (n : Node) : Prop where
  id : ∃ i, n.id = .text i ∧ ∀ c ∈ i, isPlainChar c = true
  text : ∃ t, n.text = .text t
  shape : n.shape ∈ Shape.known
  further : ∀ v ∈ [n.tooltip, n.icon, n.image, n.form, n.labelPosition, n.width, n.height],
    v = .null

/-- A rectangle that has neither an id nor a text. Its declaration is empty. -/
structure Node.IsVoid (n : Node) : Prop where
  id : n.id = .text []
  text : n.text = .text []
  shape : n.shape = .rect

namespace Node.Unadorned
variable {n m : Node}

theorem needsProperties (h : n.Unadorned) :
    Writing.needsProperties n = !n.shape.isBracketed := by
  simp [Writing.needsProperties, Writing.hasOwnTooltip, h.further n.tooltip, h.further n.icon,
    h.further n.image, h.further n.form, h.further n.labelPosition, h.further n.width,
    h.further n.height, Value.isSome]

theorem nodeProperties (h : n.Unadorned) {t : Text} (text : n.text = .text t) :
    Writing.nodeProperties n = .ok
      ([Property.plain "shape" n.shape.name, .quoted "label" t].map Property.text) := by
  have label : Writing.quotedProperty "label" n.text = .ok (Property.quoted "label" t).text := by
    rw [text]
    rfl
  rw [Writing.nodeProperties, label]
  simp [Writing.pictures, Writing.placements, Writing.extents, Writing.hasOwnTooltip, setFields,
    h.further n.tooltip, h.further n.icon, h.further n.image, h.further n.form,
    h.further n.labelPosition, h.further n.width, h.further n.height, Value.isSome, Value.holds,
    bind, Except.bind, pure, Except.pure, Property.plain, Property.text, Writing.plainProperty]

theorem level_properties (h : n.Unadorned) (t : Text) :
    ∀ p ∈ [Property.plain "shape" n.shape.name, .quoted "label" t], Chain.Level p.text := by
  have word : ∀ k ∈ ["shape".toList, "label"], ∀ c ∈ k, isWordOrHyphen c = true := by
    decide +kernel
  have shape : (Property.plain "shape" n.shape.name).Writable :=
    Property.plain_writable (by decide) (word "shape" (by decide)) (Shape.plainValue_name h.shape)
  have label : Chain.Level (Property.quoted "label" t).text :=
    level_text (word "label" (by decide)) (Quoted.outside_inQuotes _ t)
  simpa using And.intro shape.level_text label

/-- The declaration is one node text, and only that of a void node is empty. -/
theorem exists_whole (h : n.Unadorned) :
    ∃ d, Writing.node n = .ok d ∧ Chain.Whole d ∧ (d = [] ↔ n.IsVoid) := by
  obtain ⟨i, id, chars⟩ := h.id
  obtain ⟨t, text⟩ := h.text
  have letters := letters_of_isPlainChar chars
  by_cases needs : Writing.needsProperties n = true
  · refine ⟨_, node_braced id needs (h.nodeProperties text),
      whole_braced letters (h.level_properties t), ?_⟩
    constructor
    · intro empty
      rw [braced_eq] at empty
      exact absurd empty (by simp)
    · intro void
      rw [h.needsProperties, void.shape] at needs
      cases needs
  obtain ⟨b, hb, found, _⟩ := exists_brackets needs
  by_cases bare : (n.text = n.id && n.shape = .rect) = true
  · refine ⟨i, node_bare id needs bare, letters.whole, ?_⟩
    simp only [Bool.and_eq_true, decide_eq_true_eq] at bare
    constructor
    · rintro rfl
      exact ⟨id, bare.1.trans id, bare.2⟩
    · intro void
      rw [void.id] at id
      exact (Value.text.inj id).symm
  · refine ⟨bracketed i b t, node_bracketed id text needs bare found,
      whole_bracketed letters hb, ?_⟩
    constructor
    · intro empty
      obtain ⟨u, c, last, _⟩ := getLast?_bracketed i t hb
      rw [last] at empty
      exact absurd empty (by simp)
    · intro void
      exact absurd (by simp [void.id, void.text, void.shape]) bare

end Node.Unadorned

/-! ### Joined declarations -/

namespace Operator

/-- An invisible operator is written as the one without tips. -/
theorem exists_tips (stroke : Stroke) (source target : Tip) (length : Int) : ∃ a b,
    (stroke = .invisible → a = .none ∧ b = .none) ∧
      write stroke source target length = write stroke a b length := by
  by_cases hidden : stroke = .invisible
  · subst hidden
    exact ⟨.none, .none, fun _ => ⟨rfl, rfl⟩, rfl⟩
  · exact ⟨source, target, fun e => absurd e hidden, rfl⟩

end Operator

theorem Chain.ofLine_built {d e op : Text} (hd : Whole d) (he : Whole e) {stroke : Stroke}
    {source target : Tip} {length : Int}
    (built : Operator.build stroke source target length = .ok op) (label : Option Text) :
    ofLine (d ++ ' ' :: op ++ Link.piped (label.map Quoted.label) ++ ' ' :: e) =
      ⟨d, [(⟨op, label.map Quoted.label, none⟩, e)]⟩ := by
  obtain ⟨a, b, tips, same⟩ := Operator.exists_tips stroke source target length
  have no_pipe : ∀ l, label.map Quoted.label = some l → '|' ∉ l := by
    intro l labelled
    obtain ⟨t, _, rfl⟩ := Option.map_eq_some_iff.mp labelled
    exact Quoted.not_mem_label (by decide) (by decide) t
  have no_tag : ∀ i, (none : Option Text) = some i → Tag i := fun _ tag => nomatch tag
  have split := ofLine_edge hd he tips length no_pipe no_tag
  rw [Operator.eq_write_of_build built, same]
  simpa [tagged] using split

/-- Two declarations that are joined by an edge, or by an ampersand, are told apart, whatever stands
in their texts and in the label of the edge. An empty declaration is no piece of a node text. -/
theorem joined_declarations_split {n m : Node} (hn : n.Unadorned) (hm : m.Unadorned) :
    ∃ d e, Writing.node n = .ok d ∧ Writing.node m = .ok e ∧
      (d = [] ↔ n.IsVoid) ∧ (e = [] ↔ m.IsVoid) ∧
      (∀ stroke source target length op (label : Option Text),
        Operator.build stroke source target length = .ok op →
        Chain.ofLine (d ++ ' ' :: op ++ Link.piped (label.map Quoted.label) ++ ' ' :: e) =
          ⟨d, [(⟨op, label.map Quoted.label, none⟩, e)]⟩) ∧
      group d = [d].filter (fun s => !s.isEmpty) ∧
      group (d ++ " & ".toList ++ e) = [d, e].filter (fun s => !s.isEmpty) := by
  obtain ⟨d, written_d, whole_d, empty_d⟩ := hn.exists_whole
  obtain ⟨e, written_e, whole_e, empty_e⟩ := hm.exists_whole
  refine ⟨d, e, written_d, written_e, empty_d, empty_e, ?edge, ?alone, ?both⟩
  case edge =>
    intro stroke source target length op label built
    exact Chain.ofLine_built whole_d whole_e built label
  case alone =>
    have alone := Chain.group_join (List.cons_ne_nil d []) (by simpa using whole_d)
    simpa [Text.join, List.intercalate] using alone
  case both =>
    have both := Chain.group_join (List.cons_ne_nil d [e]) (by simp [whole_d, whole_e])
    simpa [Text.join, List.intercalate] using both

theorem awkward_declarations_split :
    ∃ d e, Writing.node
        { id := .text "a_1", text := .text "--> b & \"c\" [x", shape := .odd } = .ok d ∧
      Writing.node
        { id := .text "2", text := .text "d@\x7b==>]\n", shape := .document } = .ok e ∧
      Chain.ofLine (d ++ ' ' :: "x-.-o".toList ++ "|yes #124; no|".toList ++ ' ' :: e) =
        ⟨d, [(⟨"x-.-o", some "yes #124; no", none⟩, e)]⟩ ∧
      group d = [d] ∧ group (d ++ " & ".toList ++ e) = [d, e] := by
  have source : Node.Unadorned
      { id := .text "a_1", text := .text "--> b & \"c\" [x", shape := .odd } :=
    ⟨⟨"a_1", rfl, by decide⟩, ⟨_, rfl⟩, by decide, by simp⟩
  have target : Node.Unadorned
      { id := .text "2", text := .text "d@\x7b==>]\n", shape := .document } :=
    ⟨⟨"2", rfl, by decide⟩, ⟨_, rfl⟩, by decide, by simp⟩
  obtain ⟨d, e, written_d, written_e, empty_d, empty_e, edge, alone, both⟩ :=
    joined_declarations_split source target
  have some_d : d ≠ [] := fun empty => absurd (empty_d.mp empty).shape (by decide)
  have some_e : e ≠ [] := fun empty => absurd (empty_e.mp empty).shape (by decide)
  refine ⟨d, e, written_d, written_e, ?edge, ?alone, ?both⟩
  case edge => exact edge .dotted .cross .circle 1 "x-.-o" (some "yes | no") (by decide)
  case alone => simpa [some_d] using alone
  case both => simpa [some_d, some_e] using both

/-- The declaration of a void node is no piece of the text that it makes. -/
theorem void_declaration_is_no_piece :
    (Node.bare (.text [])).Unadorned ∧
      ¬ ∃ d, Writing.node (Node.bare (.text [])) = .ok d ∧ group d = [d] := by
  constructor
  · exact ⟨⟨[], rfl, by simp⟩, ⟨[], rfl⟩, by decide, by simp [Node.bare]⟩
  · rintro ⟨d, written, alone⟩
    obtain rfl : [] = d := Except.ok.inj written
    exact absurd alone (by decide)

end Flowchart
