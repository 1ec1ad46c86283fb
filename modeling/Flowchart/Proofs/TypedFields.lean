import Flowchart.Proofs.Wording

/-! Fields with values of the types that they are meant for. An entity that is made of such fields,
or changed by them, has texts for words. -/
namespace Flowchart

namespace Value

/-- Is the value a list of texts? -/
def areTexts : Value → Bool
  | .list vs => vs.all isText
  | _ => false

theorem texts_partsIfAny {v : Value} {vs : List Value} (h : v.areTexts)
    (parts : v.partsIfAny = .ok vs) : ∀ w ∈ vs, w.isText := by
  cases v with
  | list ws =>
    unfold partsIfAny at parts
    split at parts
    · cases parts
      exact List.all_eq_true.mp h
    · cases parts
      simp
  | _ => cases h

end Value

/-- The fields that words of a node are in, and what their values are. -/
def Node.kinds : List (Text × (Value → Bool)) := [
  ("id", Value.isText), ("text", Value.isText), ("css_classes", Value.areTexts),
  ("link", Value.isWord), ("tooltip", Value.isWord), ("icon", Value.isWord), ("img", Value.isWord)]

/-- The fields that words of an edge are in, and what their values are. -/
def Edge.kinds : List (Text × (Value → Bool)) := [
  ("id", Value.isWord), ("text", Value.isWord), ("length", Value.isInt),
  ("css_classes", Value.areTexts)]

namespace Fields
variable {kinds : List (Text × (Value → Bool))} {fields further : Fields} {name : Text}
  {kind : Value → Bool} {v : Value}

/-- Has every field that is listed a value of its kind? -/
def fit (kinds : List (Text × (Value → Bool))) (fields : Fields) : Bool :=
  fields.all fun f => kinds.all fun k => k.1 != f.1 || k.2 f.2

theorem kind_of_fit (h : fields.fit kinds) (listed : (name, kind) ∈ kinds)
    (given : (name, v) ∈ fields) : kind v = true := by
  have one := List.all_eq_true.mp (List.all_eq_true.mp h _ given) _ listed
  simpa using one

theorem kind_of_get? (h : fields.fit kinds) (listed : (name, kind) ∈ kinds)
    (given : fields.get? name = some v) : kind v = true := by
  obtain ⟨entry, found, rfl⟩ := Option.map_eq_some_iff.mp given
  have called : entry.1 = name := Keyed.key_of_find? found
  exact kind_of_fit h listed (called ▸ Keyed.mem_of_find? found)

theorem kind_of_get (h : fields.fit kinds) (listed : (name, kind) ∈ kinds) :
    fields.get name = .null ∨ kind (fields.get name) = true := by
  by_cases absent : fields.get name = .null
  · exact Or.inl absent
  · exact Or.inr (kind_of_fit h listed (mem_of_get rfl absent))

/-- A word that is left out is null. -/
theorem isWord_get (h : fields.fit kinds) (listed : (name, Value.isWord) ∈ kinds) :
    (fields.get name).isWord = true := by
  rcases kind_of_get h listed with absent | word
  · rw [absent]
    rfl
  · exact word

/-- Where a list of texts is left out there is no text. -/
theorem texts_get (h : fields.fit kinds) (listed : (name, Value.areTexts) ∈ kinds)
    {vs : List Value} (parts : (fields.get name).partsIfAny = .ok vs) : ∀ v ∈ vs, v.isText := by
  rcases kind_of_get h listed with absent | texts
  · rw [absent] at parts
    cases parts
    simp
  · exact Value.texts_partsIfAny texts parts

theorem fit_append (h : fields.fit kinds) (h' : further.fit kinds) :
    fit kinds (fields ++ further) = true := by
  rw [fit, List.all_append, Bool.and_eq_true]
  exact ⟨h, h'⟩

theorem fit_remove (h : fields.fit kinds) (name : Text) :
    fit kinds (Keyed.remove name fields) = true :=
  List.all_eq_true.mpr fun f hf => List.all_eq_true.mp h f (List.mem_of_mem_filter hf)

end Fields

/-! ### Entities made of fields -/

section Made
variable {fields : Fields}

theorem Node.Reads.worded {n : Node} (reads : n.Reads fields) (fit : fields.fit Node.kinds) :
    n.IsWorded := by
  have id : n.id.isText := Fields.kind_of_get? fit (by simp [kinds]) reads.id
  have text : n.text.isText := by
    rw [← reads.text]
    cases given : fields.get? "text" with
    | none => exact id
    | some v => exact Fields.kind_of_get? fit (by simp [kinds]) given
  exact {
    id, text
    icon := reads.icon ▸ Fields.isWord_get fit (by simp [kinds])
    image := reads.image ▸ Fields.isWord_get fit (by simp [kinds])
    tooltip := reads.tooltip ▸ Fields.isWord_get fit (by simp [kinds])
    link := reads.link ▸ Fields.isWord_get fit (by simp [kinds])
    classes := Fields.texts_get fit (by simp [kinds]) reads.classes }

/-- An edge that is made of fields has texts for words, once its id is one. -/
theorem Edge.Reads.worded {e : Edge} (reads : e.Reads fields) (fit : fields.fit Edge.kinds)
    {id : Value} (text : id.isText) : Edge.IsWorded { e with id } := by
  have length : e.length.isInt := by
    rw [← reads.length]
    cases given : fields.get? "length" with
    | none => rfl
    | some v => exact Fields.kind_of_get? fit (by simp [kinds]) given
  exact {
    id := text, length
    text := reads.text ▸ Fields.isWord_get fit (by simp [kinds])
    classes := Fields.texts_get fit (by simp [kinds]) reads.classes }

theorem Edge.Reads.isWord_id {e : Edge} (reads : e.Reads fields) (fit : fields.fit Edge.kinds) :
    e.id.isWord = true :=
  Fields.kind_of_get? fit (by simp [kinds]) reads.id

end Made

/-! ### Entities changed by fields -/

namespace Edit
variable {α : Type} {setters : List (Text × (Value → Except Error (α → α)))} {changes : Fields}
  {kinds : List (Text × (Value → Bool))} {name : Text}

/-- A part that a field governs stays of the kind of the field. -/
theorem lets_kind {kind : Value → Bool} {part : α → Value} (governs : Governs setters name part)
    (fit : changes.fit kinds) (listed : (name, kind) ∈ kinds) :
    Lets setters (fun x => kind (part x) = true) changes := by
  refine lets_of fun entry mem v f given one x h => ?_
  obtain ⟨sets, spares⟩ := governs entry mem v f one x
  by_cases here : entry.1 = name
  · rw [sets here]
    exact Fields.kind_of_fit fit listed (here ▸ given)
  · rw [spares here]
    exact h

theorem lets_texts {part : α → List Value}
    (reads : ∀ entry ∈ setters, ∀ v f, entry.2 v = .ok f → ∀ x,
      part (f x) = part x ∨ entry.1 = name ∧ v.partsIfAny = .ok (part (f x)))
    (fit : changes.fit kinds) (listed : (name, Value.areTexts) ∈ kinds) :
    Lets setters (fun x => ∀ c ∈ part x, c.isText) changes := by
  refine lets_of fun entry mem v f given one x h => ?_
  rcases reads entry mem v f one x with same | ⟨here, parts⟩
  · rw [same]
    exact h
  · exact Value.texts_partsIfAny (Fields.kind_of_fit fit listed (here ▸ given)) parts

theorem governs_node_text : Governs Node.setters "text" Node.text := by
  simp [Governs, Node.setters, map_eq_ok]

theorem governs_node_icon : Governs Node.setters "icon" Node.icon := by
  simp [Governs, Node.setters, map_eq_ok]

theorem governs_node_image : Governs Node.setters "img" Node.image := by
  simp [Governs, Node.setters, map_eq_ok]

theorem governs_node_tooltip : Governs Node.setters "tooltip" Node.tooltip := by
  simp [Governs, Node.setters, map_eq_ok]

theorem governs_node_link : Governs Node.setters "link" Node.link := by
  simp [Governs, Node.setters, map_eq_ok]

theorem reads_node_classes : ∀ entry ∈ Node.setters, ∀ v f, entry.2 v = .ok f → ∀ n : Node,
    (f n).classes = n.classes ∨
      entry.1 = "css_classes".toList ∧ v.partsIfAny = .ok (f n).classes := by
  have read : ∀ (v : Value) cs, v.partsIfAny = .ok cs → ∀ n : Node,
      cs = n.classes ∨ v.partsIfAny = .ok cs := fun _ _ read _ => Or.inr read
  simpa [Node.setters, map_eq_ok] using read

theorem governs_edge_text : Governs Edge.setters "text" Edge.text := by
  simp [Governs, Edge.setters, map_eq_ok]

theorem governs_edge_length : Governs Edge.setters "length" Edge.length := by
  simp [Governs, Edge.setters, map_eq_ok]

theorem reads_edge_classes : ∀ entry ∈ Edge.setters, ∀ v f, entry.2 v = .ok f → ∀ e : Edge,
    (f e).classes = e.classes ∨
      entry.1 = "css_classes".toList ∧ v.partsIfAny = .ok (f e).classes := by
  have read : ∀ (v : Value) cs, v.partsIfAny = .ok cs → ∀ e : Edge,
      cs = e.classes ∨ v.partsIfAny = .ok cs := fun _ _ read _ => Or.inr read
  simpa [Edge.setters, map_eq_ok] using read

theorem lets_node_worded (fit : changes.fit Node.kinds) :
    Lets Node.setters Node.IsWorded changes := fun set hset n h => {
  id := (congrArg Value.isText (setAll_spares spares_node_id hset n)).trans h.id
  text := lets_kind governs_node_text fit (by simp [Node.kinds]) set hset n h.text
  icon := lets_kind governs_node_icon fit (by simp [Node.kinds]) set hset n h.icon
  image := lets_kind governs_node_image fit (by simp [Node.kinds]) set hset n h.image
  tooltip := lets_kind governs_node_tooltip fit (by simp [Node.kinds]) set hset n h.tooltip
  link := lets_kind governs_node_link fit (by simp [Node.kinds]) set hset n h.link
  classes := lets_texts reads_node_classes fit (by simp [Node.kinds]) set hset n h.classes }

theorem lets_edge_worded (fit : changes.fit Edge.kinds) :
    Lets Edge.setters Edge.IsWorded changes := fun set hset e h => {
  id := (congrArg Value.isText (setAll_spares spares_edge_id hset e)).trans h.id
  text := lets_kind governs_edge_text fit (by simp [Edge.kinds]) set hset e h.text
  length := lets_kind governs_edge_length fit (by simp [Edge.kinds]) set hset e h.length
  classes := lets_texts reads_edge_classes fit (by simp [Edge.kinds]) set hset e h.classes }

end Edit
end Flowchart
