import Flowchart.Proofs.Declarations

/-! Nodes that are declared with properties, and all declarations together: what has to hold of a
node for its declaration to be one line that is read as the node. -/
namespace Flowchart
open Text

/-- A value that can be written without quotes. -/
structure PlainValue (v : Text) : Prop extends Inline v where
  some_text : v ≠ []
  tight : Tight v
  marks : ∀ c ∈ v, c ∉ (",\"'[]()\x7b\x7d" : String).toList
  start : v.head? ≠ some '\x60'
  no_code : Entity.hasCode v = false

namespace Writing

theorem inline_plainProperty {key value : Text} (name : ∀ c ∈ key, isLineBreak c = false ∧ c ≠ '%')
    (h : Inline value) : Inline (plainProperty key value) := by
  have mark : ∀ c ∈ ": ".toList, isLineBreak c = false ∧ c ≠ '%' := by decide
  refine .before (fun c hc => ?_) h
  rcases List.mem_append.mp hc with hc | hc
  · exact name c hc
  · exact mark c hc

theorem inline_braced {id : Text} {properties : List Text} (hid : Inline id)
    (h : ∀ p ∈ properties, Inline p) : Inline (braced id properties) := by
  have body := Inline.join ", " (by decide) (by decide) h
  have opened : Inline (id ++ "@\x7b ".toList ++ Text.join ", " properties) := by
    rw [List.append_assoc]
    exact hid.between (c := '@') (by decide) (by decide) (.before (s := "\x7b ") (by decide) body)
  exact opened.after (by decide)

end Writing

namespace Property

/-- A property with a plain value. -/
def plain (key value : Text) : Property := ⟨key, value, value⟩

/-- A property with a value in quotes. -/
def quoted (key value : Text) : Property := ⟨key, Quoted.inQuotes value, value⟩

/-- The property is on one line, with its brackets in quotes. -/
structure Writable (p : Property) : Prop extends Reads p where
  level : Chain.Level p.written
  inline : Inline p.written

variable {key value : Text}

theorem plain_writable (some_key : key ≠ []) (word : ∀ c ∈ key, isWordOrHyphen c = true)
    (h : PlainValue value) : (plain key value).Writable where
  some_key := some_key
  word := word
  piece := by
    refine Quoted.outside_of_chars fun c hc => ⟨?_, ?_, ?_⟩ <;> rintro rfl <;>
      exact h.marks _ hc (by decide)
  unquote := by
    have no_quote : Stops Quoted.isQuote value := by
      intro c first
      have mark := h.marks c (List.mem_of_mem_head? first)
      cases quote : Quoted.isQuote c with
      | false => rfl
      | true =>
        simp only [Quoted.isQuote, Bool.or_eq_true, beq_iff_eq] at quote
        rcases quote with (rfl | rfl) | rfl
        · exact absurd (by decide) mark
        · exact absurd (by decide) mark
        · exact absurd first h.start
    change Quoted.unquote value = .ok value
    rw [Quoted.unquote, trim_tight h.tight, Quoted.peel_bare no_quote,
      Entity.decode_of_no_code h.no_code]
  level := by
    refine Quoted.outside_of_chars fun c hc => ⟨?_, ?_⟩
    · rintro rfl
      exact h.marks _ hc (by decide)
    · have brackets : ∀ d ∈ ("[]()\x7b\x7d" : String).toList,
          d ∈ (",\"'[]()\x7b\x7d" : String).toList := by decide
      simp only [Chain.isLevel, decide_not, Bool.not_eq_true', decide_eq_false_iff_not]
      exact fun here => h.marks c hc (brackets c here)
  inline := h.toInline

theorem quoted_writable (some_key : key ≠ []) (word : ∀ c ∈ key, isWordOrHyphen c = true)
    (h : OnlyFeeds value) : (quoted key value).Writable where
  some_key := some_key
  word := word
  piece := Quoted.outside_inQuotes _ value
  unquote := Quoted.unquote_inQuotes h.no_return
  level := Quoted.outside_inQuotes _ value
  inline := Quoted.inline_inQuotes h

end Property

/-! ### Braces -/

theorem isLevel_of_isWordOrHyphen {c : Char} (h : isWordOrHyphen c = true) :
    Chain.isLevel c = true := by
  have brackets : ∀ d ∈ ("[]()\x7b\x7d" : String).toList, isWordOrHyphen d = false := by
    decide
  simp only [Chain.isLevel, decide_not, Bool.not_eq_true', decide_eq_false_iff_not]
  intro here
  rw [brackets c here] at h
  cases h

theorem level_join {ss : List Text} (h : ∀ s ∈ ss, Chain.Level s) :
    Chain.Level (Text.join ", " ss) := by
  induction ss with
  | nil => exact .nil
  | cons s ss ih =>
    have rest := ih fun t ht => h t (List.mem_cons_of_mem s ht)
    cases ss with
    | nil => simpa [Text.join, List.intercalate] using h s List.mem_cons_self
    | cons t ss =>
      have mark : Chain.Level ", ".toList :=
        .char (by decide) (by decide) (.char (by decide) (by decide) .nil)
      rw [Text.join, List.intercalate_cons_cons]
      exact ((h s List.mem_cons_self).append mark).append rest

/-- What stands between the braces. -/
def body (ps : List Property) : Text := ' ' :: Text.join ", " (ps.map Property.text) ++ [' ']

theorem braced_eq (id : Text) (ps : List Property) :
    Writing.braced id (ps.map Property.text) = id ++ '@' :: '\x7b' :: (body ps ++ ['\x7d']) := by
  simp [Writing.braced, body]

section
variable {ps : List Property} {id : Text}

theorem level_text {p : Property} (word : ∀ c ∈ p.key, isWordOrHyphen c = true)
    (h : Chain.Level p.written) : Chain.Level p.text :=
  Quoted.outside_text (fun _ => isLevel_of_isWordOrHyphen) (by decide) (by decide) word h

theorem level_body (h : ∀ p ∈ ps, Chain.Level p.text) : Chain.Level (body ps) := by
  have blank : Chain.Level [' '] := .char (by decide) (by decide) .nil
  have texts : Chain.Level (Text.join ", " (ps.map Property.text)) := by
    apply level_join
    intro s hs
    obtain ⟨p, hp, rfl⟩ := List.mem_map.mp hs
    exact h p hp
  exact (blank.append texts).append blank

theorem whole_braced (h : Chain.Letters id) (level : ∀ p ∈ ps, Chain.Level p.text) :
    Chain.Whole (Writing.braced id (ps.map Property.text)) := by
  rw [braced_eq]
  exact h.whole_braced (level_body level)

theorem Property.Writable.level_text {p : Property} (h : p.Writable) : Chain.Level p.text :=
  Flowchart.level_text h.word h.level

theorem inline_text {p : Property} (h : p.Writable) : Inline p.text :=
  Writing.inline_plainProperty (fun c hc => inline_of_isWordOrHyphen (h.word c hc)) h.inline

theorem line_braced (h : NodeId id) (hp : ∀ p ∈ ps, p.Writable) :
    Line (Writing.braced id (ps.map Property.text)) := by
  have inline : Inline (Writing.braced id (ps.map Property.text)) := by
    refine Writing.inline_braced h.inline fun s hs => ?_
    obtain ⟨p, there, rfl⟩ := List.mem_map.mp hs
    exact inline_text (hp p there)
  rw [braced_eq] at inline ⊢
  refine ⟨inline, h.letters.tight_braced _, ?_, ?_⟩
  · simp
  · have last : id ++ '@' :: '\x7b' :: (body ps ++ ['\x7d']) =
        (id ++ '@' :: '\x7b' :: body ps) ++ ['\x7d'] := by simp
    rw [last, List.getLast?_concat]
    decide

theorem single_braced (h : NodeId id) (hp : ∀ p ∈ ps, p.Writable) :
    Reading.Single (Writing.braced id (ps.map Property.text)) := by
  have whole := whole_braced h.letters fun p there => (hp p there).level_text
  rw [braced_eq] at whole ⊢
  refine ⟨whole.tight, whole.group (by simp), ?_⟩
  have last : id ++ '@' :: '\x7b' :: (body ps ++ ['\x7d']) =
      (id ++ '@' :: '\x7b' :: body ps) ++ ['\x7d'] := by simp
  rw [last]
  exact Reading.classSuffix?_of_last (by decide) (by decide)

theorem firstWord_braced (h : NodeId id) :
    Statement.firstWord (Writing.braced id (ps.map Property.text)) ∉ Statement.keywords := by
  rw [braced_eq]
  exact Statement.firstWord_of_mark h.isBlank (by decide) (by decide)

theorem propertied?_braced (h : NodeId id) :
    Reading.propertied? (Writing.braced id (ps.map Property.text)) = some (id, body ps) := by
  have opened : after? ['@', '\x7b'] ('@' :: '\x7b' :: (body ps ++ ['\x7d'])) =
      some (body ps ++ ['\x7d']) := after?_append _ _
  have found : Statement.braced? ('@' :: '\x7b' :: (body ps ++ ['\x7d'])) = some (body ps) := by
    rw [Statement.braced?, opened]
    exact beforeFinal?_append _ _
  rw [braced_eq, h.propertied?_append (stops_cons.mpr (by decide)), found]
  rfl

end

/-! ### The properties of a node -/

/-- A text whose only line breaks are line feeds. -/
def Value.IsFed (v : Value) : Prop := ∃ t, v = .text t ∧ OnlyFeeds t

/-- The value can be written as a property without quotes. -/
def Value.IsPlain (v : Value) : Prop := PlainValue v.shown

/-- The value can be written as an extent: what is read of it is a number or nothing. -/
def Value.IsExtent (v : Value) : Prop := v.IsPlain ∧ (Statement.firstInt? v.shown).isOk

namespace Property

/-- A property that is written in quotes. -/
def ofText (f : Text × Value) : Property := quoted f.1 (f.2.text?.getD [])

/-- A property that is written without quotes. -/
def ofShown (f : Text × Value) : Property := plain f.1 f.2.shown

theorem quotedProperty_eq {f : Text × Value} (h : f.2.IsFed) :
    Writing.quotedProperty f.1 f.2 = .ok (ofText f).text := by
  obtain ⟨key, v⟩ := f
  obtain ⟨t, rfl, _⟩ := h
  rfl

theorem ofText_writable {f : Text × Value} (some_key : f.1 ≠ [])
    (word : ∀ c ∈ f.1, isWordOrHyphen c = true) (h : f.2.IsFed) : (ofText f).Writable := by
  obtain ⟨key, v⟩ := f
  obtain ⟨t, rfl, fed⟩ := h
  exact quoted_writable some_key word fed

end Property

namespace Node

/-- The tooltip, if it is written as a property. -/
def tooltips (n : Node) : Fields := if Writing.hasOwnTooltip n then [("tooltip", n.tooltip)] else []

/-- What is written in quotes. -/
def quotedFields (n : Node) : Fields := (Writing.pictures n).filter fun f => f.2.holds

/-- What is written without quotes. -/
def shownFields (n : Node) : Fields :=
  (Writing.placements n).filter (fun f => f.2.holds) ++ setFields (Writing.extents n)

/-- The properties of the node, as they are written and read. -/
def properties (n : Node) : List Property :=
  [.plain "shape" n.shape.name, .ofText ("label", n.text)] ++ n.quotedFields.map .ofText ++
  n.shownFields.map .ofShown ++ n.tooltips.map .ofText

/-- The node can be declared on one line, and what it says can be read back. -/
structure Writable (n : Node) : Prop where
  id : ∃ t, n.id = .text t ∧ NodeId t
  text : n.text.IsFed
  shape : Shape.resolve n.shape.name = n.shape
  shapeName : PlainValue n.shape.name
  pictures : ∀ f ∈ Writing.pictures n, f.2.holds → f.2.IsFed
  placements : ∀ f ∈ Writing.placements n, f.2.holds → f.2.IsPlain
  extents : ∀ f ∈ Writing.extents n, f.2.isSome → f.2.IsExtent
  tooltip : Writing.hasOwnTooltip n → n.tooltip.IsFed

variable {n : Node}

theorem nodeProperties_eq (h : n.Writable) :
    Writing.nodeProperties n = .ok (n.properties.map Property.text) := by
  have label := Property.quotedProperty_eq (f := ("label", n.text)) h.text
  have pictures : n.quotedFields.mapM (fun f => Writing.quotedProperty f.1 f.2) =
      .ok (n.quotedFields.map fun f => (Property.ofText f).text) := by
    refine mapM_ok fun f hf => Property.quotedProperty_eq ?_
    obtain ⟨hf, holds⟩ := List.mem_filter.mp hf
    exact h.pictures f hf holds
  have tooltip : (if Writing.hasOwnTooltip n then [n.tooltip] else []).mapM
      (Writing.quotedProperty "tooltip") =
        .ok (n.tooltips.map fun f => (Property.ofText f).text) := by
    rw [tooltips]
    cases own : Writing.hasOwnTooltip n with
    | false => rfl
    | true =>
      have := Property.quotedProperty_eq (f := ("tooltip", n.tooltip)) (h.tooltip own)
      rw [if_pos rfl, if_pos rfl, List.mapM_cons, this]
      rfl
  rw [Writing.nodeProperties]
  rw [quotedFields] at pictures
  simp only [label, pictures, tooltip, bind, Except.bind, pure, Except.pure]
  simp only [properties, quotedFields, shownFields, List.map_append, List.map_map, List.map_cons,
    List.map_nil]
  rfl

theorem mem_properties {p : Property} (h : p ∈ n.properties) :
    p = .plain "shape" n.shape.name ∨ p = .ofText ("label", n.text) ∨
      (∃ f ∈ Writing.pictures n, f.2.holds ∧ p = .ofText f) ∨
      (∃ f ∈ Writing.placements n, f.2.holds ∧ p = .ofShown f) ∨
      (∃ f ∈ Writing.extents n, f.2.isSome ∧ p = .ofShown f) ∨
      (Writing.hasOwnTooltip n ∧ p = .ofText ("tooltip", n.tooltip)) := by
  simp only [properties, quotedFields, shownFields, setFields, tooltips, List.mem_append,
    List.mem_cons, List.not_mem_nil, or_false, List.mem_map, List.mem_filter] at h
  rcases h with (((rfl | rfl) | ⟨f, ⟨hf, holds⟩, rfl⟩) |
    ⟨f, ⟨hf, holds⟩ | ⟨hf, some⟩, rfl⟩) | ⟨f, hf, rfl⟩
  · exact Or.inl rfl
  · exact Or.inr (Or.inl rfl)
  · exact Or.inr (Or.inr (Or.inl ⟨f, hf, holds, rfl⟩))
  · exact Or.inr (Or.inr (Or.inr (Or.inl ⟨f, hf, holds, rfl⟩)))
  · exact Or.inr (Or.inr (Or.inr (Or.inr (Or.inl ⟨f, hf, some, rfl⟩))))
  · split at hf
    · rename_i own
      rw [List.mem_singleton.mp hf]
      exact Or.inr (Or.inr (Or.inr (Or.inr (Or.inr ⟨own, rfl⟩))))
    · cases hf

/-- The keys of properties, in the order in which they are written. -/
def propertyKeys : List Text :=
  ["shape", "label", "icon", "img", "form", "pos", "w", "h", "tooltip"]

theorem keys_properties (n : Node) : (n.properties.map Property.key).Sublist propertyKeys := by
  have fields (fs : Fields) (p : Text × Value → Bool) :
      ((fs.filter p).map (·.1)).Sublist (fs.map (·.1)) := List.filter_sublist.map _
  have tooltip : (n.tooltips.map (·.1)).Sublist ["tooltip".toList] := by
    rw [tooltips]
    split
    · exact List.Sublist.refl _
    · exact List.nil_sublist _
  have shown := (fields (Writing.placements n) fun f => f.2.holds).append
    (fields (Writing.extents n) fun f => f.2.isSome)
  have quoted := fields (Writing.pictures n) fun f => f.2.holds
  have all := ((List.Sublist.refl ["shape".toList, "label".toList]).append quoted).append
    shown |>.append tooltip
  have whole : n.properties.map Property.key = ["shape".toList, "label".toList] ++
      (n.quotedFields.map (·.1)) ++ (n.shownFields.map (·.1)) ++ n.tooltips.map (·.1) := by
    simp only [properties, List.map_append, List.map_map]
    rfl
  rw [whole, quotedFields, shownFields, setFields, List.map_append]
  exact all

theorem nodup_properties (n : Node) : (n.properties.map Property.key).Nodup :=
  (by decide : propertyKeys.Nodup).sublist (keys_properties n)

theorem propertyKeys_word : ∀ k ∈ propertyKeys, k ≠ [] ∧ ∀ c ∈ k, isWordOrHyphen c = true := by
  decide +kernel

theorem properties_writable (h : n.Writable) : ∀ p ∈ n.properties, p.Writable := by
  intro p hp
  obtain ⟨some_key, word⟩ := propertyKeys_word p.key
    ((keys_properties n).subset (List.mem_map_of_mem hp))
  rcases mem_properties hp with rfl | rfl | ⟨f, hf, holds, rfl⟩ | ⟨f, hf, holds, rfl⟩ |
    ⟨f, hf, some, rfl⟩ | ⟨own, rfl⟩
  · exact Property.plain_writable some_key word h.shapeName
  · exact Property.ofText_writable some_key word h.text
  · exact Property.ofText_writable some_key word (h.pictures f hf holds)
  · exact Property.plain_writable some_key word (h.placements f hf holds)
  · exact Property.plain_writable some_key word (h.extents f hf some).1
  · exact Property.ofText_writable some_key word (h.tooltip own)

/-- The properties as they are read. -/
def readProperties (n : Node) : List (Text × Text) := n.properties.map fun p => (p.key, p.value)

theorem properties_body (h : n.Writable) :
    Quoted.properties (body n.properties) = .ok n.readProperties :=
  Quoted.properties_join (List.cons_ne_nil _ _) (fun p hp => (properties_writable h p hp).toReads)
    (nodup_properties n)

theorem find?_readProperties {p : Property} (hp : p ∈ n.properties) :
    Keyed.find? p.key n.readProperties = some (p.key, p.value) := by
  have nodup : (Keyed.keys n.readProperties).Nodup := by
    have keys : Keyed.keys n.readProperties = n.properties.map Property.key := by
      simp [Keyed.keys, readProperties, Keyed.key, Function.comp_def]
    rw [keys]
    exact nodup_properties n
  exact (Keyed.find?_eq_some_iff nodup).mpr ⟨List.mem_map_of_mem hp, rfl⟩

theorem integerOr_readProperties (h : n.Writable) {key : Text}
    (extent : ∀ p ∈ n.properties, p.key = key →
      ∃ f ∈ Writing.extents n, f.2.isSome ∧ p = .ofShown f)
    (before : Value) :
    (Reading.integerOr (Reading.property? n.readProperties key) before).isOk := by
  cases found : Reading.property? n.readProperties key with
  | none => rfl
  | some t =>
    obtain ⟨entry, there, rfl⟩ := Option.map_eq_some_iff.mp (Option.filter_eq_some_iff.mp found).1
    obtain ⟨p, hp, rfl⟩ := List.mem_map.mp (Keyed.mem_of_find? there)
    obtain ⟨f, hf, some, rfl⟩ := extent p hp (Keyed.key_of_find? there)
    have ok := (h.extents f hf some).2
    change ((Statement.firstInt? f.2.shown).map Value.ofInt?).isOk = true
    cases first : Statement.firstInt? f.2.shown with
    | ok _ => rfl
    | error _ =>
      rw [first] at ok
      cases ok

theorem extent_of_key {p : Property} (hp : p ∈ n.properties)
    (key : p.key ∈ ["w".toList, "h".toList]) :
    ∃ f ∈ Writing.extents n, f.2.isSome ∧ p = .ofShown f := by
  have others : ∀ k ∈ ["icon".toList, "img", "form", "pos"], k ∉ ["w".toList, "h".toList] := by
    decide
  have pictures : ∀ f ∈ Writing.pictures n, f.1 ∈ ["icon".toList, "img", "form", "pos"] := by
    simp [Writing.pictures]
  have placements : ∀ f ∈ Writing.placements n, f.1 ∈ ["icon".toList, "img", "form", "pos"] := by
    simp [Writing.placements]
  rcases mem_properties hp with rfl | rfl | ⟨f, hf, _, rfl⟩ | ⟨f, hf, _, rfl⟩ |
    ⟨f, hf, some, rfl⟩ | ⟨_, rfl⟩
  · exact absurd key (by simp [Property.plain])
  · exact absurd key (by simp [Property.ofText, Property.quoted])
  · exact absurd key (others _ (pictures f hf))
  · exact absurd key (others _ (placements f hf))
  · exact ⟨f, hf, some, rfl⟩
  · exact absurd key (by simp [Property.ofText, Property.quoted])

theorem withProperties_isOk (h : n.Writable) (m : Node) :
    (Reading.withProperties m n.readProperties).isOk := by
  have width : (Reading.integerOr (Reading.property? n.readProperties "w") m.width).isOk :=
    integerOr_readProperties h (fun p hp key => extent_of_key hp (by simp [key])) m.width
  have height : (Reading.integerOr (Reading.property? n.readProperties "h") m.height).isOk :=
    integerOr_readProperties h (fun p hp key => extent_of_key hp (by simp [key])) m.height
  rw [Reading.withProperties]
  cases hw : Reading.integerOr (Reading.property? n.readProperties "w") m.width with
  | error e =>
    rw [hw] at width
    cases width
  | ok w =>
    cases hh : Reading.integerOr (Reading.property? n.readProperties "h") m.height with
    | error e =>
      rw [hh] at height
      cases height
    | ok k => rfl

theorem withProperties_parent {m m' : Node} {properties : List (Text × Text)}
    (read : Reading.withProperties m properties = .ok m') (parent : Value) :
    Reading.withProperties { m with parent } properties = .ok { m' with parent } := by
  simp only [Reading.withProperties, bind_eq_ok, pure_eq_ok] at read ⊢
  obtain ⟨w, hw, k, hk, rfl⟩ := read
  exact ⟨w, hw, k, hk, rfl⟩

theorem withProperties_rest {m m' : Node} {properties : List (Text × Text)}
    (read : Reading.withProperties m properties = .ok m') : m' = { m with
      icon := m'.icon, image := m'.image, form := m'.form, labelPosition := m'.labelPosition
      tooltip := m'.tooltip, width := m'.width, height := m'.height } := by
  simp only [Reading.withProperties, bind_eq_ok, pure_eq_ok] at read
  obtain ⟨w, _, k, _, rfl⟩ := read
  rfl

/-! ### The declaration of a node -/

/-- The node without its further properties, and outside of all subgraphs. -/
def spoken (n : Node) : Node := { id := n.id, text := n.text, shape := n.shape }

/-- The node as its declaration is read. -/
def heard (n : Node) : Node :=
  if Writing.needsProperties n then
    (Reading.withProperties n.spoken n.readProperties).toOption.getD n.spoken
  else n.spoken

theorem withProperties_spoken (h : n.Writable) (needs : Writing.needsProperties n = true) :
    Reading.withProperties n.spoken n.readProperties = .ok n.heard := by
  have ok := withProperties_isOk h n.spoken
  rw [heard, if_pos needs]
  cases read : Reading.withProperties n.spoken n.readProperties with
  | ok m => rfl
  | error e =>
    rw [read] at ok
    cases ok

theorem heard_rest (n : Node) : n.heard = { n.spoken with
    icon := n.heard.icon, image := n.heard.image, form := n.heard.form
    labelPosition := n.heard.labelPosition, tooltip := n.heard.tooltip
    width := n.heard.width, height := n.heard.height } := by
  unfold heard
  split
  · cases read : Reading.withProperties n.spoken n.readProperties with
    | ok m => exact withProperties_rest read
    | error e => rfl
  · rfl

@[simp] theorem heard_id (n : Node) : n.heard.id = n.id := by rw [heard_rest, spoken]

@[simp] theorem heard_text (n : Node) : n.heard.text = n.text := by rw [heard_rest, spoken]

@[simp] theorem heard_shape (n : Node) : n.heard.shape = n.shape := by rw [heard_rest, spoken]

@[simp] theorem heard_parent (n : Node) : n.heard.parent = .null := by rw [heard_rest, spoken]

@[simp] theorem heard_style (n : Node) : n.heard.style = none := by rw [heard_rest, spoken]

@[simp] theorem heard_link (n : Node) : n.heard.link = .null := by rw [heard_rest, spoken]

@[simp] theorem heard_classes (n : Node) : n.heard.classes = [] := by rw [heard_rest, spoken]

variable {r : Reading} {id : Text}

theorem read_braced (h : n.Writable) (hid : n.id = .text id) (name : NodeId id) (sound : r.Sound)
    (needs : Writing.needsProperties n = true) (fresh : r.diagram.node? n.id = none) :
    ∃ r', r.meetNode (Writing.braced id (n.properties.map Property.text)) = .ok (some id, r') ∧
      r'.view = r.view.enter n.heard := by
  obtain ⟨text, htext, _⟩ := h.text
  have label : (Keyed.find? "label".toList n.readProperties).map (·.2) = some text := by
    have there : Property.ofText ("label", n.text) ∈ n.properties := by simp [properties]
    have found := find?_readProperties there
    rw [htext] at found
    exact congrArg (Option.map (·.2)) found
  have shape : (Reading.property? n.readProperties "shape").map Shape.resolve = some n.shape := by
    have there : Property.plain "shape" n.shape.name ∈ n.properties := by simp [properties]
    have found :
        Keyed.find? "shape".toList n.readProperties = some ("shape".toList, n.shape.name) :=
      find?_readProperties there
    have some_name : (!List.isEmpty n.shape.name) = true := by
      simpa using h.shapeName.some_text
    rw [Reading.property?, found, Option.map_some, Option.filter_some, if_pos some_name,
      Option.map_some, h.shape]
  have met : r.meet id (some text) (some n.shape) = r.enrol n.spoken := by
    rw [Reading.meet_fresh (hid ▸ fresh) text h.shapeName.some_text, spoken, hid, htext]
  have there : (r.enrol n.spoken).diagram.node? (.text id) = some (r.join n.spoken).2 :=
    hid ▸ Reading.node?_enrol n.spoken
  -- what comes with the node is added to it where it has joined
  have further := withProperties_parent (withProperties_spoken h needs) (r.join n.spoken).2.parent
  rw [← Reading.join_rest] at further
  refine ⟨r.enrol n.heard, ?_, Reading.view_enrol sound (by rwa [heard_id]) n.heard_parent⟩
  rw [Reading.meetNode, propertied?_braced name]
  simp only [properties_body h, bind, Except.bind, label, shape, met, there, further]
  rw [Reading.putNode_enrol (n := n.spoken) n.heard_id rfl n.heard_parent]
  rfl

theorem read_bracketed (hid : n.id = .text id) (name : NodeId id) {b : Brackets}
    (hb : b ∈ Shape.brackets) (shape : b.shape = n.shape) {text : Text}
    (htext : n.text = .text text) (fed : OnlyFeeds text) (sound : r.Sound) (fresh : r.diagram.node? n.id = none) :
    ∃ r', r.meetNode (bracketed id b text) = .ok (some id, r') ∧
      r'.view = r.view.enter n.spoken := by
  have some_name : b.shape.name ≠ [] := by
    have names : ∀ b ∈ Shape.brackets, b.shape.name ≠ [] := by decide
    exact names b hb
  refine ⟨_, meetNode_bracketed name hb fed r, ?_⟩
  rw [Reading.meet_fresh (hid ▸ fresh) text some_name, Reading.view_enrol sound (hid ▸ fresh) rfl,
    spoken, hid, htext, shape]

theorem read_bare (hid : n.id = .text id) (name : NodeId id) (text : n.text = n.id)
    (rect : n.shape = .rect) (sound : r.Sound) (fresh : r.diagram.node? n.id = none) :
    ∃ r', r.meetNode id = .ok (some id, r') ∧ r'.view = r.view.enter n.spoken := by
  refine ⟨_, name.meetNode r, ?_⟩
  rw [Reading.meet_fresh_bare (hid ▸ fresh), Reading.view_enrol sound (hid ▸ fresh) rfl, spoken,
    text, hid, rect]
  rfl

/-! ### The forms of a declaration -/

theorem node_braced (hid : n.id = .text id) (needs : Writing.needsProperties n = true)
    {ps : List Property} (properties : Writing.nodeProperties n = .ok (ps.map Property.text)) :
    Writing.node n = .ok (Writing.braced id (ps.map Property.text)) := by
  rw [Writing.node, Writing.declaration, if_pos needs, properties, hid]
  rfl

theorem node_bare (hid : n.id = .text id) (not_needed : ¬ Writing.needsProperties n = true)
    (bare : (n.text = n.id && n.shape = .rect) = true) : Writing.node n = .ok id := by
  rw [Writing.node, Writing.declaration, if_neg not_needed, if_pos bare, hid]
  rfl

theorem node_bracketed {b : Brackets} {text : Text} (hid : n.id = .text id)
    (htext : n.text = .text text) (not_needed : ¬ Writing.needsProperties n = true)
    (not_bare : ¬ (n.text = n.id && n.shape = .rect) = true)
    (found : n.shape.brackets? = some b) : Writing.node n = .ok (bracketed id b text) := by
  have shape : b.shape = n.shape := by simpa using List.find?_some found
  rw [Writing.node, Writing.declaration, if_neg not_needed, if_neg not_bare, found, hid, htext,
    bracketed, shape]
  rfl

/-- A node whose shape has no brackets needs properties. -/
theorem exists_brackets (not_needed : ¬ Writing.needsProperties n = true) :
    ∃ b ∈ Shape.brackets, n.shape.brackets? = some b ∧ b.shape = n.shape := by
  simp only [Writing.needsProperties, Bool.or_eq_true, not_or, Bool.not_eq_true,
    Bool.not_eq_false'] at not_needed
  obtain ⟨b, found⟩ := Option.isSome_iff_exists.mp not_needed.1.1.1.1.1.1.1
  exact ⟨b, List.mem_of_find?_eq_some found, found, by simpa using List.find?_some found⟩

/-- The line declares the node: it is what is written for the node, and read before there are edges
it adds the node, if the node is new. -/
structure DeclaredBy (n : Node) (line : Text) : Prop where
  written : Writing.node n = .ok line
  isLine : Line line
  reads : ∀ {r : Reading}, r.Sound → r.diagram.edges = [] → r.diagram.node? n.id = none →
    ∃ r', r.read (.ofLine line) = .ok r' ∧ r'.view = r.view.enter n.heard

theorem declaredBy_braced (h : n.Writable) (hid : n.id = .text id) (name : NodeId id)
    (needs : Writing.needsProperties n = true) :
    n.DeclaredBy (Writing.braced id (n.properties.map Property.text)) := by
  have whole := whole_braced name.letters fun p there => (properties_writable h p there).level_text
  constructor
  case written => exact node_braced hid needs (nodeProperties_eq h)
  case isLine => exact line_braced name (properties_writable h)
  case reads =>
    intro r sound no_edges fresh
    obtain ⟨r', meets, view⟩ := read_braced h hid name sound needs fresh
    refine ⟨r', ?_, view⟩
    rw [Reading.read_chain (firstWord_braced name) (Or.inl no_edges)]
    exact Reading.readChain_node (single_braced name (properties_writable h)) whole.ofLine meets

theorem declaredBy_bare (hid : n.id = .text id) (name : NodeId id)
    (not_needed : ¬ Writing.needsProperties n = true) (text : n.text = n.id)
    (rect : n.shape = .rect) : n.DeclaredBy id := by
  have bare : (n.text = n.id && n.shape = .rect) = true := by simp [text, rect]
  constructor
  case written => exact node_bare hid not_needed bare
  case isLine => exact name.line
  case reads =>
    intro r sound no_edges fresh
    obtain ⟨r', meets, view⟩ := read_bare hid name text rect sound fresh
    refine ⟨r', ?_, ?_⟩
    · rw [Reading.read_chain (by rw [name.firstWord]; exact name.free) (Or.inl no_edges)]
      exact Reading.readChain_node name.single name.letters.whole.ofLine meets
    · rw [view, heard, if_neg not_needed]

theorem declaredBy_bracketed (h : n.Writable) (hid : n.id = .text id) (name : NodeId id)
    (not_needed : ¬ Writing.needsProperties n = true)
    (not_bare : ¬ (n.text = n.id && n.shape = .rect) = true) : ∃ line, n.DeclaredBy line := by
  obtain ⟨text, htext, fed⟩ := h.text
  obtain ⟨b, hb, found, shape⟩ := exists_brackets not_needed
  have whole : Chain.Whole (bracketed id b text) := whole_bracketed name.letters hb
  refine ⟨bracketed id b text, ?written, line_bracketed name hb fed, ?reads⟩
  case written => exact node_bracketed hid htext not_needed not_bare found
  case reads =>
    intro r sound no_edges fresh
    obtain ⟨r', meets, view⟩ := read_bracketed hid name hb shape htext fed sound fresh
    refine ⟨r', ?_, ?_⟩
    · rw [Reading.read_chain (firstWord_bracketed name hb) (Or.inl no_edges)]
      exact Reading.readChain_node (single_bracketed name hb) whole.ofLine meets
    · rw [view, heard, if_neg not_needed]

/-- A node that can be declared has a declaration, which is one line. -/
theorem exists_declaredBy (h : n.Writable) : ∃ line, n.DeclaredBy line := by
  obtain ⟨id, hid, name⟩ := h.id
  by_cases needs : Writing.needsProperties n = true
  · exact ⟨_, declaredBy_braced h hid name needs⟩
  · by_cases bare : (n.text = n.id && n.shape = .rect) = true
    · simp only [Bool.and_eq_true, decide_eq_true_eq] at bare
      exact ⟨id, declaredBy_bare hid name needs bare.1 bare.2⟩
    · exact declaredBy_bracketed h hid name needs bare

end Node
end Flowchart
