import Flowchart.Proofs.ReadingIntegrity

/-! What reading stops at. Lines that make no sense are passed over; the one thing that reading
refuses is a number that is none: digits that are no decimal numeral or too many, and the code of
no character. -/
namespace Flowchart

/-- Something that is written like a number and is none. -/
def Error.IsNumeral : Error → Prop
  | .badNumeral | .noCharacter _ | .hugeCode _ => True
  | _ => False

/-- Nothing but a numeral makes it fail. -/
def OnlyNumerals {α : Type} (r : Except Error α) : Prop := ∀ e, r = .error e → e.IsNumeral

section
variable {α β : Type}

@[simp] theorem onlyNumerals_ok (a : α) : OnlyNumerals (.ok a : Except Error α) := by
  intro e failed
  cases failed

@[simp] theorem onlyNumerals_pure (a : α) : OnlyNumerals (pure a : Except Error α) :=
  onlyNumerals_ok a

theorem OnlyNumerals.bind {r : Except Error α} {f : α → Except Error β} (h : OnlyNumerals r)
    (hf : ∀ a, OnlyNumerals (f a)) : OnlyNumerals (r >>= f) := by
  cases r with
  | ok a => exact hf a
  | error e => exact fun _ failed => h _ (congrArg _ (Except.error.inj failed))

theorem OnlyNumerals.map {r : Except Error α} (h : OnlyNumerals r) (f : α → β) :
    OnlyNumerals (r.map f) := by
  cases r with
  | ok a => exact onlyNumerals_ok _
  | error e => exact fun _ failed => h _ (congrArg _ (Except.error.inj failed))

theorem onlyNumerals_foldlM {f : β → α → Except Error β} (h : ∀ b a, OnlyNumerals (f b a)) (b : β)
    (xs : List α) : OnlyNumerals (xs.foldlM f b) := by
  induction xs generalizing b with
  | nil => exact onlyNumerals_pure b
  | cons x xs ih =>
    rw [List.foldlM_cons]
    exact (h b x).bind ih

theorem onlyNumerals_mapM {f : α → Except Error β} (h : ∀ a, OnlyNumerals (f a)) (xs : List α) :
    OnlyNumerals (xs.mapM f) := by
  induction xs with
  | nil => exact onlyNumerals_pure []
  | cons x xs ih =>
    rw [List.mapM_cons]
    exact (h x).bind fun y => ih.bind fun ys => onlyNumerals_pure _

end

/-! ### Codes and quotes -/

theorem Entity.meaning_onlyNumerals (code : Text) : OnlyNumerals (meaning code) := by
  unfold meaning
  split
  · split
    · intro e failed
      cases failed
      trivial
    · refine OnlyNumerals.map ?_ _
      intro e failed
      unfold ofCode at failed
      split at failed
      · cases failed
        trivial
      · split at failed
        · cases failed
          trivial
        · cases failed
  · split <;> exact onlyNumerals_ok _

theorem Entity.decodeFrom_onlyNumerals (s : Text) :
    ∀ code : Option Text, OnlyNumerals (decodeFrom code s) := by
  induction s with
  | nil =>
    intro code
    cases code <;> exact onlyNumerals_ok _
  | cons c s ih =>
    intro code
    cases code with
    | none =>
      rw [decodeFrom]
      split
      · exact ih _
      · exact (ih none).map _
    | some code =>
      rw [decodeFrom]
      split
      · exact ih _
      · split
        · exact (meaning_onlyNumerals code).bind fun found => (ih none).map _
        · split
          · exact (ih _).map _
          · exact (ih none).map _

theorem Entity.decode_onlyNumerals (s : Text) : OnlyNumerals (decode s) :=
  decodeFrom_onlyNumerals s none

theorem Quoted.unquote_onlyNumerals (s : Text) : OnlyNumerals (unquote s) :=
  Entity.decode_onlyNumerals _

theorem Quoted.properties_onlyNumerals (body : Text) : OnlyNumerals (properties body) := by
  refine onlyNumerals_foldlM (fun found piece => ?_) _ _
  unfold properties.property
  split
  · exact onlyNumerals_ok _
  · split
    · exact onlyNumerals_ok _
    · exact (unquote_onlyNumerals _).bind fun _ => onlyNumerals_pure _

/-! ### Statements -/

namespace Statement

theorem firstInt?_onlyNumerals (s : Text) : OnlyNumerals (firstInt? s) := by
  unfold firstInt?
  split
  · exact onlyNumerals_ok _
  · split
    · intro e failed
      cases failed
      trivial
    · exact onlyNumerals_ok _

theorem subgraphHeader_onlyNumerals (header : Text) (before : Nat) :
    OnlyNumerals (subgraphHeader header before) := by
  unfold subgraphHeader
  dsimp only
  split
  · exact onlyNumerals_pure _
  · split
    · split
      · exact (Entity.decode_onlyNumerals _).bind fun _ =>
          (Quoted.unquote_onlyNumerals _).bind fun _ => onlyNumerals_pure _
      · exact (onlyNumerals_ok _).bind fun _ => (Quoted.unquote_onlyNumerals _).bind fun _ =>
          onlyNumerals_pure _
    · split
      · exact (Quoted.unquote_onlyNumerals _).bind fun _ => onlyNumerals_pure _
      · exact onlyNumerals_pure _

end Statement

namespace Reading
variable (r : Reading)

theorem integerOr_onlyNumerals (t : Option Text) (before : Value) :
    OnlyNumerals (integerOr t before) := by
  cases t with
  | none => exact onlyNumerals_ok before
  | some t => exact (Statement.firstInt?_onlyNumerals t).map _

theorem withProperties_onlyNumerals (n : Node) (properties : List (Text × Text)) :
    OnlyNumerals (withProperties n properties) :=
  (integerOr_onlyNumerals _ _).bind fun _ => (integerOr_onlyNumerals _ _).bind fun _ =>
    onlyNumerals_pure _

theorem meetNode_onlyNumerals (s : Text) : OnlyNumerals (r.meetNode s) := by
  unfold meetNode
  split
  · refine (Quoted.properties_onlyNumerals _).bind fun properties => ?_
    dsimp only
    split
    · exact (withProperties_onlyNumerals _ _).bind fun _ => onlyNumerals_pure _
    · exact onlyNumerals_pure _
  · split
    · exact (Quoted.unquote_onlyNumerals _).bind fun _ => onlyNumerals_pure _
    · split <;> exact onlyNumerals_ok _

theorem meetPiece_onlyNumerals (piece : Text) : OnlyNumerals (r.meetPiece piece) := by
  refine (meetNode_onlyNumerals r _).bind fun met => ?_
  obtain ⟨id, r⟩ := met
  dsimp only
  split <;> exact onlyNumerals_pure _

theorem meetPieces_onlyNumerals (pieces : List Text) : OnlyNumerals (r.meetPieces pieces) := by
  induction pieces generalizing r with
  | nil => exact onlyNumerals_ok _
  | cons piece pieces ih =>
    exact (meetPiece_onlyNumerals r piece).bind fun met => (ih met.2).bind fun _ =>
      onlyNumerals_pure _

theorem meetTexts_onlyNumerals (line : Text) (texts : List Text) :
    OnlyNumerals (r.meetTexts line texts) := by
  induction texts generalizing r with
  | nil => exact onlyNumerals_ok _
  | cons text texts ih =>
    refine (meetPieces_onlyNumerals r _).bind fun met => ?_
    obtain ⟨ids, r⟩ := met
    dsimp only
    split
    · exact onlyNumerals_pure _
    · exact (ih r).bind fun _ => onlyNumerals_pure _

theorem draw_onlyNumerals (link : Link) (op : Operator) (source target : Text) :
    OnlyNumerals (r.draw link op source target) := by
  have label : OnlyNumerals (linkLabel link op) := by
    unfold linkLabel
    split
    · exact onlyNumerals_ok _
    · exact (Quoted.unquote_onlyNumerals _).bind fun _ => onlyNumerals_pure _
  exact label.bind fun _ => onlyNumerals_pure _

theorem drawLinks_onlyNumerals (links : List Link) (groups : List (List Text)) :
    OnlyNumerals (r.drawLinks links groups) := by
  induction links generalizing r groups with
  | nil =>
    rw [drawLinks]
    · exact onlyNumerals_ok r
    · intro _ _ _ _ _ e
      cases e
  | cons link links ih =>
    obtain _ | ⟨sources, _ | ⟨targets, groups⟩⟩ := groups
    · exact onlyNumerals_ok r
    · exact onlyNumerals_ok r
    · simp only [drawLinks]
      split
      · exact ih _ _
      · refine OnlyNumerals.bind ?_ fun r => ih r _
        refine onlyNumerals_foldlM (fun r p => ?_) _ _
        obtain ⟨s, t⟩ := p
        exact draw_onlyNumerals r link _ s t

theorem readChain_onlyNumerals (line : Text) : OnlyNumerals (r.readChain line) := by
  refine (meetTexts_onlyNumerals r _ _).bind fun met => ?_
  split
  · exact onlyNumerals_pure _
  · exact drawLinks_onlyNumerals _ _ _

theorem withEdgeProperties_onlyNumerals (e : Edge) (body : Text) :
    OnlyNumerals (withEdgeProperties e body) := by
  unfold withEdgeProperties
  refine (Quoted.properties_onlyNumerals body).bind fun properties => ?_
  exact onlyNumerals_pure _

theorem placesOf_onlyNumerals (list : Text) : OnlyNumerals (placesOf list) := by
  refine onlyNumerals_mapM (fun place => ?_) _
  split
  · exact onlyNumerals_ok _
  · intro e failed
    cases failed
    trivial

theorem styleLinks_onlyNumerals (places : Option Text) (declared : List (Text × Text)) :
    OnlyNumerals (r.styleLinks places declared) := by
  unfold styleLinks
  have styled (e : Edge) : OnlyNumerals (withEdgeStyle declared e) :=
    (integerOr_onlyNumerals _ _).bind fun _ => onlyNumerals_pure _
  dsimp only
  -- the places are all or listed, and what is done at them is the same
  split
  case' h_1 => refine (onlyNumerals_ok _).bind fun targets => ?_
  case' h_2 list => refine (placesOf_onlyNumerals list).bind fun targets => ?_
  all_goals
    refine OnlyNumerals.bind (onlyNumerals_foldlM (fun es i => ?_) _ targets) fun _ =>
      onlyNumerals_pure _
    split
    · exact (styled _).bind fun _ => onlyNumerals_pure _
    · exact onlyNumerals_ok _

theorem read_onlyNumerals (s : Statement) : OnlyNumerals (r.read s) := by
  cases s with
  | close => exact onlyNumerals_ok _
  | subgraph header =>
    exact (Statement.subgraphHeader_onlyNumerals header _).bind fun _ => onlyNumerals_pure _
  | direction word => exact onlyNumerals_ok _
  | define names styles => exact onlyNumerals_ok _
  | assign ids classes => exact onlyNumerals_ok _
  | style id declarations =>
    rw [read]
    split
    · exact onlyNumerals_ok _
    · exact ((integerOr_onlyNumerals _ _).bind fun _ => onlyNumerals_pure _).map _
  | linkStyle places declarations => exact styleLinks_onlyNumerals r _ _
  | click id url tooltip target =>
    rw [read]
    split
    · exact onlyNumerals_ok _
    · cases tooltip with
      | none => exact onlyNumerals_pure _
      | some t =>
        exact ((Entity.decode_onlyNumerals t).map _).bind fun _ => onlyNumerals_pure _
  | properties id body line =>
    rw [read]
    split
    · exact (withEdgeProperties_onlyNumerals _ body).map _
    · exact readChain_onlyNumerals r line
  | chain line => exact readChain_onlyNumerals r line

theorem ofSource_onlyNumerals (s : Text) : OnlyNumerals (ofSource s) := by
  refine OnlyNumerals.bind ?_ fun _ => onlyNumerals_pure _
  exact onlyNumerals_foldlM (fun r l => read_onlyNumerals r _) _ _

end Reading

/-- The code of a character beyond the last one. -/
def codeText : Text := "flowchart TB\n    A[\"#1114112;\"]"

end Flowchart
