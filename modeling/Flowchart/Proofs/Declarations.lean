import Flowchart.Proofs.Bodies
import Flowchart.Proofs.Lines
import Flowchart.Proofs.Statements
import Flowchart.Proofs.Views

/-! Declarations of nodes. A node is declared by its id, with the brackets of its shape, or with
properties in braces; each declaration is one line, and the line is read as the node. -/
namespace Flowchart
open Text

/-- An id that can be written wherever the id of a node can stand. -/
structure NodeId (id : Text) : Prop extends Chain.Name id where
  comment : ¬ Source.commentMark <:+: id
  unclassed : Reading.classSuffix? id = none
  open_end : id.getLast? ≠ some ';'
  free : id ∉ Statement.keywords

namespace NodeId
variable {id : Text}

theorem isBlank (h : NodeId id) : ∀ c ∈ id, isBlank c = false :=
  fun c hc => Chain.isBlank_of_isIdChar (h.chars c hc)

theorem inline (h : NodeId id) : Inline id :=
  ⟨fun c hc => isLineBreak_of_not_isBlank (h.isBlank c hc), h.comment⟩

theorem line (h : NodeId id) : Line id :=
  ⟨h.inline, h.letters.tight, h.some_text, h.open_end⟩

theorem single (h : NodeId id) : Reading.Single id :=
  ⟨h.letters.tight, h.letters.whole.group h.some_text, h.unclassed⟩

theorem firstWord (h : NodeId id) : Statement.firstWord id = id := by
  have := Statement.firstWord_append h.isBlank (stops_nil fun c => !Flowchart.isBlank c)
  rwa [List.append_nil] at this

theorem isBareId (h : NodeId id) : isBareId id = true := by
  have no_feed : before? ['\n'] id = none := by
    rw [Option.eq_none_iff_forall_ne_some]
    intro t e
    rw [before?_eq_some_iff] at e
    have blank := h.isBlank '\n' (by simp [e])
    exact absurd blank (by decide)
  have not_empty : id.isEmpty = false := by simpa using h.some_text
  have bare : id.all isBareChar = true := by
    rw [List.all_eq_true]
    intro c hc
    have := h.chars c hc
    simp only [isIdChar, Bool.and_eq_true] at this
    exact this.1
  rw [Flowchart.isBareId, no_feed]
  simp [not_empty, bare]

theorem isPropertiedChar (h : NodeId id) : ∀ c ∈ id, Reading.isPropertiedChar c = true := by
  intro c hc
  have marks : ∀ d ∈ ("@[]()\x7b\x7d" : String).toList, isIdChar d = false := by decide
  have other : c ∉ ("@[]()\x7b\x7d" : String).toList := fun here =>
    h.letters.not_mem (marks c here) hc
  simp only [Reading.isPropertiedChar, h.isBlank c hc, other, Bool.not_false, decide_true,
    Bool.true_and, not_false_eq_true]

theorem propertied?_append (h : NodeId id) {rest : Text}
    (stops : Stops Reading.isPropertiedChar rest) : Reading.propertied? (id ++ rest) =
      (Statement.braced? rest).map fun body => (id, body) := by
  have not_empty : id.isEmpty = false := by simpa using h.some_text
  rw [Reading.propertied?]
  simp only [takeWhile_stop h.isPropertiedChar stops, dropWhile_stop h.isPropertiedChar stops,
    not_empty, Bool.false_eq_true, if_false]
  cases Statement.braced? rest <;> rfl

theorem propertied? (h : NodeId id) : Reading.propertied? id = none := by
  have none_after := h.propertied?_append (stops_nil _)
  rwa [List.append_nil] at none_after

theorem readBracketed? (h : NodeId id) : readBracketed? id = none := by
  have taken := takeWhile_stop h.chars (stops_nil isIdChar)
  have dropped := dropWhile_stop h.chars (stops_nil isIdChar)
  rw [List.append_nil] at taken dropped
  have not_empty : id.isEmpty = false := by simpa using h.some_text
  rw [Flowchart.readBracketed?]
  simp only [taken, dropped, not_empty, Bool.false_eq_true, if_false]
  rw [List.findSome?_eq_none_iff]
  intro b hb
  obtain ⟨c, t, first⟩ := List.exists_cons_of_ne_nil (Brackets.opening_ne_nil b hb)
  rw [first, after?_cons_nil]
  rfl

theorem meetNode (h : NodeId id) (r : Reading) :
    r.meetNode id = .ok (some id, r.meet id none none) := by
  rw [Reading.meetNode, h.propertied?, h.readBracketed?]
  simp only [h.isBareId, if_true]

/-- A line that goes on with a blank after the id of a node is a chain. -/
theorem read_append (h : NodeId id) (r : Reading) (s : Text) :
    r.read (.ofLine (id ++ ' ' :: s)) = r.readChain (id ++ ' ' :: s) := by
  have first : Statement.firstWord (id ++ ' ' :: s) ∉ Statement.keywords := by
    rw [Statement.firstWord_append h.isBlank (stops_cons.mpr (by decide))]
    exact h.free
  refine Reading.read_chain first (Or.inr (Statement.properties?_of_no_sign fun r sign => ?_))
  have blank := Link.dropWhile_word h.letters.plain.sign (stops_cons.mpr (by decide)) sign
  cases blank

end NodeId

/-! ### Text that ends with no class -/

theorem Text.mem_pieces {sep c : Char} {s : Text} (h : c ∈ s) :
    c = sep ∨ ∃ p ∈ pieces sep s, c ∈ p := by
  induction s with
  | nil => cases h
  | cons d s ih =>
    obtain ⟨q, qs, hq⟩ := List.exists_cons_of_ne_nil (pieces_ne_nil sep s)
    by_cases same : d = sep
    · rw [pieces, if_pos same]
      rcases List.mem_cons.mp h with rfl | here
      · exact Or.inl same
      · rcases ih here with sep | ⟨p, hp, hc⟩
        · exact Or.inl sep
        · exact Or.inr ⟨p, List.mem_cons_of_mem _ hp, hc⟩
    · rw [pieces, if_neg same, hq]
      rcases List.mem_cons.mp h with rfl | here
      · exact Or.inr ⟨c :: q, List.mem_cons_self, List.mem_cons_self⟩
      · rcases ih here with sep | ⟨p, hp, hc⟩
        · exact Or.inl sep
        · rw [hq] at hp
          rcases List.mem_cons.mp hp with rfl | hp
          · exact Or.inr ⟨d :: p, List.mem_cons_self, List.mem_cons_of_mem d hc⟩
          · exact Or.inr ⟨p, List.mem_cons_of_mem _ hp, hc⟩

theorem Reading.classSuffix?_of_last {s : Text} {c : Char} (word : isWordOrHyphen c = false)
    (mark : c ∉ [':', ',']) : classSuffix? (s ++ [c]) = none := by
  have other : (c != ':') = true := by
    rw [bne_iff_ne]
    rintro rfl
    exact mark (by decide)
  have here : c ∈ ((s ++ [c]).reverse.takeWhile (· != ':')).reverse := by
    rw [List.reverse_append, List.reverse_singleton, List.singleton_append,
      List.takeWhile_cons_of_pos (p := fun d => d != ':') other]
    simp
  have no_list : classList? ((s ++ [c]).reverse.takeWhile (· != ':')).reverse = none := by
    rw [classList?]
    refine if_neg fun all => ?_
    rw [List.all_eq_true] at all
    rcases (Text.mem_pieces here : c = ',' ∨ ∃ p ∈ pieces ',' _, c ∈ p) with rfl | ⟨p, hp, hc⟩
    · exact mark (by decide)
    · have chars := all p hp
      simp only [Bool.and_eq_true, List.all_eq_true] at chars
      rw [chars.2 c hc] at word
      cases word
  unfold classSuffix?
  simp only [no_list, Option.bind_eq_bind, Option.bind_none]
  cases before? ":::".toList _ <;> rfl

/-! ### Brackets -/

namespace Brackets

theorem of_isMark {P : Char → Prop} (h : ∀ c ∈ ("[]()\x7b\x7d>|\\/" : String).toList, P c) {c : Char}
    (mark : isMark c = true) : P c :=
  h c (by simpa only [isMark, decide_eq_true_eq] using mark)

theorem plain_marks {s : Text} (h : ∀ c ∈ s, isMark c = true) : Chain.Plain s := by
  have other {d : Char} (no_mark : isMark d = false) : d ∉ s := fun here => by
    rw [h d here] at no_mark
    cases no_mark
  refine ⟨other (by decide), other (by decide), other (by decide), other (by decide), ?_⟩
  exact Link.calm_of_no_stroke fun c hc =>
    of_isMark (P := (Link.isStroke · = false)) (by decide) (h c hc)

theorem inline_marks {s : Text} (h : ∀ c ∈ s, isMark c = true) : Inline s :=
  .of_chars fun c hc =>
    of_isMark (P := fun c => isLineBreak c = false ∧ c ≠ '%') (by decide) (h c hc)

theorem no_angle_closing : ∀ b ∈ Shape.brackets, '>' ∉ b.closing := by decide

theorem level_closing : ∀ b ∈ Shape.brackets,
    (b.opening ++ b.closing).foldl Chain.depthAfter 0 = 0 := by decide

theorem depth_closing {b : Brackets} (hb : b ∈ Shape.brackets) (last : Option Char) :
    b.closing.foldl Chain.depthAfter (Chain.depthOver last 0 b.opening) = 0 := by
  have angle : ∀ b ∈ Shape.brackets, '>' ∈ b.opening → b.opening = ['>'] ∧ b.closing = [']'] := by
    decide
  by_cases opens : '>' ∈ b.opening
  · obtain ⟨opening, closing⟩ := angle b hb opens
    rw [opening, closing]
    simp only [Chain.depthOver, Chain.depthNext]
    split <;> rfl
  · rw [Chain.depthOver_eq opens, ← List.foldl_append]
    exact level_closing b hb

theorem stops_marks {s : Text} (h : ∀ c ∈ s, isMark c = true) {p : Char → Bool}
    (other : ∀ c ∈ ("[]()\x7b\x7d>|\\/" : String).toList, p c = false) : Stops p s :=
  fun c first => of_isMark (P := (p · = false)) other (h c (List.mem_of_mem_head? first))

end Brackets

namespace Chain

theorem Plain.append {s t : Text} (hs : Plain s) (ht : Plain t)
    (apart : Stops Link.isStroke t ∨ Stops Link.isStroke s.reverse) : Plain (s ++ t) where
  quote := fun here => (List.mem_append.mp here).elim hs.quote ht.quote
  amp := fun here => (List.mem_append.mp here).elim hs.amp ht.amp
  arrow := fun here => (List.mem_append.mp here).elim hs.arrow ht.arrow
  sign := fun here => (List.mem_append.mp here).elim hs.sign ht.sign
  calm := Link.calm_append hs.calm ht.calm apart

theorem level_bare {delimiters : List Text} {s : Text} (h : Quoted.Bare delimiters s) :
    ∀ c ∈ s, isLevel c = true := by
  intro c hc
  have special : ∀ d ∈ ("[]()\x7b\x7d" : String).toList, Quoted.isSpecial d = true := by decide
  simp only [isLevel, decide_not, Bool.not_eq_true', decide_eq_false_iff_not]
  exact fun mark => h.not_mem (special c mark) hc

theorem plain_bare {delimiters : List Text} {s : Text} (h : Quoted.Bare delimiters s) :
    Plain s where
  quote := h.not_mem (by decide)
  amp := h.not_mem (by decide)
  arrow := h.not_mem (by decide)
  sign := h.not_mem (by decide)
  calm := by
    have special : ∀ run ∈ Link.strokeRuns, run ∈ Quoted.specialRuns := by decide
    exact fun run hr => h.calm run (special run hr)

end Chain

section
variable {id text : Text} {b : Brackets}

/-- A node with the brackets of its shape. -/
def bracketed (id : Text) (b : Brackets) (text : Text) : Text :=
  id ++ b.opening ++ writeBracketed b.shape text ++ b.closing

theorem bracketed_eq (hb : b ∈ Shape.brackets) (text : Text) :
    bracketed id b text =
      id ++ b.opening ++ Quoted.quote [b.opening, b.closing] text ++ b.closing := by
  rw [bracketed, writeBracketed_eq hb]

theorem tight_bracketed (h : Chain.Letters id) (hb : b ∈ Shape.brackets) :
    Tight (bracketed id b text) := by
  have opening := Brackets.isMark_opening b hb
  have closing := Brackets.isMark_closing b hb
  rw [bracketed, List.append_assoc, List.append_assoc]
  constructor
  · apply stops_append h.tight.start
    intro _
    apply stops_append (p := isBlank) (Brackets.stops_marks opening (by decide))
    intro e
    exact absurd e (Brackets.opening_ne_nil b hb)
  · rw [List.reverse_append, List.reverse_append, List.reverse_append, List.append_assoc,
      List.append_assoc]
    apply stops_append (p := isBlank)
    · exact Brackets.stops_marks (fun c hc => closing c (List.mem_reverse.mp hc)) (by decide)
    · intro e
      exact absurd (List.reverse_eq_nil_iff.mp e) (Brackets.closing_ne_nil b hb)

theorem plain_opening (h : Chain.Letters id) (hb : b ∈ Shape.brackets) :
    Chain.Plain (id ++ b.opening) :=
  h.plain.append (Brackets.plain_marks (Brackets.isMark_opening b hb))
    (Or.inl (Brackets.stops_marks (Brackets.isMark_opening b hb) (by decide)))

theorem stops_opening (hb : b ∈ Shape.brackets) {p : Char → Bool}
    (other : ∀ c ∈ ("[]()\x7b\x7d>|\\/" : String).toList, p c = false) :
    Stops p (id ++ b.opening).reverse := by
  rw [List.reverse_append]
  refine stops_append ?_ fun e =>
    absurd (List.reverse_eq_nil_iff.mp e) (Brackets.opening_ne_nil b hb)
  exact Brackets.stops_marks
    (fun c hc => Brackets.isMark_opening b hb c (List.mem_reverse.mp hc)) other

theorem level_opening (h : Chain.Letters id) :
    (id ++ b.opening).foldl Chain.depthAfter 0 = b.opening.foldl Chain.depthAfter 0 := by
  rw [List.foldl_append, Chain.foldl_level h.level]

theorem depth_opening (h : Chain.Letters id) (last : Option Char) :
    Chain.depthOver last 0 (id ++ b.opening) =
      Chain.depthOver (id.getLast?.or last) 0 b.opening := by
  rw [Chain.depthOver_append, h.depthOver]

theorem passes_quoted (h : Chain.Letters id) (hb : b ∈ Shape.brackets) {rest e : Text}
    (fence : Chain.Fenced rest) (inner : '"' ∉ e) (last : Option Char) :
    Chain.Passes rest 0 0 last 0 0 (id ++ b.opening ++ '"' :: (e ++ '"' :: b.closing)) := by
  have opening := plain_opening h hb
  have closing := Brackets.plain_marks (Brackets.isMark_closing b hb)
  have quote : Chain.Fenced ('"' :: (e ++ '"' :: b.closing) ++ rest) :=
    Chain.fenced_cons (by decide) (by decide) (by decide) _
  have before := opening.passes quote last 0 0
  have after := closing.passes fence (some '"') (Chain.depthOver last 0 (id ++ b.opening))
    ((id ++ b.opening).foldl Chain.depthAfter 0)
  rw [Chain.depthOver_eq (Brackets.no_angle_closing b hb), depth_opening h,
    Brackets.depth_closing hb, level_opening h, ← List.foldl_append,
    Brackets.level_closing b hb] at after
  rw [depth_opening h, level_opening h] at before
  exact before.append (.quoted inner after)

theorem passes_bare (h : Chain.Letters id) (hb : b ∈ Shape.brackets) {rest : Text}
    {delimiters : List Text} (fence : Chain.Fenced rest) (bare : Quoted.Bare delimiters text)
    (last : Option Char) :
    Chain.Passes rest 0 0 last 0 0 (id ++ b.opening ++ text ++ b.closing) := by
  have closing := Brackets.isMark_closing b hb
  have inner := (plain_opening h hb).append (Chain.plain_bare bare)
    (Or.inr (stops_opening hb (by decide)))
  have body := inner.append (Brackets.plain_marks closing)
    (Or.inl (Brackets.stops_marks closing (by decide)))
  have level := Chain.level_bare bare
  have passed := body.passes fence last 0 0
  -- neither the depth nor the level changes over the text
  rw [List.foldl_append, List.foldl_append, level_opening h, Chain.foldl_level level,
    ← List.foldl_append, Brackets.level_closing b hb, Chain.depthOver_append,
    Chain.depthOver_append, depth_opening h, Chain.depthOver_eq (bare.not_mem (by decide)),
    Chain.foldl_level level, Chain.depthOver_eq (Brackets.no_angle_closing b hb),
    Brackets.depth_closing hb] at passed
  exact passed

/-- The brackets of a shape are closed where they end, also those that the text before makes an
angle bracket open. -/
theorem passes_bracketed (h : Chain.Letters id) (hb : b ∈ Shape.brackets) {rest : Text}
    (fence : Chain.Fenced rest) (last : Option Char) :
    Chain.Passes rest 0 0 last 0 0 (bracketed id b text) := by
  rw [bracketed_eq hb]
  rcases Quoted.quote_cases [b.opening, b.closing] text with form | form | ⟨form, bare, _⟩
  · rw [form]
    have passed := passes_quoted h hb fence (Quoted.not_mem_escape (by decide) text) last
    simpa [Quoted.inQuotes] using passed
  · rw [form]
    have inner : '"' ∉ '\x60' :: Quoted.escape text ++ ['\x60'] := by
      simp [Quoted.not_mem_escape (d := '"') (by decide) text]
    have passed := passes_quoted h hb fence inner last
    simpa [Quoted.asMarkdown] using passed
  · rw [form]
    exact passes_bare h hb fence bare last

theorem whole_bracketed (h : Chain.Letters id) (hb : b ∈ Shape.brackets) :
    Chain.Whole (bracketed id b text) where
  tight := tight_bracketed h hb
  no_pipe := by
    have other : ∀ b ∈ Shape.brackets, b.opening.head? ≠ some '|' := by decide
    rw [bracketed, List.append_assoc, List.append_assoc]
    cases id with
    | nil =>
      rw [List.nil_append, List.head?_append_of_ne_nil _ (Brackets.opening_ne_nil b hb)]
      exact other b hb
    | cons c id =>
      intro first
      obtain rfl : c = '|' := Option.some.inj first
      exact h.not_mem (by decide) List.mem_cons_self
  passes _ last fence := passes_bracketed h hb fence last

theorem inline_bracketed (h : Inline id) (hb : b ∈ Shape.brackets) (ht : OnlyFeeds text) :
    Inline (bracketed id b text) := by
  have opening := Brackets.isMark_opening b hb
  have closing := Brackets.isMark_closing b hb
  have start := h.append (Brackets.inline_marks opening)
    (Or.inl (Brackets.stops_marks opening (by decide)))
  have middle := start.append (Quoted.inline_quote [b.opening, b.closing] ht)
    (Or.inr (stops_opening hb (by decide)))
  rw [bracketed_eq hb]
  exact middle.append (Brackets.inline_marks closing)
    (Or.inl (Brackets.stops_marks closing (by decide)))

theorem getLast?_bracketed (id text : Text) (hb : b ∈ Shape.brackets) :
    ∃ s c, bracketed id b text = s ++ [c] ∧ b.closing.getLast? = some c ∧
      Brackets.isMark c = true := by
  obtain ⟨t, c, last⟩ :=
    List.eq_nil_or_concat b.closing |>.resolve_left (Brackets.closing_ne_nil b hb)
  refine ⟨id ++ b.opening ++ writeBracketed b.shape text ++ t, c, ?_, ?_, ?_⟩
  · rw [bracketed, last]
    simp
  · simp [last]
  · exact Brackets.isMark_closing b hb c (by simp [last])

theorem single_bracketed (h : NodeId id) (hb : b ∈ Shape.brackets) :
    Reading.Single (bracketed id b text) := by
  have some_text : bracketed id b text ≠ [] := by
    obtain ⟨s, c, last, _⟩ := getLast?_bracketed id text hb
    rw [last]
    simp
  have whole : Chain.Whole (bracketed id b text) := whole_bracketed h.letters hb
  refine ⟨whole.tight, whole.group some_text, ?_⟩
  obtain ⟨s, c, last, _, mark⟩ := getLast?_bracketed id text hb
  rw [last]
  refine Reading.classSuffix?_of_last ?_ ?_
  · exact Brackets.of_isMark (P := (isWordOrHyphen · = false)) (by decide +kernel) mark
  · exact Brackets.of_isMark (P := (· ∉ [':', ','])) (by decide) mark

theorem line_bracketed (h : NodeId id) (hb : b ∈ Shape.brackets) (ht : OnlyFeeds text) :
    Line (bracketed id b text) := by
  obtain ⟨s, c, last, _, mark⟩ := getLast?_bracketed id text hb
  refine ⟨inline_bracketed h.inline hb ht, tight_bracketed h.letters hb, ?_, ?_⟩
  · rw [last]
    simp
  · rw [last, List.getLast?_concat]
    exact Brackets.of_isMark (P := fun c => some c ≠ some ';') (by decide) mark

theorem firstWord_bracketed (h : NodeId id) (hb : b ∈ Shape.brackets) :
    Statement.firstWord (bracketed id b text) ∉ Statement.keywords := by
  obtain ⟨c, t, first⟩ := List.exists_cons_of_ne_nil (Brackets.opening_ne_nil b hb)
  have mark := Brackets.isMark_opening b hb c (by simp [first])
  have whole :
      bracketed id b text = id ++ c :: (t ++ writeBracketed b.shape text ++ b.closing) := by
    rw [bracketed, first]
    simp
  rw [whole]
  refine Statement.firstWord_of_mark h.isBlank ?_ ?_
  · exact Brackets.of_isMark (P := (isBlank · = false)) (by decide) mark
  · exact Brackets.of_isMark (P := fun c => ∀ k ∈ Statement.keywords, c ∉ k) (by decide) mark

theorem Statement.braced?_of_last {s : Text} {c : Char} (last : s.getLast? = some c)
    (brace : c ≠ '\x7d') (feed : c ≠ '\n') : Statement.braced? s = none := by
  cases opened : after? ['@', '\x7b'] s with
  | none => rw [Statement.braced?, opened]; rfl
  | some r =>
    obtain rfl := after?_eq_some_iff.mp opened
    have same : ∀ d, r.getLast? = some d → d = c := by
      intro d hd
      rw [List.getLast?_append, hd] at last
      exact Option.some.inj last
    have none_here : beforeFinal? ['\x7d'] r = none := by
      refine beforeFinal?_eq_none ?_ fun final => feed (same '\n' final).symm
      rintro ⟨t, rfl⟩
      exact brace (same '\x7d' (by simp)).symm
    rw [Statement.braced?, opened]
    exact none_here

theorem propertied?_bracketed (h : NodeId id) (hb : b ∈ Shape.brackets) :
    Reading.propertied? (bracketed id b text) = none := by
  -- brackets that close with a brace also open with one, which no id goes on with
  have apart : ∀ b ∈ Shape.brackets, b.closing.getLast? ≠ some '\x7d' ∨
      b.opening.head?.all (fun c => !Reading.isPropertiedChar c && c != '@') = true := by decide
  obtain ⟨s, c, whole, last, mark⟩ := getLast?_bracketed id text hb
  rcases apart b hb with no_brace | stops
  · have brace : c ≠ '\x7d' := fun e => no_brace (e ▸ last)
    have feed : c ≠ '\n' := Brackets.of_isMark (P := (· ≠ '\n')) (by decide) mark
    have none_after : Statement.braced? ((bracketed id b text).dropWhile Reading.isPropertiedChar) =
        none := by
      obtain ⟨t, split⟩ := List.dropWhile_suffix Reading.isPropertiedChar (l := bracketed id b text)
      cases rest : (bracketed id b text).dropWhile Reading.isPropertiedChar with
      | nil => rfl
      | cons d u =>
        rw [rest, whole] at split
        refine Statement.braced?_of_last ?_ brace feed
        have := congrArg List.getLast? split
        rwa [List.getLast?_concat, List.getLast?_append_of_ne_nil _ (List.cons_ne_nil d u)] at this
    rw [Reading.propertied?]
    simp only [none_after]
    rfl
  · obtain ⟨d, t, first⟩ := List.exists_cons_of_ne_nil (Brackets.opening_ne_nil b hb)
    rw [first] at stops
    simp only [List.head?_cons, Option.all_some, Bool.and_eq_true, Bool.not_eq_true',
      bne_iff_ne] at stops
    have split :
        bracketed id b text = id ++ d :: (t ++ writeBracketed b.shape text ++ b.closing) := by
      rw [bracketed, first]
      simp
    have none_after : Statement.braced? (d :: (t ++ writeBracketed b.shape text ++ b.closing)) =
        none := by
      have other : ('@' == d) = false := by simpa using Ne.symm stops.2
      rw [Statement.braced?, after?_cons_cons, other]
      rfl
    rw [split, h.propertied?_append (stops_cons.mpr stops.1), none_after]
    rfl

/-- A node with brackets is met with its text and its shape. -/
theorem meetNode_bracketed (h : NodeId id) (hb : b ∈ Shape.brackets) (ht : OnlyFeeds text)
    (r : Reading) : r.meetNode (bracketed id b text) =
      .ok (some id, r.meet id (some text) (some b.shape)) := by
  have read : readBracketed? (bracketed id b text) =
      some (id, writeBracketed b.shape text, b.shape) :=
    readBracketed?_writeBracketed hb h.some_text h.chars text
  rw [Reading.meetNode, propertied?_bracketed h hb, read]
  simp only [unquote_writeBracketed hb ht.no_return]
  rfl

end
end Flowchart
