import Flowchart.Proofs.Characters
import Flowchart.Proofs.Quoting
import Flowchart.Source.Reading

/-! The lines of a text that is put together from lines. A line that holds no line break and no
comment, no blank at its ends and no semicolon at its end comes through the first passes of
reading as it is. -/
namespace Flowchart
open Text

namespace Text

theorem lines_cons {c : Char} (h : isLineBreak c = false) (s : Text) :
    lines (c :: s) = ((lines s).headD []).cons c :: (lines s).tail := by
  have no_return : c ≠ '\r' := by
    rintro rfl
    exact absurd h (by decide)
  rw [lines]
  · rw [if_neg (by simp [h])]
    cases lines s <;> rfl
  · intro t e
    exact absurd e no_return

theorem lines_append_feed {l : Text} (h : ∀ c ∈ l, isLineBreak c = false) (rest : Text) :
    lines (l ++ '\n' :: rest) = l :: lines rest := by
  induction l with
  | nil =>
    have feed : isLineBreak '\n' = true := by decide
    rw [List.nil_append, lines]
    · rw [if_pos feed]
    · intro t e
      exact absurd e (by decide)
  | cons c l ih =>
    rw [List.cons_append, lines_cons (h c List.mem_cons_self),
      ih fun d hd => h d (List.mem_cons_of_mem c hd)]
    rfl

theorem lines_flatten {ls : List Text} (h : ∀ l ∈ ls, ∀ c ∈ l, isLineBreak c = false) :
    lines (ls.map fun l => l ++ ['\n']).flatten = ls := by
  induction ls with
  | nil => rfl
  | cons l ls ih =>
    rw [List.map_cons, List.flatten_cons, List.append_assoc, List.singleton_append,
      lines_append_feed (h l List.mem_cons_self), ih fun k hk => h k (List.mem_cons_of_mem l hk)]

end Text

/-- No line ends in the text and no comment begins in it. -/
structure Inline (s : Text) : Prop where
  breaks : ∀ c ∈ s, isLineBreak c = false
  comment : ¬ Source.commentMark <:+: s

namespace Inline
variable {s t : Text}

theorem nil : Inline [] := ⟨by simp, by decide⟩

/-- Parts are put together on one line unless a comment mark is. -/
theorem append (hs : Inline s) (ht : Inline t)
    (apart : Stops (· == '%') t ∨ Stops (· == '%') s.reverse) : Inline (s ++ t) where
  breaks := by
    intro c hc
    rcases List.mem_append.mp hc with hc | hc
    · exact hs.breaks c hc
    · exact ht.breaks c hc
  comment := not_infix_append (by decide) hs.comment ht.comment apart

/-- A part without percent signs may stand before any other. -/
theorem before (hs : ∀ c ∈ s, isLineBreak c = false ∧ c ≠ '%') (ht : Inline t) :
    Inline (s ++ t) := by
  have no_percent : '%' ∉ s := fun here => (hs '%' here).2 rfl
  refine append ⟨fun c hc => (hs c hc).1, not_infix_of_not_mem (c := '%') (by decide) no_percent⟩ ht
    (Or.inr (stops_of_not_mem fun c percent here => ?_))
  rw [beq_iff_eq.mp percent] at here
  exact no_percent (List.mem_reverse.mp here)

theorem of_chars (h : ∀ c ∈ s, isLineBreak c = false ∧ c ≠ '%') : Inline s where
  breaks := fun c hc => (h c hc).1
  comment := not_infix_of_not_mem (c := '%') (by decide) fun here => (h '%' here).2 rfl

theorem cons {c : Char} (hs : Inline s) (line : isLineBreak c = false) (percent : c ≠ '%') :
    Inline (c :: s) :=
  append (s := [c]) (of_chars (by simpa using ⟨line, percent⟩)) hs (Or.inr (by simpa using percent))

/-- Two parts may stand on one line with any other character between them. -/
theorem between {c : Char} (hs : Inline s) (line : isLineBreak c = false) (percent : c ≠ '%')
    (ht : Inline t) : Inline (s ++ c :: t) :=
  hs.append (ht.cons line percent) (Or.inl (stops_cons.mpr (by simpa using percent)))

/-- A part without percent signs may stand after any other. -/
theorem after (hs : Inline s) (ht : ∀ c ∈ t, isLineBreak c = false ∧ c ≠ '%') : Inline (s ++ t) := by
  cases t with
  | nil => rwa [List.append_nil]
  | cons c t =>
    obtain ⟨line, percent⟩ := ht c List.mem_cons_self
    exact hs.between line percent (.of_chars fun d hd => ht d (List.mem_cons_of_mem c hd))

theorem part (h : Inline t) (inner : s <:+: t) : Inline s where
  breaks c hc := h.breaks c (inner.subset hc)
  comment here := h.comment (here.trans inner)

/-- Parts that are joined by a separator without percent signs are on one line. -/
theorem join (sep : Text) {ss : List Text} (some_sep : sep ≠ [])
    (mark : ∀ c ∈ sep, isLineBreak c = false ∧ c ≠ '%') (h : ∀ s ∈ ss, Inline s) :
    Inline (Text.join sep ss) := by
  obtain ⟨c, sep, rfl⟩ := List.exists_cons_of_ne_nil some_sep
  obtain ⟨line, percent⟩ := mark c List.mem_cons_self
  induction ss with
  | nil => exact .nil
  | cons s ss ih =>
    have here := h s List.mem_cons_self
    have rest := ih fun t ht => h t (List.mem_cons_of_mem s ht)
    cases ss with
    | nil => simpa [Text.join, List.intercalate] using here
    | cons t ss =>
      rw [Text.join, List.intercalate_cons_cons, List.append_assoc, List.cons_append]
      exact here.between line percent
        (.before (fun d hd => mark d (List.mem_cons_of_mem c hd)) rest)

end Inline

/-- The only line break in the text is the line feed. -/
def OnlyFeeds (s : Text) : Prop := ∀ c ∈ s, isLineBreak c = true → c = '\n'

instance (s : Text) : Decidable (OnlyFeeds s) :=
  inferInstanceAs (Decidable (∀ c ∈ s, isLineBreak c = true → c = '\n'))

theorem OnlyFeeds.no_return {s : Text} (h : OnlyFeeds s) : '\r' ∉ s :=
  fun here => absurd (h '\r' here (by decide)) (by decide)

theorem onlyFeeds_of_unbroken {s : Text} (h : ∀ c ∈ s, isLineBreak c = false) : OnlyFeeds s := by
  intro c hc line
  rw [h c hc] at line
  cases line

namespace Quoted
open Entity

theorem isLineBreak_of_isCode {c : Char} (h : isCode c = true) : isLineBreak c = false :=
  isLineBreak_of_not_isBlank (isBlank_of_class (p := isCode) (by decide) h)

theorem inline_escape {s : Text} (h : OnlyFeeds s) : Inline (escape s) where
  breaks := by
    intro c hc
    rcases mem_escape hc with ⟨here, kept⟩ | code
    · cases hb : isLineBreak c with
      | false => rfl
      | true =>
        rw [h c here hb] at kept
        exact absurd kept (by decide)
    · exact isLineBreak_of_isCode code
  comment := no_comment_escape h.no_return

theorem inline_inQuotes {s : Text} (h : OnlyFeeds s) : Inline (inQuotes s) := by
  have inner : Inline (escape s ++ ['"']) := (inline_escape h).after (by decide)
  exact inner.cons (by decide) (by decide)

theorem inline_asMarkdown {s : Text} (h : OnlyFeeds s) : Inline (asMarkdown s) := by
  have inner : Inline (escape s ++ ['\x60', '"']) := (inline_escape h).after (by decide)
  exact (inner.cons (by decide) (by decide)).cons (by decide) (by decide)

theorem Bare.inline {delimiters : List Text} {s : Text} (bare : Bare delimiters s) (h : OnlyFeeds s)
    (no_feed : '\n' ∉ s) : Inline s where
  breaks c hc := by
    cases hb : isLineBreak c with
    | false => rfl
    | true => exact absurd (h c hc hb ▸ hc) no_feed
  comment := bare.calm _ (by decide)

theorem inline_quote (delimiters : List Text) {s : Text} (h : OnlyFeeds s) :
    Inline (quote delimiters s) := by
  rcases quote_cases delimiters s with form | form | ⟨form, bare, no_feed⟩
  · rw [form]
    exact inline_inQuotes h
  · rw [form]
    exact inline_asMarkdown h
  · rw [form]
    exact bare.inline h no_feed

theorem inline_labelBody {s : Text} (h : OnlyFeeds s) : Inline (labelBody s) where
  breaks := by
    intro c hc
    rcases mem_labelBody hc with ⟨here, kept, _⟩ | code
    · cases hb : isLineBreak c with
      | false => rfl
      | true =>
        rw [h c here hb] at kept
        exact absurd kept (by decide)
    · exact isLineBreak_of_isCode code
  comment := no_comment_labelBody h.no_return

theorem inline_label {s : Text} (h : OnlyFeeds s) : Inline (label s) := by
  rw [label_eq]
  split
  · have inner : Inline (labelBody s ++ ['"']) := (inline_labelBody h).after (by decide)
    exact inner.cons (by decide) (by decide)
  · exact inline_labelBody h

/-- The label of an edge, between its bars. -/
theorem inline_piped {s : Text} (h : OnlyFeeds s) : Inline ('|' :: (label s ++ ['|'])) := by
  have inner : Inline (label s ++ ['|']) := (inline_label h).after (by decide)
  exact inner.cons (by decide) (by decide)

/-- The title of a subgraph, in its brackets. -/
theorem inline_titled {s : Text} (h : OnlyFeeds s) : Inline ('[' :: (quote [] s ++ [']'])) := by
  have inner : Inline (quote [] s ++ [']']) := (inline_quote [] h).after (by decide)
  exact inner.cons (by decide) (by decide)

end Quoted

/-- A line that is read as it stands. -/
structure Line (s : Text) : Prop extends Inline s where
  tight : Tight s
  some_text : s ≠ []
  open_end : s.getLast? ≠ some ';'

/-- Blanks before a line, on the same line. -/
def Indent (s : Text) : Prop := ∀ c ∈ s, isBlank c = true ∧ isLineBreak c = false

instance (s : Text) : Decidable (Indent s) :=
  inferInstanceAs (Decidable (∀ c ∈ s, isBlank c = true ∧ isLineBreak c = false))

section
variable {b s : Text}

theorem Inline.indented (h : Inline s) (hb : Indent b) : Inline (b ++ s) := by
  refine .before (fun c hc => ⟨(hb c hc).2, ?_⟩) h
  rintro rfl
  exact absurd (hb '%' hc).1 (by decide)

/-- What is left of an indented line is the line without the blanks at its ends. -/
theorem Inline.upTo_indented (h : Inline s) (hb : Indent b) :
    (upTo Source.commentMark (b ++ s)).trim = s.trim := by
  have whole := trim_surround (s := s) (e := []) (fun c hc => (hb c hc).1) (by simp)
  rw [List.append_nil] at whole
  rw [upTo_eq_self (h.indented hb).comment, whole]

end

namespace Line
variable {s : Text}

theorem strip (h : Line s) : Reading.strip s = s := by
  have no_semicolon : dropTrailing (· == ';') s = s := by
    refine dropTrailing_stop fun c first => ?_
    rw [List.head?_reverse] at first
    rw [beq_eq_false_iff_ne]
    rintro rfl
    exact h.open_end first
  rw [Reading.strip, no_semicolon, trim_tight h.tight]

/-- Two lines may be joined to one with something between them. -/
theorem joined {m t : Text} (hs : Line s) (hm : Inline m) (ht : Line t) :
    Line (s ++ ' ' :: (m ++ ' ' :: t)) := by
  have inline := hs.toInline.between (c := ' ') (by decide) (by decide)
    (hm.between (c := ' ') (by decide) (by decide) ht.toInline)
  obtain ⟨u, c, whole⟩ := List.eq_nil_or_concat t |>.resolve_left ht.some_text
  have last : s ++ ' ' :: (m ++ ' ' :: t) = (s ++ ' ' :: (m ++ ' ' :: u)) ++ [c] := by
    simp [whole]
  refine ⟨inline, ⟨?_, ?_⟩, by simp, ?_⟩
  · exact stops_append hs.tight.start fun e => absurd e hs.some_text
  · have finish := ht.tight.finish
    rw [last]
    simpa [whole] using finish
  · have open_end := ht.open_end
    rw [whole, List.concat_eq_append, List.getLast?_concat] at open_end
    rwa [last, List.getLast?_concat]

end Line

/-- Lines are read one after another. -/
def Reading.readAll (r : Reading) (ls : List Text) : Except Error Reading :=
  ls.foldlM (fun r l => r.read (.ofLine l)) r

theorem Reading.readAll_append {r r' : Reading} {ls : List Text} (h : r.readAll ls = .ok r')
    (ls' : List Text) : r.readAll (ls ++ ls') = r'.readAll ls' := by
  rw [readAll, List.foldlM_append]
  rw [readAll] at h
  rw [h]
  rfl

/-- Lines with what they are indented by, as one text. -/
def assemble (ls : List (Text × Text)) : Text := (ls.map fun l => l.1 ++ l.2 ++ ['\n']).flatten

/-- Every line stays one line, and there is something on it. -/
def Inlined (ls : List (Text × Text)) : Prop := ∀ l ∈ ls, Indent l.1 ∧ Inline l.2 ∧ l.2.trim ≠ []

/-- Every line is read as it stands. -/
def Assembled (ls : List (Text × Text)) : Prop := ∀ l ∈ ls, Indent l.1 ∧ Line l.2

section
variable {ls : List (Text × Text)}

theorem Assembled.inlined (h : Assembled ls) : Inlined ls := by
  intro l hl
  obtain ⟨indent, line⟩ := h l hl
  exact ⟨indent, line.toInline, (trim_tight line.tight).symm ▸ line.some_text⟩

theorem Assembled.trim_eq (h : Assembled ls) : ls.map (fun l => l.2.trim) = ls.map (·.2) :=
  List.map_congr_left fun l hl => trim_tight (h l hl).2.tight

theorem lines_assemble (h : Inlined ls) : lines (assemble ls) = ls.map fun l => l.1 ++ l.2 := by
  have whole : assemble ls = ((ls.map fun l => l.1 ++ l.2).map fun l => l ++ ['\n']).flatten := by
    rw [assemble, List.map_map]
    rfl
  rw [whole, lines_flatten]
  intro l hl
  obtain ⟨l', hl', rfl⟩ := List.mem_map.mp hl
  obtain ⟨indent, inline, _⟩ := h l' hl'
  exact (inline.indented indent).breaks

/-- The lines that count are the lines without the blanks at their ends. -/
theorem meaningful_assemble (h : Inlined ls)
    (plain : Source.withoutSettings (assemble ls) = assemble ls) :
    Source.meaningful (assemble ls) = ls.map fun l => l.2.trim := by
  have trimmed : ls.map (fun l => (upTo Source.commentMark (l.1 ++ l.2)).trim) =
      ls.map fun l => l.2.trim :=
    List.map_congr_left fun l hl => (h l hl).2.1.upTo_indented (h l hl).1
  rw [Source.meaningful, plain, lines_assemble h, List.map_map]
  change (ls.map fun l => (upTo Source.commentMark (l.1 ++ l.2)).trim).filter _ = _
  rw [trimmed, List.filter_eq_self]
  intro l hl
  obtain ⟨l', hl', rfl⟩ := List.mem_map.mp hl
  simpa using (h l' hl').2.2

theorem strip_assemble (h : Assembled ls) : (ls.map (·.2)).map Reading.strip = ls.map (·.2) := by
  rw [List.map_map]
  exact List.map_congr_left fun l hl => (h l hl).2.strip

theorem readLines_assemble (h : Assembled ls) (r : Reading) :
    r.readLines (ls.map (·.2)) = r.readAll (ls.map (·.2)) := by
  have kept : (ls.map (·.2)).filter (fun l => !l.isEmpty) = ls.map (·.2) := by
    rw [List.filter_eq_self]
    intro l hl
    obtain ⟨l', hl', rfl⟩ := List.mem_map.mp hl
    simpa using (h l' hl').2.some_text
  rw [Reading.readLines, kept, Reading.readAll]

end

/-- The line that declares a flowchart. -/
def heading (direction : Direction) : Text := "flowchart ".toList ++ direction.name

theorem line_heading (direction : Direction) : Line (heading direction) := by
  have chars : ∀ c ∈ heading direction, isLineBreak c = false ∧ c ≠ '%' := by
    cases direction <;> decide
  refine ⟨.of_chars chars, ⟨?_, ?_⟩, ?_, ?_⟩
  · cases direction <;> exact stops_cons.mpr (by decide)
  · cases direction <;> exact stops_cons.mpr (by decide)
  · cases direction <;> decide
  · cases direction <;> decide

theorem trim_heading (direction : Direction) : (heading direction).trim = heading direction :=
  trim_tight (line_heading direction).tight

theorem heading_ne (direction : Direction) {s : Text} (h : s ∈ [[], Source.fence]) :
    heading direction ≠ s := by
  have all : ∀ s ∈ [[], Source.fence], heading direction ≠ s := by cases direction <;> decide
  exact all s h

theorem ofLine_heading (direction : Direction) :
    DiagramKind.ofLine (heading direction) = .flowchart := by
  cases direction <;> decide

theorem commentMark_heading (direction : Direction) :
    Source.commentMark.isPrefixOf (heading direction) = false := by
  cases direction <;> decide

section
variable {ls : List (Text × Text)} {direction : Direction}

theorem assembled_heading (h : Assembled ls) : Assembled (([], heading direction) :: ls) := by
  intro l hl
  rcases List.mem_cons.mp hl with rfl | hl
  · exact ⟨fun c hc => absurd hc List.not_mem_nil, line_heading direction⟩
  · exact h l hl

theorem inlined_heading (h : Inlined ls) : Inlined (([], heading direction) :: ls) := by
  have first : Assembled [([], heading direction)] := assembled_heading (by simp [Assembled])
  intro l hl
  rcases List.mem_cons.mp hl with rfl | hl
  · exact first.inlined _ (List.mem_singleton_self _)
  · exact h l hl

theorem assemble_heading (direction : Direction) (ls : List (Text × Text)) :
    assemble (([], heading direction) :: ls) = heading direction ++ '\n' :: assemble ls := by
  simp [assemble]

/-- What begins with a heading begins with no block of settings. -/
theorem withoutSettings_heading (direction : Direction) (s : Text) :
    Source.withoutSettings (heading direction ++ '\n' :: s) = heading direction ++ '\n' :: s := by
  have not_blank : (heading direction).trim.isEmpty = false := by
    rw [trim_heading]
    simpa using heading_ne direction (s := []) (by simp)
  have no_fence : ¬ (heading direction).trim = Source.fence := by
    rw [trim_heading]
    exact heading_ne direction (by simp)
  rw [Source.withoutSettings, lines_append_feed (line_heading direction).breaks,
    List.dropWhile_cons_of_neg (by simp [not_blank])]
  simp only [no_fence, if_false]

theorem withoutSettings_assemble (direction : Direction) (ls : List (Text × Text)) :
    Source.withoutSettings (assemble (([], heading direction) :: ls)) =
      assemble (([], heading direction) :: ls) := by
  rw [assemble_heading, withoutSettings_heading]

theorem detect_assemble (h : Assembled ls) :
    DiagramKind.detect (assemble (([], heading direction) :: ls)) = .flowchart := by
  have found (ls : List Text) : (heading direction :: ls).find? (fun l => !l.isEmpty &&
      !Source.commentMark.isPrefixOf l) = some (heading direction) := by
    have some_text := heading_ne direction (s := []) (by simp)
    refine List.find?_cons_of_pos ?_
    simpa [commentMark_heading] using some_text
  rw [DiagramKind.detect, withoutSettings_assemble,
    lines_assemble (inlined_heading h.inlined)]
  simp only [List.map_cons, List.nil_append, trim_heading, found]
  exact ofLine_heading direction

theorem begin_heading (direction : Direction) (lines : List Text) :
    Reading.begin (heading direction :: lines) =
      ({ diagram.direction := direction }, [] :: lines) := by
  cases direction <;> rfl

/-- A heading and lines after it are read as a flowchart, line by line. -/
theorem ofText_assemble (h : Assembled ls) (strict : Bool) :
    Reading.ofText strict (assemble (([], heading direction) :: ls)) =
      (Reading.readAll { diagram.direction := direction } (ls.map (·.2))).map
        fun r => { r with diagram := r.diagram.settle } := by
  have all : Assembled (([], heading direction) :: ls) := assembled_heading h
  have editable :
      (DiagramKind.flowchart.isEditable || DiagramKind.flowchart = .unknown) = true := by
    decide
  have first : Reading.readLines { diagram.direction := direction } ([] :: ls.map (·.2)) =
      Reading.readLines { diagram.direction := direction } (ls.map (·.2)) := rfl
  rw [Reading.ofText, detect_assemble h, if_pos editable, Reading.ofSource,
    meaningful_assemble all.inlined (withoutSettings_assemble direction ls), all.trim_eq,
    strip_assemble all, List.map_cons,
    begin_heading]
  simp only [first, readLines_assemble h]
  rfl

theorem ofText_of_readAll (h : Assembled ls) {r : Reading}
    (read : Reading.readAll { diagram.direction := direction } (ls.map (·.2)) = .ok r)
    (strict : Bool) : Reading.ofText strict (assemble (([], heading direction) :: ls)) =
      .ok { r with diagram := r.diagram.settle } := by
  rw [ofText_assemble h, read]
  rfl

end
end Flowchart
