import Flowchart.Proofs.Assembling

/-! What of a source text counts. The lines that count decide what kind of diagram the text is and
what is read of it; and what a text is indented by does not count, whatever stands in its lines. -/
namespace Flowchart
open Text

namespace Text

/-- What is cut off a text begins with the part that it is cut at. -/
theorem exists_upTo (part s : Text) :
    ∃ rest, s = upTo part s ++ rest ∧ (rest = [] ∨ part <+: rest) := by
  induction s with
  | nil => exact ⟨[], rfl, Or.inl rfl⟩
  | cons c s ih =>
    rw [upTo]
    split
    · rename_i here
      exact ⟨c :: s, rfl, Or.inr (List.isPrefixOf_iff_prefix.mp here)⟩
    · obtain ⟨rest, whole, cut⟩ := ih
      exact ⟨rest, congrArg (c :: ·) whole, cut⟩

theorem isLineBreak_feed : isLineBreak '\n' = true := by decide

/-- A break ends a line, unless it is one with the break after it. -/
theorem lines_break {c : Char} (line : isLineBreak c = true) (s : Text) :
    lines (c :: s) = if c = '\r' ∧ s.head? = some '\n' then lines s else [] :: lines s := by
  split
  · rename_i pair
    obtain ⟨rfl, first⟩ := pair
    cases s with
    | nil => cases first
    | cons d s =>
      obtain rfl : d = '\n' := by simpa using first
      simp [lines, isLineBreak_feed]
  · rename_i alone
    rw [lines, if_pos line]
    intro t e e'
    exact alone ⟨e, by rw [e']; rfl⟩

theorem lines_append_ne_nil (s : Text) : lines (s ++ ['\n']) ≠ [] := by
  induction s with
  | nil => simp [lines, isLineBreak_feed]
  | cons c s ih =>
    cases line : isLineBreak c with
    | true =>
      rw [List.cons_append, lines_break line]
      split
      · exact ih
      · simp
    | false => simp [lines_cons line]

/-- A line feed at the end ends the last line, or else is an empty line. -/
theorem lines_concat (s : Text) :
    lines (s ++ ['\n']) = lines s ∨ lines (s ++ ['\n']) = lines s ++ [[]] := by
  induction s with
  | nil => exact Or.inr (by decide)
  | cons c s ih =>
    rw [List.cons_append]
    cases line : isLineBreak c with
    | true =>
      rw [lines_break line, lines_break line]
      cases s with
      | nil => by_cases h : c = '\r' <;> simp [h, lines, isLineBreak_feed]
      | cons d s =>
        rw [List.cons_append, List.head?_cons, List.head?_cons]
        split
        · exact ih
        · exact ih.imp (congrArg ([] :: ·)) (congrArg ([] :: ·))
    | false =>
      rw [lines_cons line, lines_cons line]
      rcases ih with same | more
      · exact Or.inl (by rw [same])
      · rw [more]
        cases lines s with
        | nil => exact Or.inl rfl
        | cons l ls => exact Or.inr rfl

/-- A line feed ends the line that it stands in, whatever stands before it. -/
theorem lines_split (s t : Text) : lines (s ++ '\n' :: t) = lines (s ++ ['\n']) ++ lines t := by
  induction s with
  | nil => simp [lines_break isLineBreak_feed, lines]
  | cons c s ih =>
    cases line : isLineBreak c with
    | true =>
      -- what comes after the break begins the same on both sides
      have first (u : Text) : (s ++ '\n' :: u).head? = some (s.head?.getD '\n') := by
        cases s <;> rfl
      simp only [List.cons_append, lines_break line, first, ih]
      split <;> rfl
    | false =>
      obtain ⟨l, ls, some_line⟩ := List.exists_cons_of_ne_nil (lines_append_ne_nil s)
      simp only [List.cons_append, lines_cons line, ih, some_line]
      rfl

end Text

namespace Source

/-- A line as far as it counts. -/
def cut (l : Text) : Text := (upTo commentMark l).trim

/-- The lines that count in a text without a block of settings. -/
def counting (s : Text) : List Text := ((lines s).map cut).filter fun l => !l.isEmpty

theorem meaningful_eq (s : Text) : meaningful s = counting (withoutSettings s) := rfl

theorem cut_blank {c : Char} (blank : isBlank c = true) (l : Text) : cut (c :: l) = cut l := by
  have no_mark : ¬ commentMark.isPrefixOf (c :: l) = true := by
    intro here
    obtain ⟨rest, whole⟩ := List.isPrefixOf_iff_prefix.mp here
    obtain rfl : '%' = c := (List.cons.inj whole).1
    exact absurd blank (by decide)
  have trimmed := trim_surround (b := [c]) (s := upTo commentMark l) (e := []) (by simpa) (by simp)
  rw [List.append_nil] at trimmed
  rw [cut, upTo, if_neg no_mark]
  exact trimmed

/-- A blank at the beginning does not count, be it a break or not. -/
theorem counting_blank {c : Char} (blank : isBlank c = true) (s : Text) :
    counting (c :: s) = counting s := by
  cases line : isLineBreak c with
  | true =>
    rw [counting, lines_break line]
    split
    · rfl
    · exact List.filter_cons_of_neg (by decide)
  | false =>
    rw [counting, counting, lines_cons line]
    cases lines s with
    | nil =>
      show [cut [c]].filter _ = _
      rw [cut_blank blank]
      rfl
    | cons l ls => simp [cut_blank blank]

theorem counting_blanks {b : Text} (blank : ∀ c ∈ b, isBlank c = true) (s : Text) :
    counting (b ++ s) = counting s := by
  induction b with
  | nil => rfl
  | cons c b ih =>
    rw [List.cons_append, counting_blank (blank c List.mem_cons_self)]
    exact ih fun d hd => blank d (List.mem_cons_of_mem c hd)

/-- A line feed does not bring together what counts before it and after it. -/
theorem counting_feed (s t : Text) : counting (s ++ '\n' :: t) = counting s ++ counting t := by
  have ended : counting (s ++ ['\n']) = counting s := by
    rcases lines_concat s with same | more
    · rw [counting, counting, same]
    · rw [counting, counting, more, List.map_append, List.filter_append]
      exact List.append_nil _
  rw [← ended, counting, lines_split, List.map_append, List.filter_append]
  rfl

theorem cut_blanks {b : Text} (blank : ∀ c ∈ b, isBlank c = true) (l : Text) :
    cut (b ++ l) = cut l := by
  induction b with
  | nil => rfl
  | cons c b ih =>
    rw [List.cons_append, cut_blank (blank c List.mem_cons_self)]
    exact ih fun d hd => blank d (List.mem_cons_of_mem c hd)

/-- Blanks at the end of a line stand after the comment or are no part of it. -/
theorem upTo_blanks (l : Text) {e : Text} (blank : ∀ c ∈ e, isBlank c = true) :
    upTo commentMark (l ++ e) = upTo commentMark l ++ e ∨
      upTo commentMark (l ++ e) = upTo commentMark l := by
  have no_percent : '%' ∉ e := fun here => absurd (blank '%' here) (by decide)
  induction l with
  | nil => exact Or.inl (upTo_eq_self (not_infix_of_not_mem (c := '%') (by decide) no_percent))
  | cons c l ih =>
    have same : commentMark.isPrefixOf (c :: l ++ e) = commentMark.isPrefixOf (c :: l) := by
      rw [Bool.eq_iff_iff, List.isPrefixOf_iff_prefix, List.isPrefixOf_iff_prefix]
      constructor
      · intro h
        apply prefix_of_prefix_append h
        intro d first here
        obtain rfl : d = '%' := by simpa [commentMark] using here
        exact no_percent (List.mem_of_mem_head? first)
      · intro h
        exact h.trans (List.prefix_append _ _)
    rw [List.cons_append, upTo, upTo, ← List.cons_append, same]
    split
    · exact Or.inr rfl
    · exact ih.imp (congrArg (c :: ·)) (congrArg (c :: ·))

theorem cut_trim (l : Text) : cut l.trim = cut l := by
  obtain ⟨b, e, whole, hb, he⟩ := exists_trim l
  have right : cut (l.trim ++ e) = cut l.trim := by
    rcases upTo_blanks l.trim he with more | same
    · rw [cut, more]
      exact trim_surround (b := []) (by simp) he
    · rw [cut, same, cut]
  calc cut l.trim = cut (b ++ (l.trim ++ e)) := by rw [cut_blanks hb, right]
    _ = cut l := by rw [← List.append_assoc, ← whole]

/-! ### The kind of a diagram -/

/-- May the character stand in a word that counts? -/
def isSolid (c : Char) : Bool := !isBlank c && c != '%'

/-- What counts of a line without blanks at its ends goes up to a blank or a comment, or is all of
it. It is nothing if there is nothing before the comment. -/
theorem exists_cut {l : Text} (tight : Tight l) :
    ∃ rest, l = cut l ++ rest ∧ Stops isSolid rest ∧
      (cut l = [] → rest = [] ∨ commentMark <+: rest) := by
  obtain ⟨rest, whole, mark⟩ := exists_upTo commentMark l
  obtain ⟨b, e, inner, hb, he⟩ := exists_trim (upTo commentMark l)
  have kept : l = b ++ (cut l ++ (e ++ rest)) := by
    conv_lhs => rw [whole, inner]
    simp [cut]
  have unindented {s t : Text} (blank : ∀ c ∈ s, isBlank c = true) (all : l = s ++ t) : s = [] := by
    cases s with
    | nil => rfl
    | cons c s =>
      have first := tight.start c (by rw [all]; rfl)
      rw [blank c List.mem_cons_self] at first
      cases first
  obtain rfl : b = [] := unindented hb kept
  have stops : Stops isSolid rest := by
    rcases mark with rfl | ⟨more, rfl⟩
    · exact stops_nil _
    · exact stops_cons.mpr (by decide)
  refine ⟨e ++ rest, kept, ?_, ?_⟩
  · apply stops_append
    · intro c first
      simp [isSolid, he c (List.mem_of_mem_head? first)]
    · exact fun _ => stops
  · intro empty
    obtain rfl : e = [] := unindented (t := rest) he (by simpa [empty] using kept)
    exact mark

theorem cut_eq_nil_iff {l : Text} (tight : Tight l) : cut l = [] ↔ l = [] ∨ commentMark <+: l := by
  constructor
  · intro empty
    obtain ⟨rest, whole, _, mark⟩ := exists_cut tight
    rw [whole, empty]
    exact mark empty
  · rintro (rfl | ⟨more, rfl⟩)
    · rfl
    · rfl

end Source

namespace DiagramKind
open Source

theorem not_isWord_of_not_isSolid {c : Char} (h : isSolid c = false) : isWord c = false := by
  cases word : isWord c with
  | false => rfl
  | true =>
    have hyphened : isWordOrHyphen c = true := by simp [isWordOrHyphen, word]
    have solid : isSolid c = true := by
      simp [isSolid, isBlank_of_isWordOrHyphen hyphened, (inline_of_isWordOrHyphen hyphened).2]
    rw [solid] at h
    cases h

/-- A word begins a line no matter what follows a blank or a percent sign in it. -/
theorem begins_append {word : Text} (solid : ∀ c ∈ word, isSolid c = true) (s : Text) {rest : Text}
    (stops : Stops isSolid rest) : begins word (s ++ rest) = begins word s := by
  induction word generalizing s with
  | nil =>
    cases s with
    | cons c s => rfl
    | nil =>
      cases rest with
      | nil => rfl
      | cons d rest => simp [begins, not_isWord_of_not_isSolid (stops_cons.mp stops)]
  | cons w word ih =>
    cases s with
    | cons c s =>
      have inner := ih (fun d hd => solid d (List.mem_cons_of_mem w hd)) s
      rw [begins, begins] at inner ⊢
      rw [List.cons_append, after?_cons_cons, after?_cons_cons]
      cases w == c with
      | true => exact inner
      | false => rfl
    | nil =>
      cases rest with
      | nil => rfl
      | cons d rest =>
        have other : ¬ w = d := by
          rintro rfl
          have first := solid w List.mem_cons_self
          rw [stops_cons.mp stops] at first
          cases first
        simp [begins, after?_cons_cons, other]

theorem toLower_of_not_isSolid {c : Char} (h : isSolid c = false) : c.toLower = c := by
  have upper : c.isUpper = false := by
    cases large : c.isUpper with
    | false => rfl
    | true =>
      have blank : isBlank c = false := isBlank_of_class (p := Char.isUpper) (by decide) large
      obtain rfl : c = '%' := by simpa [isSolid, blank] using h
      cases large
  exact dif_neg (of_decide_eq_false upper)

/-- What follows a blank or a percent sign does not count for the kind that a line declares. -/
theorem ofLine_append (s : Text) {rest : Text} (stops : Stops isSolid rest) :
    ofLine (s ++ rest) = ofLine s := by
  have lower : Stops isSolid (rest.map Char.toLower) := by
    cases rest with
    | nil => exact stops
    | cons c rest =>
      have first := stops_cons.mp stops
      rwa [List.map_cons, toLower_of_not_isSolid first, stops_cons]
  have flow : flowchartWords.any (begins · ((s ++ rest).map Char.toLower)) =
      flowchartWords.any (begins · (s.map Char.toLower)) := by
    rw [List.map_append, Bool.eq_iff_iff, List.any_eq_true, List.any_eq_true]
    have solid : ∀ word ∈ flowchartWords, ∀ c ∈ word, isSolid c = true := by decide
    apply exists_congr
    intro word
    apply and_congr_right
    intro known
    rw [begins_append (solid word known) _ lower]
  have other : (keywords.find? fun k => begins k.1 (s ++ rest)) =
      keywords.find? fun k => begins k.1 s := by
    have solid : ∀ k ∈ keywords, ∀ c ∈ k.1, isSolid c = true := by decide
    rw [← List.head?_filter, ← List.head?_filter]
    apply congrArg List.head?
    apply List.filter_congr
    intro k known
    exact begins_append (solid k known) s stops
  rw [ofLine, ofLine, flow, other]

theorem ofLine_cut (l : Text) : ofLine (cut l) = ofLine l.trim := by
  obtain ⟨rest, whole, stops, -⟩ := exists_cut (tight_trim l)
  rw [cut_trim] at whole
  conv_rhs => rw [whole]
  exact (ofLine_append _ stops).symm

/-- The first line that counts is the first one that is neither blank nor a comment. -/
theorem isEmpty_cut (l : Text) :
    (!(cut l).isEmpty) = (!l.trim.isEmpty && !commentMark.isPrefixOf l.trim) := by
  have empty := cut_eq_nil_iff (tight_trim l)
  rw [cut_trim] at empty
  rw [← Bool.not_or, Bool.not_inj_iff, Bool.eq_iff_iff, List.isEmpty_iff, empty, Bool.or_eq_true,
    List.isEmpty_iff, List.isPrefixOf_iff_prefix]

/-- The first line that counts decides what kind of diagram a text is. -/
theorem detect_eq (s : Text) : detect s = ((meaningful s).head?.map ofLine).getD .unknown := by
  have first (ls : List Text) :
      (ls.map Text.trim).find? (fun l => !l.isEmpty && !commentMark.isPrefixOf l) =
        (ls.find? fun l => !(cut l).isEmpty).map Text.trim := by
    rw [List.find?_map]
    simp only [Function.comp_def, isEmpty_cut]
  rw [detect, first, meaningful_eq, counting, List.head?_filter, List.find?_map]
  simp only [Function.comp_def, Option.map_map, ofLine_cut]
  cases (lines (withoutSettings s)).find? fun l => !(cut l).isEmpty with
  | none => rfl
  | some l => rfl

theorem detect_congr {a b : Text} (same : meaningful a = meaningful b) : detect a = detect b := by
  rw [detect_eq, detect_eq, same]

end DiagramKind

/-! ### What is read goes by the lines that count -/

theorem Reading.ofText_congr {a b : Text} (same : Source.meaningful a = Source.meaningful b)
    (strict : Bool) : Reading.ofText strict a = Reading.ofText strict b := by
  have source : Reading.ofSource a = Reading.ofSource b := by
    rw [Reading.ofSource, Reading.ofSource, same]
  rw [Reading.ofText, Reading.ofText, DiagramKind.detect_congr same, source]

/-- Texts with the same lines that count are diagrams of the same kind, and the same is read of
them or reading both fails in the same way. -/
theorem Reading.reading_goes_by_lines {a b : Text}
    (same : Source.meaningful a = Source.meaningful b) :
    DiagramKind.detect a = DiagramKind.detect b ∧
      ∀ strict, Reading.ofText strict a = Reading.ofText strict b := by
  constructor
  · exact DiagramKind.detect_congr same
  · intro strict
    exact Reading.ofText_congr same strict

/-- A text with a block of settings, comments, blank lines and several kinds of breaks. The first
comment ends the keyword, and the second one ends the id. -/
def Reading.commented : Text :=
  "\n --- \r\ntitle: graph TB\r\n---\n%% classDiagram\r\tgraph%% pie\x0b\n A -->B%%C\x85\u2028 \n"

/-- The lines that count in it. -/
def Reading.uncommented : Text := "graph\nA -->B"

theorem Reading.commented_goes_by_lines :
    Source.meaningful Reading.commented = Source.meaningful Reading.uncommented ∧
      Reading.commented ≠ Reading.uncommented ∧
      DiagramKind.detect Reading.commented = DiagramKind.detect Reading.uncommented ∧
      ∀ strict, Reading.ofText strict Reading.commented =
        Reading.ofText strict Reading.uncommented := by
  have same : Source.meaningful Reading.commented = Source.meaningful Reading.uncommented := by
    decide +kernel
  exact ⟨same, by decide, Reading.reading_goes_by_lines same⟩

/-! ### Indentation -/

namespace Source

/-- Blank margins do not count, nor do the feeds after the lines. -/
theorem counting_assemble {ls : List (Text × Text)}
    (blank : ∀ l ∈ ls, ∀ c ∈ l.1, isBlank c = true) :
    counting (assemble ls) = ls.flatMap fun l => counting l.2 := by
  induction ls with
  | nil => rfl
  | cons l ls ih =>
    have whole : assemble (l :: ls) = l.1 ++ (l.2 ++ '\n' :: assemble ls) := by simp [assemble]
    rw [whole, counting_blanks (blank l List.mem_cons_self), counting_feed, List.flatMap_cons,
      ih fun k hk => blank k (List.mem_cons_of_mem l hk)]

/-- What counts of a text with a heading is what counts of the heading and of the lines. -/
theorem meaningful_heading (direction : Direction) {ls : List (Text × Text)}
    (blank : ∀ l ∈ ls, ∀ c ∈ l.1, isBlank c = true) :
    meaningful (assemble (([], heading direction) :: ls)) =
      counting (heading direction) ++ (ls.map (·.2)).flatMap counting := by
  have margins : ∀ l ∈ ([], heading direction) :: ls, ∀ c ∈ l.1, isBlank c = true := by
    simpa using blank
  rw [meaningful_eq, withoutSettings_assemble, counting_assemble margins, List.flatMap_cons,
    List.flatMap_map]

end Source

namespace Diagram
variable {d : Diagram} {layout : Layout} {s : Text}

/-- What counts of the text of a diagram is what counts of the lines of its statements. -/
theorem meaningful_lined {ls : List Text} (lined : Lined (d.body layout) ls)
    (blank : ∀ c ∈ layout.indent, isBlank c = true) :
    Source.meaningful (assemble (([], heading d.direction) :: layout.lines (d.body layout) ls)) =
      Source.counting (heading d.direction) ++ ls.flatMap Source.counting := by
  have margins : ∀ l ∈ layout.lines (d.body layout) ls, ∀ c ∈ l.1, isBlank c = true := by
    intro l hl
    obtain ⟨depth, margin, -⟩ := Lined.mem_lines hl
    intro c hc
    rw [margin] at hc
    exact blank c (Layout.mem_margin hc)
  rw [Source.meaningful_heading d.direction margins, lined.lines_eq]

/-- A diagram that can be written can be written with any other blank indentation, and the same
lines count in both texts. So the same is read of them. -/
theorem indentation_does_not_count (written : d.write layout = .ok s) {indent : Text}
    (blank : ∀ c ∈ layout.indent, isBlank c = true) (blank' : ∀ c ∈ indent, isBlank c = true) :
    ∃ s', d.write { layout with indent } = .ok s' ∧ Source.meaningful s' = Source.meaningful s ∧
      ∀ strict, Reading.ofText strict s' = Reading.ofText strict s := by
  obtain ⟨ls, lined, rfl⟩ := write_eq_ok_iff.mp written
  -- the statements after the heading do not depend on the indentation
  have again : Lined (d.body { layout with indent }) ls := lined
  have same := (meaningful_lined again blank').trans (meaningful_lined lined blank).symm
  exact ⟨_, write_lined again, same, Reading.ofText_congr same⟩

/-- A diagram whose ids and texts hold breaks of lines, blanks and comment marks. -/
def ragged : Diagram where
  direction := .lr
  nodes := [
    { id := .text " A\n B", text := .text "\r\n  x%% y\u2028 --- \u000c", parent := .text "g\n" },
    { id := .text "%%C\r", text := .text "\t", parent := .text "h" }]
  edges := [{
    id := .text "e", source := .text " A\n B", target := .text "%%C\r", text := .text "%%\n\n %" }]
  subgraphs := [
    { id := .text "g\n", title := .text "\x85 end", members := [.text " A\n B"] },
    { id := .text "h", title := .text "h", members := [.text "%%C\r"], parent := .text "g\n" }]

/-- Blanks and breaks of lines. -/
def raggedIndent : Text := " \r\n\u2028 "

theorem ragged_indentation : ∃ s s', ragged.write { indent := "\t" } = .ok s ∧
    ragged.write { indent := raggedIndent } = .ok s' ∧ s' ≠ s ∧
    Source.meaningful s' = Source.meaningful s ∧
    ∀ strict, Reading.ofText strict s' = Reading.ofText strict s := by
  obtain ⟨s, written⟩ := isOk_iff.mp (by decide +kernel : (ragged.write { indent := "\t" }).isOk)
  have blank : ∀ c ∈ raggedIndent, isBlank c = true := by decide
  obtain ⟨s', written', same⟩ := indentation_does_not_count written (by decide) blank
  have differ : ragged.write { indent := raggedIndent } ≠ ragged.write { indent := "\t" } := by
    decide +kernel
  rw [written', written] at differ
  exact ⟨s, s', written, written', fun e => differ (congrArg Except.ok e), same⟩

end Diagram
end Flowchart
