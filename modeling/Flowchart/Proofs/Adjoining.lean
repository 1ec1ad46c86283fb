import Flowchart.Proofs.Chaining
import Flowchart.Proofs.RoundTrip

/-! Operators without blanks around them. An arrow that adjoins the ids of its nodes is the arrow
with blanks around it, whatever the ids are, unless the id before it is one of the letters that mark
a tip: such a letter is read as the mark, so no node stands before the arrow. -/
namespace Flowchart
open Text

/-- The line of an arrow without blanks around it. -/
def adjoined (s op t : Text) : Text := s ++ (op ++ t)

/-- The line of an arrow with blanks around it. -/
def spaced (s op t : Text) : Text := s ++ ' ' :: (op ++ ' ' :: t)

namespace Link

/-! ### Inside of words -/

/-- After another character than a blank or an at sign, a letter is no mark of a tip. -/
theorem afterSourceMark_attached {b : Char} (blank : isBlank b = false) (sign : b ≠ '@') {c : Char}
    (no_arrow : c ≠ '<') (s : Text) : afterSourceMark (some b) (c :: s) = c :: s := by
  have tight : ((some b).all fun b => isBlank b || b == '@') = false := by
    simp [blank, sign]
  unfold afterSourceMark
  split
  · rename_i same
    exact absurd (List.cons.inj same).1 no_arrow
  · rename_i same
    obtain ⟨rfl, rfl⟩ := List.cons.inj same
    rw [tight, Bool.and_false, if_neg Bool.false_ne_true]
  · rename_i same
    cases same

/-- Where no run of an operator begins, no link begins after another character than a blank or an
at sign. -/
theorem at?_attached {b : Char} (blank : isBlank b = false) (sign : b ≠ '@') {c : Char} {s : Text}
    (no_arrow : c ≠ '<') (here : Quiet (c :: s)) : at? (some b) (c :: s) = none :=
  at?_eq_none no_arrow here (Or.inl (afterSourceMark_attached blank sign no_arrow s))
    (Or.inl (by simp [blank]))

/-! ### Arrows -/

/-- A text that begins with a character of a word. -/
def Begins (s : Text) : Prop := ∃ c u, s = c :: u ∧ isPlainChar c = true

section
variable {stroke : Stroke} {source : Tip} {before : Option Char} {rest : Text}

theorem pipedLabel_word (h : Begins rest) : pipedLabel rest = (none, rest) := by
  obtain ⟨c, u, rfl, plain⟩ := h
  have apart := of_isPlainChar (p := fun c => !(c == ' ' || c == '\t') && c != '|') (by decide)
    plain
  simp only [Bool.and_eq_true, Bool.not_eq_true', bne_iff_ne] at apart
  have dropped : (c :: u).dropWhile (fun c => c == ' ' || c == '\t') = c :: u := by
    rw [List.dropWhile_cons, apart.1]
    rfl
  unfold pipedLabel
  rw [dropped]
  split
  · rename_i same
    exact absurd (List.cons.inj same).1 apart.2
  · rfl

/-- An operator with an arrow at its target is found also where a word adjoins it, if the mark at
its source is one there. -/
theorem at?_arrow (visible : stroke ≠ .invisible) (length : Int) (h : Begins rest)
    (no_sign : '@' ∉ rest)
    (marked : ∀ c s, c = '-' ∨ c = '=' →
      afterSourceMark before (source.startMark ++ c :: s) = c :: s) :
    at? before (Operator.write stroke source .arrow length ++ rest) =
      some (⟨Operator.write stroke source .arrow length, none, none⟩, rest) := by
  have hidden : stroke = .invisible → source = .none ∧ Tip.arrow = .none :=
    fun e => absurd e visible
  obtain ⟨c, hc, ⟨s, first⟩, _⟩ := Operator.body_ends visible .arrow length
  have whole : Operator.write stroke source .arrow length ++ rest =
      source.startMark ++ c :: (s ++ '>' :: rest) := by
    rw [Operator.write_eq visible, first]
    simp [Tip.endMark]
  have body : c :: (s ++ '>' :: rest) =
      Operator.body stroke .arrow length ++ (Tip.arrow.endMark ++ rest) := by
    rw [first]
    rfl
  have start : (source.startMark ++ c :: (s ++ '>' :: rest)).head? ≠ some '~' := by
    cases source with
    | none => rcases hc with rfl | rfl <;> rintro ⟨⟩
    | _ => rintro ⟨⟩
  have plain : afterPlain? before (Operator.write stroke source .arrow length ++ rest) =
      some rest := by
    rw [whole, afterPlain?_of_head start, marked c _ hc, body,
      afterStroke?_body visible .arrow length (by simp), Option.map_some]
    rfl
  have no_id : idAt? before (Operator.write stroke source .arrow length ++ rest) = none := by
    refine idAt?_of_no_sign before fun r found => ?_
    have sign : '@' ∈ Operator.write stroke source .arrow length ++ rest :=
      (List.dropWhile_suffix _).subset (found ▸ List.mem_cons_self)
    rcases List.mem_append.mp sign with here | here
    · exact absurd (Operator.isSymbol_write _ _ _ _ '@' here) (by decide)
    · exact no_sign here
  rw [at?, labelledAt?_write hidden, plainAt?, no_id, plainFrom?, plain]
  simp only [Option.bind_eq_bind, Option.bind_some, pipedLabel_word h, taken_append]
  rfl

end
end Link

namespace Chain
open Link

theorem quiet_of_plain {c : Char} (plain : isPlainChar c = true) (s : Text) : Quiet (c :: s) := by
  refine quiet_of_head (fun here => ?_) s
  have strokes : ∀ d ∈ ['-', '=', '~'], isStroke d = true := by decide
  have apart := isStroke_of_isPlainChar plain
  rw [strokes c here] at apart
  cases apart

theorem ne_of_plain {c d : Char} (plain : isPlainChar c = true) (mark : isIdChar d = false) :
    c ≠ d := by
  rintro rfl
  rw [isIdChar_of_isPlainChar plain] at mark
  cases mark

theorem isBlank_of_plain {c : Char} (plain : isPlainChar c = true) : isBlank c = false :=
  isBlank_of_isIdChar (isIdChar_of_isPlainChar plain)

theorem depthNext_plain {c : Char} (plain : isPlainChar c = true) (last : Option Char) :
    depthNext last 0 c = 0 := by
  have letters : Letters [c] := letters_of_isPlainChar (by simpa using plain)
  rw [depthNext_of_ne (ne_of_plain plain (by decide))]
  exact depthAfter_level (letters.level c (by simp)) 0

/-- No link begins inside of a word. What stands before each of its characters is neither a blank
nor an at sign, so not even a letter that marks a tip is read as a mark there. -/
theorem scan_word {w : Text} (h : ∀ c ∈ w, isPlainChar c = true) {b : Char}
    (blank : isBlank b = false) (sign : b ≠ '@') (text rest : Text) :
    scan (some b) text 0 false 0 (w ++ rest) =
      scan (w.getLast?.or (some b)) (w.reverse ++ text) 0 false 0 rest := by
  induction w generalizing b text with
  | nil => rfl
  | cons c w ih =>
    have plain := h c List.mem_cons_self
    have no_link : Link.at? (some b) (c :: (w ++ rest)) = none :=
      at?_attached blank sign (ne_of_plain plain (by decide)) (quiet_of_plain plain _)
    rw [List.cons_append, scan_past (ne_of_plain plain (by decide)) (fun _ => no_link),
      depthNext_plain plain, ih (fun d hd => h d (List.mem_cons_of_mem c hd))
        (isBlank_of_plain plain) (ne_of_plain plain (by decide)), getLast?_cons_or]
    simp

theorem scan_last_word {w : Text} (h : ∀ c ∈ w, isPlainChar c = true) {b : Char}
    (blank : isBlank b = false) (sign : b ≠ '@') : scan (some b) [] 0 false 0 w = ⟨w, []⟩ := by
  have all := scan_word h blank sign [] []
  rw [List.append_nil, List.append_nil] at all
  rw [all, scan, List.reverse_reverse, trim_tight (letters_of_isPlainChar h).tight]

section
variable {stroke : Stroke} {s t : Text} {length : Int}

theorem begins_word (h : PlainId t) : Begins t := by
  obtain ⟨c, u, rfl⟩ := List.exists_cons_of_ne_nil h.some_text
  exact ⟨c, u, rfl, h.chars c List.mem_cons_self⟩

theorem no_sign_word (h : PlainId t) : '@' ∉ t := h.nodeId.letters.plain.sign

/-- What stands before an arrow that a word adjoins is a node text, and the word is the other. -/
theorem scan_arrow (visible : stroke ≠ .invisible) (ht : PlainId t) {source : Tip}
    {before : Option Char} (marked : ∀ c s, c = '-' ∨ c = '=' →
      afterSourceMark before (source.startMark ++ c :: s) = c :: s) (text : Text) :
    scan before text 0 false 0 (Operator.write stroke source .arrow length ++ t) =
      ⟨trim text.reverse, [(⟨Operator.write stroke source .arrow length, none, none⟩, t)]⟩ := by
  have found := at?_arrow visible length (begins_word ht) (no_sign_word ht) marked
  obtain ⟨u, last⟩ : ∃ u, Operator.write stroke source .arrow length = u ++ ['>'] :=
    ⟨_, (Operator.write_eq visible source .arrow length).trans (List.append_assoc ..).symm⟩
  obtain ⟨a, v, first⟩ := List.exists_cons_of_ne_nil (l := u ++ ['>']) (by simp)
  have no_quote : a ≠ '"' := by
    have symbol := Operator.isSymbol_write stroke source .arrow length a (by simp [last, first])
    rintro rfl
    exact absurd symbol (by decide)
  have after : v.getLast?.or (some a) = some '>' := by
    rw [← getLast?_cons_or a v none, ← first, List.getLast?_concat]
    rfl
  rw [last, first, List.cons_append] at found ⊢
  rw [scan_link no_quote found, after, scan_last_word ht.chars (by decide) (by decide)]

theorem chars_adjoined (hs : PlainId s) (ht : PlainId t) (stroke : Stroke) (length : Int) :
    ∀ c ∈ adjoined s (Operator.write stroke .none .arrow length) t,
      isBlank c = false ∧ c ∉ ['%', ';', '@'] := by
  have word {c : Char} (plain : isPlainChar c = true) :
      isBlank c = false ∧ c ∉ ['%', ';', '@'] := by
    have apart := of_isPlainChar (p := fun c => !isBlank c && c ∉ ['%', ';', '@']) (by decide) plain
    simpa using apart
  have symbols : ∀ c ∈ ("<>ox-=.~" : String).toList, isBlank c = false ∧ c ∉ ['%', ';', '@'] := by
    decide
  intro c hc
  rcases List.mem_append.mp hc with hc | hc
  · exact word (hs.chars c hc)
  · rcases List.mem_append.mp hc with hc | hc
    · have symbol := Operator.isSymbol_write _ _ _ _ c hc
      exact symbols c (by simpa only [Operator.isSymbol, decide_eq_true_eq] using symbol)
    · exact word (ht.chars c hc)

theorem no_sign_adjoined (hs : PlainId s) (ht : PlainId t) (stroke : Stroke) (length : Int) :
    '@' ∉ adjoined s (Operator.write stroke .none .arrow length) t :=
  fun here => (chars_adjoined hs ht stroke length '@' here).2 (by simp)

/-- An arrow that adjoins words on both sides is found between them. -/
theorem ofLine_adjoining (visible : stroke ≠ .invisible) (hs : PlainId s) (ht : PlainId t)
    (apart : s ∉ ["o".toList, "x"]) :
    ofLine (adjoined s (Operator.write stroke .none .arrow length) t) =
      ⟨s, [(⟨Operator.write stroke .none .arrow length, none, none⟩, t)]⟩ := by
  have letters := hs.nodeId.letters
  have no_sign := no_sign_adjoined hs ht stroke length
  obtain ⟨c, w, rfl⟩ := List.exists_cons_of_ne_nil hs.some_text
  have plain := hs.chars c List.mem_cons_self
  have no_link : Link.at? none (c :: (w ++ (Operator.write stroke .none .arrow length ++ t))) =
      none := by
    refine at?_quiet (ne_of_plain plain (by decide)) (quiet_of_plain plain _) (fun letter => ?_)
      (Or.inr fun r sign => ?_)
    · -- A letter marks a tip only right before a run, so the id would be this letter alone.
      cases w with
      | nil => rcases letter with rfl | rfl <;> exact absurd (by decide) apart
      | cons d w => exact quiet_of_plain (hs.chars d (by simp)) _
    · exact absurd ((List.dropWhile_suffix _).subset (sign ▸ List.mem_cons_self)) no_sign
  have marked (b : Option Char) : ∀ c s, c = '-' ∨ c = '=' →
      afterSourceMark b (Tip.none.startMark ++ c :: s) = c :: s := by
    rintro c s (rfl | rfl) <;> rfl
  have later : ∀ d ∈ w, isPlainChar d = true := fun d hd => hs.chars d (List.mem_cons_of_mem c hd)
  rw [adjoined, ofLine, List.cons_append, scan_past (ne_of_plain plain (by decide))
    (fun _ => no_link), depthNext_plain plain, scan_word later (isBlank_of_plain plain)
      (ne_of_plain plain (by decide)), scan_arrow visible ht (marked _)]
  have whole : trim (w.reverse ++ [c]).reverse = c :: w := by
    simpa using trim_tight letters.tight
  rw [whole]

/-- A letter that marks a tip is read as the mark of the arrow that adjoins it. -/
theorem ofLine_marked (visible : stroke ≠ .invisible) (ht : PlainId t)
    (mark : s ∈ ["o".toList, "x"]) (length : Int) : ∃ source : Tip, s = source.startMark ∧
      ofLine (adjoined s (Operator.write stroke .none .arrow length) t) =
        ⟨[], [(⟨Operator.write stroke source .arrow length, none, none⟩, t)]⟩ := by
  obtain ⟨source, rfl, marked⟩ : ∃ source : Tip, s = source.startMark ∧ ∀ c s, c = '-' ∨ c = '=' →
      afterSourceMark none (source.startMark ++ c :: s) = c :: s := by
    rcases List.mem_cons.mp mark with rfl | mark
    · exact ⟨.circle, rfl, fun _ _ _ => rfl⟩
    · obtain rfl := List.mem_singleton.mp mark
      exact ⟨.cross, rfl, fun _ _ _ => rfl⟩
  have whole : adjoined source.startMark (Operator.write stroke .none .arrow length) t =
      Operator.write stroke source .arrow length ++ t := by
    rw [adjoined, Operator.write_eq visible, Operator.write_eq visible]
    simp [Tip.startMark]
  exact ⟨source, rfl, by rw [whole, ofLine, scan_arrow visible ht marked]; rfl⟩

end
end Chain

/-! ### Lines without blanks -/

section
variable {stroke : Stroke} {s t : Text} {n : Int}
open Chain

theorem line_adjoined (hs : PlainId s) (ht : PlainId t) (stroke : Stroke) (n : Int) :
    Line (adjoined s (Operator.write stroke .none .arrow n) t) := by
  have chars := chars_adjoined hs ht stroke n
  refine ⟨.of_chars fun c hc => ?_, tight_of_stops fun c hc => (chars c hc).1, ?_, fun last => ?_⟩
  · refine ⟨isLineBreak_of_not_isBlank (chars c hc).1, fun percent => (chars c hc).2 ?_⟩
    simp [percent]
  · simp [adjoined, hs.some_text]
  · exact (chars ';' (List.mem_of_getLast? last)).2 (by simp)

theorem Reading.read_adjoined (visible : stroke ≠ .invisible) (hs : PlainId s) (ht : PlainId t)
    (r : Reading) : r.read (.ofLine (adjoined s (Operator.write stroke .none .arrow n) t)) =
      r.readChain (adjoined s (Operator.write stroke .none .arrow n) t) := by
  obtain ⟨c, hc, ⟨u, first⟩, _⟩ := Operator.body_ends visible .arrow n
  have whole : adjoined s (Operator.write stroke .none .arrow n) t = s ++ c :: (u ++ '>' :: t) := by
    rw [adjoined, Operator.write_eq visible, first]
    simp [Tip.startMark, Tip.endMark]
  have begins : Statement.firstWord (adjoined s (Operator.write stroke .none .arrow n) t) ∉
      Statement.keywords := by
    rw [whole]
    refine Statement.firstWord_of_mark hs.nodeId.isBlank ?_ ?_
    · rcases hc with rfl | rfl <;> decide
    · rcases hc with rfl | rfl <;> decide
  refine read_chain begins (Or.inr (Statement.properties?_of_no_sign fun r sign => ?_))
  exact no_sign_adjoined hs ht stroke n
    ((List.dropWhile_suffix _).subset (sign ▸ List.mem_cons_self))

/-- The link of an arrow without a label. -/
def Link.arrow (stroke : Stroke) (length : Int) : Link :=
  ⟨Operator.write stroke .none .arrow length, none, none⟩

theorem spelled_arrow (stroke : Stroke) (n : Int) :
    (Link.arrow stroke n).spelled = Operator.write stroke .none .arrow n := List.append_nil _

theorem spaced_eq (stroke : Stroke) (n : Int) (s t : Text) :
    spaced s (Operator.write stroke .none .arrow n) t = (Link.arrow stroke n).between s t := by
  rw [spaced, Link.between, spelled_arrow]

theorem found_arrow (visible : stroke ≠ .invisible) (n : Int) : (Link.arrow stroke n).Found :=
  Link.found_write (fun e => absurd e visible) n (by simp) (by simp)

theorem read?_arrow (visible : stroke ≠ .invisible) (n : Int) :
    Operator.read? (Link.arrow stroke n).symbols = some
      { symbols := Operator.write stroke .none .arrow n, stroke, source := .none, target := .arrow
        length := (max 1 n).toNat, label := none } :=
  Operator.read?_write (fun e => absurd e visible) n

theorem Reading.read_adjoined_eq (visible : stroke ≠ .invisible) (hs : PlainId s) (ht : PlainId t)
    (apart : s ∉ ["o".toList, "x"]) (r : Reading) :
    r.read (.ofLine (adjoined s (Operator.write stroke .none .arrow n) t)) =
      r.read (.ofLine (spaced s (Operator.write stroke .none .arrow n) t)) := by
  have reads : (Operator.read? (Link.arrow stroke n).symbols).isSome := by
    rw [read?_arrow visible]
    rfl
  rw [spaced_eq, read_adjoined visible hs ht,
    readChain_single reads (ofLine_adjoining visible hs ht apart) hs.nodeId ht.nodeId,
    read_between (found_arrow visible n) reads hs.nodeId ht.nodeId]

/-- An arrow needs no blanks around it: the line without them is read as the line with them,
whatever was read before, and as a text each of them gives one edge between the two nodes. Only if
the first id is a letter that marks a tip, the line without blanks is skipped. -/
theorem arrow_needs_no_blanks (visible : stroke ≠ .invisible) {op : Text}
    (built : Operator.build stroke .none .arrow n = .ok op) (hs : PlainId s) (ht : PlainId t) :
    (s ∉ ["o".toList, "x"] →
      (∀ r : Reading, r.read (.ofLine (adjoined s op t)) = r.read (.ofLine (spaced s op t))) ∧
      ∀ (direction : Direction) (margin : Text), Indent margin → ∀ strict, ∃ r e,
        Reading.ofText strict
          (assemble [([], heading direction), (margin, adjoined s op t)]) = .ok r ∧
        Reading.ofText strict
          (assemble [([], heading direction), (margin, spaced s op t)]) = .ok r ∧
        r.diagram.edges = [e] ∧ e.source = .text s ∧ e.target = .text t ∧ e.text = .null ∧
        e.stroke = stroke ∧ e.sourceTip = .none ∧ e.targetTip = .arrow ∧
        e.length = .number (.int (max 1 n)) ∧
        ∀ id, r.diagram.hasNode id ↔ id = .text s ∨ id = .text t) ∧
    (s ∈ ["o".toList, "x"] → ∀ r : Reading, r.read (.ofLine (adjoined s op t)) =
      .ok (r.note (.unreadableNode [] (adjoined s op t)))) := by
  obtain rfl := Operator.eq_write_of_build built
  refine ⟨fun apart => ?_, fun mark r => ?_⟩
  · have alike := Reading.read_adjoined_eq (n := n) visible hs ht apart
    refine ⟨alike, fun direction margin indent strict => ?_⟩
    have inline : Inline (Link.arrow stroke n).spelled := by
      rw [spelled_arrow]
      exact .of_chars (unbroken_write stroke .none .arrow n)
    obtain ⟨r, e, told, edges, from_s, to_t, text, stroke', source, target, length, nodes⟩ :=
      Reading.ofText_between (found_arrow visible n) (read?_arrow visible n) rfl inline hs.nodeId
        ht.nodeId direction indent strict
    rw [← spaced_eq] at told
    have line : Line (spaced s (Operator.write stroke .none .arrow n) t) := by
      rw [spaced_eq]
      exact hs.nodeId.line.between inline ht.nodeId.line
    have told' := told
    rw [← Reading.ofText_alike (line_adjoined hs ht stroke n) line alike direction indent strict]
      at told'
    refine ⟨r, e, told', told, edges, from_s, to_t, text, stroke', source, target, ?_, nodes⟩
    have same : (((max 1 n).toNat : Nat) : Int) = max 1 n := by omega
    rw [length, same]
  · obtain ⟨source, rfl, whole⟩ := ofLine_marked visible ht mark n
    rw [Reading.read_adjoined visible hs ht, Reading.readChain, whole]
    rfl

theorem thick_arrow_needs_no_blanks :
    (∃ r e, Reading.ofText true "flowchart LR\n  foo_o===>x1\n" = .ok r ∧
      Reading.ofText true "flowchart LR\n  foo_o ===> x1\n" = .ok r ∧
      r.diagram.edges = [e] ∧ e.source = .text "foo_o" ∧ e.target = .text "x1" ∧
      e.stroke = .thick ∧ e.length = .number (.int 2) ∧
      ∀ id, r.diagram.hasNode id ↔ id = .text "foo_o" ∨ id = .text "x1") ∧
    ∀ r : Reading, r.read (.ofLine "o===>x1") = .ok (r.note (.unreadableNode [] "o===>x1")) := by
  have visible : Stroke.thick ≠ .invisible := by decide
  have built : Operator.build .thick .none .arrow 2 = .ok "===>" := by decide
  have foo : PlainId "foo_o" := ⟨by decide, by decide, by decide⟩
  have circle : PlainId "o" := ⟨by decide, by decide, by decide⟩
  have target : PlainId "x1" := ⟨by decide, by decide, by decide⟩
  refine ⟨?_, (arrow_needs_no_blanks visible built circle target).2 (by decide)⟩
  obtain ⟨r, e, told, told', edges, from_s, to_t, _, stroke, _, _, length, nodes⟩ :=
    ((arrow_needs_no_blanks visible built foo target).1 (by decide)).2 .lr "  " (by decide) true
  exact ⟨r, e, told, told', edges, from_s, to_t, stroke, length, nodes⟩

/-- Not every arrow can do without the blanks: a letter that marks a tip is no node where the arrow
adjoins it. -/
theorem arrow_takes_adjoining_letter : ¬ ∀ (stroke : Stroke) (n : Int) (op s t : Text),
    stroke ≠ .invisible → 1 ≤ n → Operator.build stroke .none .arrow n = .ok op → PlainId s →
      PlainId t → ∃ d d',
        Diagram.read (assemble [([], heading .tb), ("    ", adjoined s op t)]) = .ok d ∧
        Diagram.read (assemble [([], heading .tb), ("    ", spaced s op t)]) = .ok d' ∧
        d.nodes = d'.nodes ∧ d.edges = d'.edges := by
  intro same
  obtain ⟨d, d', read, read', _, edges⟩ := same .normal 1 "-->" "x" "B" (by decide) (by decide)
    (by decide) ⟨by decide, by decide, by decide⟩ ⟨by decide, by decide, by decide⟩
  have none_there : (Diagram.read "flowchart TB\n    x-->B\n").map (·.edges.length) = .ok 0 := by
    decide +kernel
  have one_there : (Diagram.read "flowchart TB\n    x --> B\n").map (·.edges.length) = .ok 1 := by
    decide +kernel
  have text : assemble [([], heading .tb), ("    ", adjoined "x" "-->" "B")] =
      "flowchart TB\n    x-->B\n".toList := by decide
  have text' : assemble [([], heading .tb), ("    ", spaced "x" "-->" "B")] =
      "flowchart TB\n    x --> B\n".toList := by decide
  rw [← text, read] at none_there
  rw [← text', read'] at one_there
  have none_here : d.edges.length = 0 := Except.ok.inj none_there
  have one_here : d'.edges.length = 1 := Except.ok.inj one_there
  rw [edges] at none_here
  omega

end
end Flowchart
