import Flowchart.Proofs.Quoting
import Flowchart.Shape.Bracketed

/-! A node that is written with brackets is read back with its id, its text and its shape. The
table of brackets is read from its beginning, so what matters is which entries fit what another
one writes: none that stands before it, since a written text begins and ends with no character
that brackets are made of. -/
namespace Flowchart
open Text

theorem findSome?_of_find? {α β : Type} {p : α → Bool} {f : α → Option β} {b : α} {xs : List α}
    {y : β} (first : xs.find? p = some b) (others : ∀ x ∈ xs, p x = false → f x = none)
    (hit : f b = some y) : xs.findSome? f = some y := by
  induction xs with
  | nil => cases first
  | cons x xs ih =>
    cases hx : p x with
    | true =>
      rw [List.find?_cons_of_pos hx] at first
      rw [Option.some.inj first]
      simp [hit]
    | false =>
      rw [List.find?_cons_of_neg (by simp [hx])] at first
      rw [List.findSome?_cons_of_isNone (by simp [others x List.mem_cons_self hx])]
      exact ih first fun y hy => others y (List.mem_cons_of_mem x hy)

namespace Brackets

/-- Could the second brackets be seen where the first are written? -/
def fits (b k : Brackets) : Bool := k.opening.isPrefixOf b.opening && k.closing.isSuffixOf b.closing

/-- Is the character one that brackets are made of? -/
def isMark (c : Char) : Bool := c ∈ ("[]()\x7b\x7d>|\\/" : String).toList

theorem find?_fits : ∀ b ∈ Shape.brackets, Shape.brackets.find? b.fits = some b := by decide

theorem brackets?_shape : ∀ b ∈ Shape.brackets, b.shape.brackets? = some b := by decide

theorem isMark_opening : ∀ b ∈ Shape.brackets, ∀ c ∈ b.opening, isMark c = true := by decide

theorem isMark_closing : ∀ b ∈ Shape.brackets, ∀ c ∈ b.closing, isMark c = true := by decide

theorem opening_ne_nil : ∀ b ∈ Shape.brackets, b.opening ≠ [] := by decide

theorem closing_ne_nil : ∀ b ∈ Shape.brackets, b.closing ≠ [] := by decide

end Brackets

/-- Text that may stand between brackets: it begins and ends with no character that brackets are
made of. -/
structure Encloseable (q : Text) : Prop where
  some_text : q ≠ []
  start : Stops Brackets.isMark q
  finish : Stops Brackets.isMark q.reverse

namespace Brackets
variable {b k : Brackets} {q : Text}

theorem getLast?_closing (hb : b ∈ Shape.brackets) (s : Text) :
    (s ++ b.closing).getLast? = b.closing.getLast? :=
  List.getLast?_append_of_ne_nil _ (closing_ne_nil b hb)

/-- What is enclosed does not begin with a mark, so brackets that are seen to open are opened by
a part of the brackets that do. -/
theorem of_opened (hk : k ∈ Shape.brackets) (hq : Encloseable q) {r : Text}
    (opened : after? k.opening (b.opening ++ q ++ b.closing) = some r) :
    ∃ more, b.opening = k.opening ++ more ∧ r = more ++ q ++ b.closing := by
  rw [after?_eq_some_iff, List.append_assoc] at opened
  have opens : k.opening <+: b.opening := by
    refine prefix_of_prefix_append ⟨r, opened.symm⟩ fun c first here => ?_
    have head : q.head? = some c := by
      rwa [List.head?_append_of_ne_nil _ hq.some_text] at first
    have := hq.start c head
    rw [isMark_opening k hk c here] at this
    cases this
  obtain ⟨more, whole⟩ := opens
  refine ⟨more, whole.symm, ?_⟩
  rw [← whole, List.append_assoc] at opened
  rw [List.append_assoc]
  exact (List.append_cancel_left opened).symm

theorem not_seen (hb : b ∈ Shape.brackets) (hk : k ∈ Shape.brackets) (hq : Encloseable q)
    (h : b.fits k = false) {r : Text}
    (opened : after? k.opening (b.opening ++ q ++ b.closing) = some r) :
    beforeFinal? k.closing r = none := by
  obtain ⟨more, opens, rfl⟩ := of_opened hk hq opened
  refine beforeFinal?_eq_none (fun closes => ?_) fun feed => ?_
  · have closes : k.closing <:+ b.closing := by
      refine suffix_of_suffix_append closes fun c final here => ?_
      have final : q.reverse.head? = some c := by
        rwa [List.getLast?_append_of_ne_nil _ hq.some_text, ← List.head?_reverse] at final
      have := hq.finish c final
      rw [isMark_closing k hk c here] at this
      cases this
    rw [fits, List.isPrefixOf_iff_prefix.mpr ⟨more, opens.symm⟩,
      List.isSuffixOf_iff_suffix.mpr closes] at h
    cases h
  · rw [getLast?_closing hb] at feed
    have mark := isMark_closing b hb '\n' (List.mem_of_getLast? feed)
    exact absurd mark (by decide)

end Brackets

theorem readBracketed?_write {id q : Text} {b : Brackets} (hb : b ∈ Shape.brackets)
    (some_id : id ≠ []) (hid : ∀ c ∈ id, isIdChar c = true) (hq : Encloseable q) :
    readBracketed? (id ++ b.opening ++ q ++ b.closing) = some (id, q, b.shape) := by
  have stops : Stops isIdChar (b.opening ++ q ++ b.closing) := by
    have no_id : ∀ b ∈ Shape.brackets, b.opening.head?.all fun c => !isIdChar c := by decide
    intro c first
    rw [List.append_assoc, List.head?_append_of_ne_nil _ (Brackets.opening_ne_nil b hb)] at first
    simpa [first] using no_id b hb
  have whole : id ++ b.opening ++ q ++ b.closing = id ++ (b.opening ++ q ++ b.closing) := by simp
  have not_empty : id.isEmpty = false := by simpa using some_id
  rw [whole, readBracketed?]
  simp only [takeWhile_stop hid stops, dropWhile_stop hid stops, not_empty, Bool.false_eq_true,
    if_false]
  refine findSome?_of_find? (Brackets.find?_fits b hb) (fun k hk other => ?_) ?_
  · cases opened : after? k.opening (b.opening ++ q ++ b.closing) with
    | none => rfl
    | some r =>
      have closed := Brackets.not_seen hb hk hq other opened
      simp only [Option.bind_eq_bind, Option.bind_some, closed, Option.bind_none]
  · rw [List.append_assoc, after?_append]
    simp only [Option.bind_eq_bind, Option.bind_some, beforeFinal?_append]
    rfl

theorem encloseable_inQuotes (s : Text) : Encloseable ('"' :: s ++ ['"']) := by
  have quote : Brackets.isMark '"' = false := by decide
  exact ⟨List.cons_ne_nil _ _, by simpa using quote, by simpa using quote⟩

theorem encloseable_bare {delimiters : List Text} {s : Text} (h : Quoted.Bare delimiters s) :
    Encloseable s := by
  have no_mark : ∀ c, Brackets.isMark c = true → c ∉ s := by
    intro c mark
    have special : Quoted.isSpecial c = true := by
      have marks : ∀ d ∈ ("[]()\x7b\x7d>|\\/" : String).toList, Quoted.isSpecial d = true := by
        decide
      exact marks c (by simpa only [Brackets.isMark, decide_eq_true_eq] using mark)
    exact h.not_mem special
  refine ⟨h.some_text, stops_of_not_mem no_mark, stops_of_not_mem fun c mark here => ?_⟩
  exact no_mark c mark (List.mem_reverse.mp here)

theorem encloseable_quote (delimiters : List Text) (s : Text) :
    Encloseable (Quoted.quote delimiters s) := by
  rcases Quoted.quote_cases delimiters s with form | form | ⟨form, bare, _⟩
  · rw [form]
    exact encloseable_inQuotes _
  · have markdown :
        Quoted.asMarkdown s = '"' :: ('\x60' :: Quoted.escape s ++ ['\x60']) ++ ['"'] := by
      simp [Quoted.asMarkdown]
    rw [form, markdown]
    exact encloseable_inQuotes _
  · rw [form]
    exact encloseable_bare bare

theorem writeBracketed_eq {b : Brackets} (hb : b ∈ Shape.brackets) (text : Text) :
    writeBracketed b.shape text = Quoted.quote [b.opening, b.closing] text := by
  rw [writeBracketed, Brackets.brackets?_shape b hb]
  rfl

theorem unquote_writeBracketed {b : Brackets} (hb : b ∈ Shape.brackets) {text : Text}
    (h : '\r' ∉ text) : Quoted.unquote (writeBracketed b.shape text) = .ok text := by
  rw [writeBracketed_eq hb]
  exact Quoted.unquote_quote [b.opening, b.closing] h

/-- A node that is written with the brackets of its shape is read with its id, its shape and what
stands between the brackets. -/
theorem readBracketed?_writeBracketed {id : Text} {b : Brackets} (hb : b ∈ Shape.brackets)
    (some_id : id ≠ []) (hid : ∀ c ∈ id, isIdChar c = true) (text : Text) :
    readBracketed? (id ++ b.opening ++ writeBracketed b.shape text ++ b.closing) =
      some (id, writeBracketed b.shape text, b.shape) := by
  rw [writeBracketed_eq hb]
  exact readBracketed?_write hb some_id hid (encloseable_quote _ _)

/-- Whatever its text is, a node with the brackets of its shape is read as it was written. -/
theorem bracketed_node_reads_back {shape : Shape} {b : Brackets} (known : shape.brackets? = some b)
    {id text : Text} (some_id : id ≠ []) (hid : ∀ c ∈ id, isIdChar c = true) (h : '\r' ∉ text) :
    readBracketed? (id ++ b.opening ++ writeBracketed shape text ++ b.closing) =
      some (id, writeBracketed shape text, shape) ∧
    Quoted.unquote (writeBracketed shape text) = .ok text := by
  have hb : b ∈ Shape.brackets := List.mem_of_find?_eq_some known
  obtain rfl : b.shape = shape := by simpa using List.find?_some known
  constructor
  · exact readBracketed?_writeBracketed hb some_id hid text
  · exact unquote_writeBracketed hb h

theorem leaning_node_reads_back :
    readBracketed? ("n-1".toList ++ "[/".toList ++
      writeBracketed .leanRight "/] \"a\" #35; [b" ++ "\\]".toList) =
      some ("n-1".toList, writeBracketed .leanRight "/] \"a\" #35; [b", .leanRight) ∧
    Quoted.unquote (writeBracketed .leanRight "/] \"a\" #35; [b") =
      .ok "/] \"a\" #35; [b" := by
  have known : Shape.leanRight.brackets? = some ⟨"[/", "\\]", .leanRight⟩ := by decide
  exact bracketed_node_reads_back known (by decide) (by decide) (by decide)

end Flowchart
