import Flowchart.Proofs.Keyed
import Flowchart.Proofs.Operators
import Flowchart.Proofs.Results
import Flowchart.Proofs.Texts
import Flowchart.Source.Reading
import Mathlib.Data.List.TakeWhile

/-! What is taken out of a line. The words of a statement, the nodes and the links of a chain, the
properties in braces and the declarations of a style stand in the line, each as a run of neighbours.
Some of them are kept as they stand there, others are decoded. -/
namespace Flowchart

namespace Text
variable {sep : Char} {s t a b : Text}

theorem infix_trim (s : Text) : trim s <:+: s := by
  obtain ⟨b, e, whole, _, _⟩ := exists_trim s
  exact ⟨b, e, whole.symm⟩

theorem prefix_dropTrailing (p : Char → Bool) (s : Text) : dropTrailing p s <+: s := by
  rw [dropTrailing, ← List.reverse_suffix, List.reverse_reverse]
  exact List.dropWhile_suffix p

/-- A text begins with as many of a character as it has before another one. -/
theorem exists_run (c : Char) (s : Text) :
    ∃ n, s = List.replicate n c ++ s.dropWhile (· == c) := by
  have run : s.takeWhile (· == c) = List.replicate (s.takeWhile (· == c)).length c :=
    List.eq_replicate_iff.mpr ⟨rfl, fun d hd => by simpa using List.mem_takeWhile_imp hd⟩
  exact ⟨_, by rw [← run, List.takeWhile_append_dropWhile]⟩
theorem after?_suffix (h : after? a s = some t) : t <:+ s := ⟨a, (after?_eq_some_iff.mp h).symm⟩

theorem prefix_before? (h : before? a s = some t) : t <+: s := ⟨a, (before?_eq_some_iff.mp h).symm⟩

theorem prefix_beforeFinal? (h : beforeFinal? a s = some t) : t <+: s := by
  unfold beforeFinal? at h
  cases first : before? a s with
  | none =>
    rw [first] at h
    exact prefix_before? h
  | some u =>
    rw [first] at h
    cases h
    exact prefix_before? first

theorem afterBlanks?_suffix (h : afterBlanks? s = some t) : t <:+ s := by
  cases s with
  | nil => cases h
  | cons c s =>
    rw [afterBlanks?] at h
    split at h
    · cases h
      exact (List.dropWhile_suffix _).trans (List.suffix_cons c s)
    · cases h

theorem word_parts (s : Text) : (word s).1 <+: s ∧ (word s).2 <:+ s := by
  rw [word, List.span_eq_takeWhile_dropWhile]
  exact ⟨List.takeWhile_prefix _, List.dropWhile_suffix _⟩

theorem halves?_parts (h : halves? sep s = some (a, b)) : a <+: s ∧ b <:+ s := by
  induction s generalizing a with
  | nil => cases h
  | cons c s ih =>
    rw [halves?] at h
    split at h
    · cases h
      exact ⟨List.nil_prefix, List.suffix_cons c _⟩
    · obtain ⟨⟨a', b'⟩, rest, whole⟩ := Option.map_eq_some_iff.mp h
      cases whole
      obtain ⟨first, last⟩ := ih rest
      exact ⟨List.cons_prefix_cons.mpr ⟨rfl, first⟩, last.trans (List.suffix_cons c s)⟩

/-- The first of the pieces begins the text, and the others stand in it. -/
def Splits (s : Text) (ps : List Text) : Prop :=
  ∃ p qs, ps = p :: qs ∧ p <+: s ∧ ∀ q ∈ qs, q <:+: s

namespace Splits
variable {ps : List Text}

theorem nil : Splits [] [[]] := ⟨[], [], rfl, List.nil_prefix, by simp⟩

theorem inside (h : Splits s ps) : ∀ p ∈ ps, p <:+: s := by
  obtain ⟨p, qs, rfl, first, others⟩ := h
  intro q hq
  rcases List.mem_cons.mp hq with rfl | hq
  · exact first.isInfix
  · exact others q hq

/-- The text is cut before a character. -/
theorem cut (h : Splits s ps) (c : Char) : Splits (c :: s) ([] :: ps) :=
  ⟨[], ps, rfl, List.nil_prefix, fun q hq => List.infix_cons (h.inside q hq)⟩

/-- A character belongs to the first piece. -/
theorem cons (c : Char) : Splits s ps → Splits (c :: s) (match ps with
    | [] => [[c]]
    | p :: qs => (c :: p) :: qs) := by
  rintro ⟨p, qs, rfl, first, others⟩
  exact ⟨c :: p, qs, rfl, List.cons_prefix_cons.mpr ⟨rfl, first⟩,
    fun q hq => List.infix_cons (others q hq)⟩

end Splits

theorem splits_pieces (sep : Char) (s : Text) : Splits s (pieces sep s) := by
  induction s with
  | nil => exact .nil
  | cons c s ih =>
    rw [pieces]
    split
    · exact ih.cut c
    · exact .cons c ih

theorem infix_pieces (h : t ∈ pieces sep s) : t <:+: s := (splits_pieces sep s).inside t h

end Text
open Text

/-! ### Quoted texts -/

/-- The line tells the text: it stands in the line, as it is or in codes. -/
def Told (line t : Text) : Prop :=
  ∃ part, part <:+: line ∧ (t = part ∨ Entity.decode part = .ok t)

namespace Told
variable {s line t : Text}

theorem part (h : t <:+: line) : Told line t := ⟨t, h, Or.inl rfl⟩

theorem decoded (h : s <:+: line) (decoded : Entity.decode s = .ok t) : Told line t :=
  ⟨s, h, Or.inr decoded⟩

theorem mono (h : Told s t) (inner : s <:+: line) : Told line t := by
  obtain ⟨part, here, how⟩ := h
  exact ⟨part, here.trans inner, how⟩

end Told

namespace Quoted
variable {sep : Char} {s t body : Text}

theorem infix_peel (s : Text) : peel s <:+: s := by
  have inner : ∀ t : Text, t.dropLast <:+: t := fun t => (List.dropLast_prefix t).isInfix
  unfold peel
  split
  · exact ((inner _).trans (inner _)).trans (List.drop_suffix 2 s).isInfix
  · split
    · split
      · exact List.infix_cons (inner _)
      · exact List.infix_refl _
    · exact List.infix_refl _

theorem told_unquote (h : unquote s = .ok t) : Told s t :=
  .decoded ((infix_peel _).trans (infix_trim s)) h

theorem splits_splitFrom (sep : Char) (open? : Option Char) (s : Text) :
    Splits s (splitFrom sep open? s) := by
  induction s generalizing open? with
  | nil => exact .nil
  | cons c s ih =>
    have step (mark : Bool) (after : Option Char) : Splits (c :: s)
        (if mark then [] :: splitFrom sep none s else match splitFrom sep after s with
          | [] => [[c]]
          | p :: ps => (c :: p) :: ps) := by
      split
      · exact (ih none).cut c
      · exact .cons c (ih after)
    exact step _ _

theorem infix_split (h : t ∈ split sep s) : t <:+: s := (splits_splitFrom sep none s).inside t h

theorem told_properties {found : List (Text × Text)} (h : properties body = .ok found) :
    ∀ p ∈ found, Told body p.2 := by
  refine foldlM_inv (P := fun found : List (Text × Text) => ∀ p ∈ found, Told body p.2) ?_
    (by simp) h
  intro found piece more here told one
  rw [properties.property] at one
  split at one
  · cases one
    exact told
  · rename_i key value halves
    split at one
    · cases one
      exact told
    · obtain ⟨t, read, made⟩ := bind_eq_ok.mp one
      cases made
      have inner := (halves?_parts halves).2.isInfix.trans (infix_split here)
      exact Keyed.forall_mem_put ((told_unquote read).mono inner) told

end Quoted

/-! ### Statements -/

namespace Statement
variable {line s w r : Text}

theorem infix_afterKeyword? {keyword : Text} (h : afterKeyword? keyword line = some r) :
    r <:+: line := by
  obtain ⟨_, after, blanks⟩ := Option.bind_eq_some_iff.mp h
  exact ((afterBlanks?_suffix blanks).trans (after?_suffix after)).isInfix

theorem wordAndRest?_parts (h : wordAndRest? s = some (w, r)) : w <:+: s ∧ r <:+: s := by
  simp only [wordAndRest?, Option.bind_eq_bind, Option.bind_eq_some_iff] at h
  obtain ⟨rest, blanks, h⟩ := h
  split at h
  · cases h
  · cases h
    obtain ⟨first, last⟩ := word_parts s
    exact ⟨first.isInfix, ((afterBlanks?_suffix blanks).trans last).isInfix⟩

theorem quoted?_parts (h : quoted? s = some (w, r)) : w <:+: s ∧ r <:+: s ∧ '"' ∉ w := by
  simp only [quoted?, Option.bind_eq_bind, Option.bind_eq_some_iff] at h
  obtain ⟨inner, after, h⟩ := h
  have inside := (after?_suffix after).isInfix
  split at h
  · cases h
  · rename_i c rest found
    cases h
    have last : r <:+ inner := by
      refine (List.suffix_cons c r).trans ?_
      rw [← found]
      exact List.dropWhile_suffix _
    refine ⟨(List.takeWhile_prefix _).isInfix.trans inside, last.isInfix.trans inside, fun here => ?_⟩
    exact absurd (List.mem_takeWhile_imp here) (by simp)

theorem infix_braced? (h : braced? s = some w) : w <:+: s := by
  obtain ⟨_, after, before⟩ := Option.bind_eq_some_iff.mp h
  exact (prefix_beforeFinal? before).isInfix.trans (after?_suffix after).isInfix

/-- What the statement says stands in the line. -/
def Within (line : Text) : Statement → Prop
  | .close | .direction _ => True
  | .subgraph header => header <:+: line
  | .define names styles => names <:+: line ∧ styles <:+: line
  | .assign _ classes => classes <:+: line
  | .style _ declarations | .linkStyle _ declarations => declarations <:+: line
  | .click _ url tooltip target => url <:+: line ∧ '"' ∉ url ∧ (∀ t ∈ tooltip, t <:+: line) ∧
    ∀ t ∈ target, t <:+: line
  | .properties _ body text => body <:+: line ∧ text = line
  | .chain text => text = line

variable {statement : Statement}

theorem within_subgraph? (h : subgraph? line = some statement) : statement.Within line := by
  obtain ⟨r, after, h⟩ := Option.bind_eq_some_iff.mp h
  split at h
  · cases h
    exact List.nil_infix
  · obtain ⟨header, blanks, rfl⟩ := Option.map_eq_some_iff.mp h
    exact ((afterBlanks?_suffix blanks).trans (after?_suffix after)).isInfix

theorem within_direction? (h : direction? line = some statement) : statement.Within line := by
  obtain ⟨r, after, h⟩ := Option.bind_eq_some_iff.mp h
  split at h
  · cases h
    trivial
  · cases h

theorem within_define? (h : define? line = some statement) : statement.Within line := by
  simp only [define?, Option.bind_eq_bind, Option.bind_eq_some_iff] at h
  obtain ⟨r, after, ⟨names, styles⟩, words, h⟩ := h
  cases h
  have inner := infix_afterKeyword? after
  obtain ⟨first, last⟩ := wordAndRest?_parts words
  exact ⟨first.trans inner, last.trans inner⟩

theorem within_assign? (h : assign? line = some statement) : statement.Within line := by
  simp only [assign?, Option.bind_eq_bind, Option.bind_eq_some_iff] at h
  obtain ⟨r, after, h⟩ := h
  split at h
  · cases h
  · split at h
    · cases h
    · cases h
      have last : (r.reverse.takeWhile fun c => !isBlank c).reverse <:+ r := by
        rw [← List.reverse_prefix, List.reverse_reverse]
        exact List.takeWhile_prefix _
      exact (last.trans (after?_suffix after)).isInfix

theorem within_style? (h : style? line = some statement) : statement.Within line := by
  simp only [style?, Option.bind_eq_bind, Option.bind_eq_some_iff] at h
  obtain ⟨r, after, ⟨id, declarations⟩, words, h⟩ := h
  cases h
  exact (wordAndRest?_parts words).2.trans (infix_afterKeyword? after)

theorem nextPlace?_suffix {place : Text} (h : nextPlace? s = some (place, r)) : r <:+ s := by
  simp only [nextPlace?, Option.bind_eq_bind, Option.bind_eq_some_iff] at h
  obtain ⟨inner, after, h⟩ := h
  obtain ⟨t, comma, rfl⟩ := Option.map_eq_some_iff.mp after
  split at h
  · cases h
  · cases h
    exact (((List.dropWhile_suffix _).trans (List.dropWhile_suffix _)).trans
      (after?_suffix comma)).trans (List.dropWhile_suffix _)

theorem placesFrom_suffix {more : Nat} {found : Text} :
    ∀ way ∈ placesFrom more found s, way.2 <:+ s := by
  induction more generalizing found s with
  | zero => simp [placesFrom]
  | succ more ih =>
    intro way hway
    rw [placesFrom] at hway
    split at hway
    · obtain rfl := List.mem_singleton.mp hway
      exact List.suffix_refl s
    · rename_i place r next
      rcases List.mem_append.mp hway with hway | hway
      · exact (ih way hway).trans (nextPlace?_suffix next)
      · obtain rfl := List.mem_singleton.mp hway
        exact List.suffix_refl s

theorem within_linkStyle? (h : linkStyle? line = some statement) : statement.Within line := by
  simp only [linkStyle?, Option.bind_eq_bind, Option.bind_eq_some_iff] at h
  obtain ⟨r, after, h⟩ := h
  have inner := infix_afterKeyword? after
  split at h
  · rename_i declarations all
    obtain ⟨rest, word, blanks⟩ := Option.bind_eq_some_iff.mp all
    split at h
    · cases h
    · cases h
      exact ((afterBlanks?_suffix blanks).trans (after?_suffix word)).isInfix.trans inner
  · split at h
    · cases h
    · obtain ⟨⟨places, rest⟩, way, h⟩ := List.exists_of_findSome?_eq_some h
      obtain ⟨declarations, blanks, h⟩ := Option.bind_eq_some_iff.mp h
      split at h
      · cases h
      · cases h
        have last := (placesFrom_suffix _ way).trans (List.dropWhile_suffix _)
        exact ((afterBlanks?_suffix blanks).trans last).isInfix.trans inner

theorem within_click? (h : click? line = some statement) : statement.Within line := by
  simp only [click?, Option.bind_eq_bind, Option.bind_eq_some_iff] at h
  obtain ⟨r, after, ⟨id, words⟩, found, ⟨url, rest⟩, quoted, h⟩ := h
  have inner : words <:+: line := (wordAndRest?_parts found).2.trans (infix_afterKeyword? after)
  have opened : ((Text.after? "href" words).bind Text.afterBlanks?).getD words <:+: line := by
    cases href : (Text.after? "href" words).bind Text.afterBlanks? with
    | none => exact inner
    | some t =>
      obtain ⟨u, word, blanks⟩ := Option.bind_eq_some_iff.mp href
      exact ((afterBlanks?_suffix blanks).trans (after?_suffix word)).isInfix.trans inner
  obtain ⟨first, last, unquoted⟩ := quoted?_parts quoted
  have here := first.trans opened
  have later := last.trans opened
  -- a tooltip or none, and what follows
  have next : ∀ {tooltip : Option Text} {u : Text}, (∀ t ∈ tooltip, t <:+: line) → u <:+: line →
      (if u.isEmpty then some (Statement.click id url tooltip none) else
        (Text.afterBlanks? u).bind fun target => if linkTargets.contains target then
          some (.click id url tooltip (some target)) else none) = some statement →
      statement.Within line := by
    intro tooltip u told inside h
    split at h
    · cases h
      exact ⟨here, unquoted, told, by simp⟩
    · obtain ⟨target, blanks, h⟩ := Option.bind_eq_some_iff.mp h
      split at h
      · cases h
        refine ⟨here, unquoted, told, fun t ht => ?_⟩
        cases ht
        exact (afterBlanks?_suffix blanks).isInfix.trans inside
      · cases h
  cases tip : (Text.afterBlanks? rest).bind quoted? with
  | none =>
    rw [tip] at h
    exact next (by simp) later h
  | some found =>
    obtain ⟨t, u⟩ := found
    rw [tip] at h
    obtain ⟨v, blanks, quoted⟩ := Option.bind_eq_some_iff.mp tip
    obtain ⟨first, last, _⟩ := quoted?_parts quoted
    have inside := (afterBlanks?_suffix blanks).isInfix.trans later
    refine next (fun t' ht => ?_) (last.trans inside) h
    cases ht
    exact first.trans inside

theorem within_ofLine (line : Text) : (ofLine line).Within line := by
  unfold ofLine
  split
  · trivial
  · split
    · rename_i statement found
      obtain ⟨form, here, found⟩ := List.exists_of_findSome?_eq_some found
      simp only [forms, List.mem_cons, List.not_mem_nil, or_false] at here
      rcases here with rfl | rfl | rfl | rfl | rfl | rfl | rfl
      · exact within_subgraph? found
      · exact within_direction? found
      · exact within_define? found
      · exact within_assign? found
      · exact within_style? found
      · exact within_linkStyle? found
      · exact within_click? found
    · split
      · rename_i id body found
        simp only [properties?, Option.bind_eq_bind, Option.bind_eq_some_iff] at found
        obtain ⟨body', braced, found⟩ := found
        split at found
        · cases found
        · cases found
          exact ⟨(infix_braced? braced).trans (List.dropWhile_suffix _).isInfix, rfl⟩
      · rfl

theorem infix_declarations (s : Text) : ∀ d ∈ declarations s, d.2 <:+: s := by
  refine List.foldlRecOn (motive := fun found : List (Text × Text) => ∀ d ∈ found, d.2 <:+: s) _ _
    (by simp) fun found here piece mem => ?_
  rw [declarations.declare]
  split
  · exact here
  · rename_i name value halves
    split
    · exact here
    · have inner := (infix_pieces mem).trans (prefix_dropTrailing _ s).isInfix
      exact Keyed.forall_mem_put
        (((infix_trim value).trans (halves?_parts halves).2.isInfix).trans inner) here

theorem infix_titled? {header id title : Text} {isQuoted : Bool}
    (h : subgraphHeader.titled? header = some (isQuoted, id, title)) :
    id <:+: header ∧ title <:+: header := by
  have bracketed : ∀ {r : Text}, subgraphHeader.bracketed? r = some title → title <:+: r := by
    intro r here
    obtain ⟨u, after, before⟩ := Option.bind_eq_some_iff.mp here
    have inner := (prefix_before? before).isInfix.trans (after?_suffix after).isInfix
    exact inner.trans (List.dropWhile_suffix _).isInfix
  unfold subgraphHeader.titled? at h
  split at h
  · rename_i quoted
    obtain ⟨_, here, made⟩ := Option.map_eq_some_iff.mp h
    cases made
    obtain ⟨first, last, _⟩ := quoted?_parts quoted
    exact ⟨first, (bracketed here).trans last⟩
  · dsimp only at h
    split at h
    · cases h
    · obtain ⟨_, here, made⟩ := Option.map_eq_some_iff.mp h
      cases made
      exact ⟨(List.takeWhile_prefix _).isInfix,
        (bracketed here).trans (List.dropWhile_suffix _).isInfix⟩

/-- The id and the title of a subgraph are told by its header, or are made for a subgraph without
one. -/
theorem told_subgraphHeader {header id title : Text} {before : Nat}
    (h : subgraphHeader header before = .ok (id, title)) :
    (id = "subGraph".toList ++ Text.ofNat before ∧ title = id) ∨ Told header id ∧ Told header title := by
  have inner := infix_trim header
  unfold subgraphHeader at h
  dsimp only at h
  split at h
  · cases h
    exact Or.inl ⟨rfl, rfl⟩
  · right
    split at h
    · rename_i isQuoted shown brackets found
      obtain ⟨first, last⟩ := infix_titled? found
      have titled : ∀ {name : Text}, Told header name →
          (do let title ← Quoted.unquote brackets
              return (name, if title.isEmpty then name else title)) = Except.ok (id, title) →
          Told header id ∧ Told header title := by
        intro name told h
        obtain ⟨title', unquoted, made⟩ := bind_eq_ok.mp h
        cases made
        refine ⟨told, ?_⟩
        split
        · exact told
        · exact (Quoted.told_unquote unquoted).mono (last.trans inner)
      split at h
      · obtain ⟨name, decoded, h⟩ := bind_eq_ok.mp h
        exact titled (.decoded (first.trans inner) decoded) h
      · exact titled (.part (first.trans inner)) h
    · split at h
      · obtain ⟨title', unquoted, made⟩ := bind_eq_ok.mp h
        cases made
        have told := (Quoted.told_unquote unquoted).mono inner
        exact ⟨told, told⟩
      · cases h
        exact ⟨.part inner, .part inner⟩

end Statement

/-! ### Links -/

namespace Operator
variable {s label inner : Text} {close : Text → Bool}

theorem prefix_shortest (h : shortest close s = some label) : label <+: s := by
  induction s generalizing label with
  | nil => cases h
  | cons c s ih =>
    rw [shortest] at h
    split at h
    · cases h
      exact ⟨s, rfl⟩
    · obtain ⟨t, found, rfl⟩ := Option.map_eq_some_iff.mp h
      exact List.cons_prefix_cons.mpr ⟨rfl, ih found⟩

theorem infix_labelIn (h : labelIn close s = some label) : label <:+: s := by
  induction s with
  | nil => cases h
  | cons c s ih =>
    rw [labelIn] at h
    split at h
    · cases later : labelIn close s with
      | some t =>
        rw [later] at h
        cases h
        exact List.infix_cons (ih later)
      | none =>
        rw [later] at h
        exact (prefix_shortest h).isInfix
    · exact (prefix_shortest h).isInfix

theorem opening?_suffix {stroke : Stroke} (h : opening? s = some (stroke, inner)) : inner <:+ s := by
  unfold opening? at h
  split at h
  all_goals cases h
  all_goals exact (List.suffix_cons _ _).trans (List.suffix_cons _ _)

/-- The label inside an operator stands in it. -/
theorem infix_label {op : Operator} (h : read? s = some op) : ∀ t ∈ op.label, t <:+: s := by
  intro t ht
  unfold read? at h
  dsimp only at h
  split at h
  · cases h
    cases ht
  · obtain ⟨⟨stroke, source, target, label⟩, read, made⟩ := Option.map_eq_some_iff.mp h
    cases made
    cases ht
    simp only [labelled?, Option.bind_eq_bind, Option.bind_eq_some_iff] at read
    obtain ⟨⟨stroke', inner⟩, opened, found⟩ := read
    obtain ⟨target', _, found⟩ := List.exists_of_findSome?_eq_some found
    obtain ⟨label', inside, made⟩ := Option.map_eq_some_iff.mp found
    cases made
    have within : inner <:+ s.trim := by
      refine (opening?_suffix opened).trans ?_
      generalize s.trim = u
      split
      · exact List.suffix_cons _ _
      · exact List.suffix_refl _
    exact (((infix_trim _).trans (infix_labelIn inside)).trans within.isInfix).trans (infix_trim s)

end Operator

namespace Link
variable {before : Option Char} {s rest line : Text} {link : Link}

/-- The link stands in the line, with its id and its label. -/
structure Within (line : Text) (link : Link) : Prop where
  symbols : link.symbols <:+: line
  label : ∀ t ∈ link.label, t <:+: line
  id : ∀ t ∈ link.id, t <:+: line ∧ ∀ c ∈ t, isWordOrHyphen c = true

theorem Within.mono (h : link.Within s) (inner : s <:+: line) : link.Within line :=
  ⟨h.symbols.trans inner, fun t ht => (h.label t ht).trans inner,
    fun t ht => ⟨(h.id t ht).1.trans inner, (h.id t ht).2⟩⟩

theorem tip_of_letter {c : Char} (h : (c == 'o' || c == 'x') = true) :
    ∃ tip : Tip, tip.startMark = [c] ∧ tip.endMark = [c] := by
  simp only [Bool.or_eq_true, beq_iff_eq] at h
  rcases h with rfl | rfl
  · exact ⟨.circle, rfl, rfl⟩
  · exact ⟨.cross, rfl, rfl⟩

/-- What is passed before a line is the mark of a tip. -/
theorem afterSourceMark_split (before : Option Char) (s : Text) :
    ∃ tip : Tip, s = tip.startMark ++ afterSourceMark before s := by
  unfold afterSourceMark
  split
  · exact ⟨.arrow, rfl⟩
  · split
    · rename_i mark
      obtain ⟨tip, start, _⟩ := tip_of_letter (Bool.and_eq_true_iff.mp mark).1
      exact ⟨tip, by rw [start, List.singleton_append]⟩
    · exact ⟨.none, rfl⟩
  · exact ⟨.none, rfl⟩

/-- What is passed after a line is the mark of a tip. -/
theorem afterTargetMark_split (s : Text) :
    ∃ tip : Tip, s = tip.endMark ++ afterTargetMark s := by
  unfold afterTargetMark
  split
  · exact ⟨.arrow, rfl⟩
  · split
    · rename_i mark
      obtain ⟨tip, _, finish⟩ := tip_of_letter (Bool.and_eq_true_iff.mp mark).1
      exact ⟨tip, by rw [finish, List.singleton_append]⟩
    · exact ⟨.none, rfl⟩
  · exact ⟨.none, rfl⟩

/-- What is passed of a stroke draws a line. -/
theorem afterStroke?_split (h : afterStroke? s = some rest) :
    ∃ b, (Operator.bodyStroke? b).isSome = true ∧ s = b ++ rest := by
  unfold afterStroke? at h
  split at h
  · rename_i r
    obtain ⟨n, run⟩ := exists_run '=' r
    cases h
    refine ⟨List.replicate (n + 2) '=', ?_, congrArg (fun t => '=' :: '=' :: t) run⟩
    rw [Operator.bodyStroke?_thick (by omega)]
    rfl
  · rename_i r
    obtain ⟨n, run⟩ := exists_run '.' r
    refine ⟨'-' :: List.replicate (n + 1) '.' ++ ['-'], ?_, ?_⟩
    · rw [Operator.bodyStroke?_dotted (by omega)]
      rfl
    · rw [run, after?_eq_some_iff.mp h]
      simp [List.replicate_succ]
  · rename_i r
    obtain ⟨n, run⟩ := exists_run '-' r
    cases h
    refine ⟨List.replicate (n + 2) '-', ?_, congrArg (fun t => '-' :: '-' :: t) run⟩
    rw [Operator.bodyStroke?_normal (by omega)]
    rfl
  · cases h

/-- What is passed of an operator without a label is such an operator. -/
theorem afterPlain?_split (h : afterPlain? before s = some rest) :
    ∃ op, (Operator.plain? op).isSome = true ∧ s = op ++ rest := by
  unfold afterPlain? at h
  split at h
  · rename_i r
    obtain ⟨n, run⟩ := exists_run '~' r
    cases h
    refine ⟨List.replicate (n + 3) '~', ?_, congrArg (fun t => '~' :: '~' :: '~' :: t) run⟩
    rw [Operator.plain?_tildes (by omega)]
    rfl
  · obtain ⟨r, stroke, rfl⟩ := Option.map_eq_some_iff.mp h
    obtain ⟨source, start⟩ := afterSourceMark_split before s
    obtain ⟨b, drawn, line⟩ := afterStroke?_split stroke
    obtain ⟨target, finish⟩ := afterTargetMark_split r
    obtain ⟨stroke, drawn⟩ := Option.isSome_iff_exists.mp drawn
    refine ⟨source.startMark ++ (b ++ target.endMark), ?_, ?_⟩
    · rw [Operator.plain?_drawn drawn]
      rfl
    · calc s = source.startMark ++ (b ++ r) := by rw [← line, ← start]
        _ = source.startMark ++ (b ++ (target.endMark ++ afterTargetMark r)) := by rw [← finish]
        _ = _ := by simp only [List.append_assoc]

theorem afterPlain?_suffix (h : afterPlain? before s = some rest) : rest <:+ s := by
  obtain ⟨op, _, rfl⟩ := afterPlain?_split h
  exact List.suffix_append op rest

theorem infix_pipedLabel (s : Text) : ∀ t ∈ (pipedLabel s).1, t <:+: s := by
  intro t ht
  unfold pipedLabel at ht
  split at ht
  · rename_i r blanks
    have inner : r <:+ s := (List.suffix_cons _ r).trans (blanks ▸ List.dropWhile_suffix _)
    split at ht
    · cases ht
      exact (List.takeWhile_prefix _).isInfix.trans inner.isInfix
    · cases ht
  · cases ht

theorem pipedLabel_suffix (s : Text) : (pipedLabel s).2 <:+ s := by
  unfold pipedLabel
  split
  · rename_i r blanks
    have inner : r <:+ s := (List.suffix_cons _ r).trans (blanks ▸ List.dropWhile_suffix _)
    split
    · rename_i c rest closed
      exact ((List.suffix_cons c rest).trans (closed ▸ List.dropWhile_suffix _)).trans inner
    · exact List.suffix_refl s
  · exact List.suffix_refl s

theorem plainFrom?_within {id : Option Text} (h : plainFrom? id before s = some (link, rest))
    (named : ∀ t ∈ id, t <:+: line ∧ ∀ c ∈ t, isWordOrHyphen c = true) (inner : s <:+: line) :
    link.Within line := by
  obtain ⟨r, after, h⟩ := Option.bind_eq_some_iff.mp h
  cases h
  exact ⟨(List.take_prefix _ s).isInfix.trans inner,
    fun t ht => ((infix_pipedLabel r t ht).trans (afterPlain?_suffix after).isInfix).trans inner, named⟩

/-- A link with an operator that holds its label is taken as it stands, and its operator is read. -/
theorem labelledAt?_parts (h : labelledAt? s = some (link, rest)) :
    (∃ stroke, afterLabelled? stroke s = some rest) ∧ link = ⟨taken s rest, none, none⟩ ∧
      (Operator.read? (taken s rest)).isSome = true := by
  obtain ⟨stroke, _, found⟩ := List.exists_of_findSome?_eq_some h
  obtain ⟨r, after, found⟩ := Option.bind_eq_some_iff.mp found
  dsimp only at found
  split at found
  · rename_i read
    cases found
    exact ⟨⟨stroke, after⟩, rfl, read⟩
  · cases found

theorem idAt?_parts {id : Text} (h : idAt? before s = some (id, rest)) :
    s = id ++ '@' :: rest ∧ ∀ c ∈ id, isWordOrHyphen c = true := by
  unfold idAt? at h
  dsimp only at h
  split at h
  · cases h
  · obtain ⟨r, after, made⟩ := Option.map_eq_some_iff.mp h
    cases made
    refine ⟨?_, fun c hc => List.mem_takeWhile_imp hc⟩
    calc s = s.takeWhile isWordOrHyphen ++ s.dropWhile isWordOrHyphen :=
          (List.takeWhile_append_dropWhile).symm
      _ = _ := by rw [after?_eq_some_iff.mp after, List.singleton_append]

/-- A link has its label inside its operator, or follows an id, or begins with its operator. -/
theorem at?_cases (h : at? before s = some (link, rest)) :
    labelledAt? s = some (link, rest) ∨
      (∃ id r, idAt? before s = some (id, r) ∧
        plainFrom? (some id) (some '@') r = some (link, rest)) ∨
      plainFrom? none before s = some (link, rest) := by
  unfold at? at h
  cases labelled : labelledAt? s with
  | some found =>
    rw [labelled] at h
    cases h
    exact Or.inl rfl
  | none =>
    rw [labelled] at h
    change ((idAt? before s).bind fun p => plainFrom? (some p.1) (some '@') p.2).orElse
      (fun _ => plainFrom? none before s) = some (link, rest) at h
    cases named : (idAt? before s).bind fun p => plainFrom? (some p.1) (some '@') p.2 with
    | some found =>
      rw [named] at h
      cases h
      obtain ⟨⟨id, r⟩, told, found⟩ := Option.bind_eq_some_iff.mp named
      exact Or.inr (Or.inl ⟨id, r, told, found⟩)
    | none =>
      rw [named] at h
      exact Or.inr (Or.inr h)

theorem at?_within (h : at? before s = some (link, rest)) : link.Within s := by
  rcases at?_cases h with labelled | ⟨id, r, told, found⟩ | found
  · obtain ⟨_, rfl, _⟩ := labelledAt?_parts labelled
    exact ⟨(List.take_prefix _ s).isInfix, by simp, by simp⟩
  · obtain ⟨rfl, word⟩ := idAt?_parts told
    refine plainFrom?_within found (fun t ht => ?_) ⟨id ++ ['@'], [], by simp⟩
    cases ht
    exact ⟨(List.prefix_append _ _).isInfix, word⟩
  · exact plainFrom?_within found (by simp) (List.infix_refl s)

end Link

/-! ### Chains -/

namespace Chain

/-- The node texts and the links of a chain stand in the line. -/
structure Within (line : Text) (chain : Chain) : Prop where
  texts : ∀ t ∈ chain.texts, t <:+: line
  links : ∀ link ∈ chain.links, link.Within line

theorem Within.mono {s line : Text} {chain : Chain} (h : chain.Within s) (inner : s <:+: line) :
    chain.Within line :=
  ⟨fun t ht => (h.texts t ht).trans inner, fun link here => (h.links link here).mono inner⟩

/-- A scan gives back what it has passed and what it comes to. While it passes a link, it has passed
nothing that counts. -/
theorem within_scan (before : Option Char) (text : Text) (depth : Nat) (quoted : Bool) (skip : Nat)
    (s : Text) (fresh : skip = 0 ∨ text = []) :
    (scan before text depth quoted skip s).Within (text.reverse ++ s) := by
  induction s generalizing before text depth quoted skip with
  | nil =>
    refine ⟨fun t ht => ?_, by simp [scan, links]⟩
    obtain rfl : t = trim text.reverse := by simpa [scan, texts] using ht
    rw [List.append_nil]
    exact infix_trim _
  | cons c s ih =>
    have onward : text.reverse ++ c :: s = (c :: text).reverse ++ s := by simp
    rw [scan.eq_def]
    dsimp only
    split
    · have nothing : text = [] := fresh.resolve_left (Nat.succ_ne_zero _)
      subst nothing
      exact (ih _ _ _ _ _ (Or.inr rfl)).mono (List.suffix_cons c s).isInfix
    · split
      · rw [onward]
        exact ih _ _ _ _ _ (Or.inl rfl)
      · split
        · rw [onward]
          exact ih _ _ _ _ _ (Or.inl rfl)
        · split
          · rename_i link rest found
            have here : link.Within (c :: s) := by
              split at found
              · exact Link.at?_within found
              · cases found
            have next := ih (some c) [] 0 false (s.length - rest.length) (Or.inr rfl)
            have later : s <:+: text.reverse ++ c :: s :=
              ((List.suffix_cons c s).trans (List.suffix_append _ _)).isInfix
            refine ⟨fun t ht => ?_, fun l hl => ?_⟩
            · rcases List.mem_cons.mp ht with rfl | ht
              · exact (infix_trim _).trans (List.prefix_append _ _).isInfix
              · exact (next.texts t ht).trans later
            · rcases List.mem_cons.mp hl with rfl | hl
              · exact here.mono (List.suffix_append _ _).isInfix
              · exact (next.links l hl).mono later
          · rw [onward]
            exact ih _ _ _ _ _ (Or.inl rfl)

theorem within_ofLine (line : Text) : (ofLine line).Within line :=
  within_scan none [] 0 false 0 line (Or.inl rfl)

end Chain

/-! ### Nodes -/

theorem splits_groupFrom (depth : Nat) (quoted : Bool) (s : Text) :
    Splits s (groupFrom depth quoted s) := by
  induction s generalizing depth quoted with
  | nil => exact .nil
  | cons c s ih =>
    rw [groupFrom]
    split
    · exact (ih 0 false).cut c
    · exact .cons c (ih _ _)

theorem infix_group {s t : Text} (h : t ∈ group s) : t <:+: s := by
  obtain ⟨u, here, rfl⟩ := List.mem_map.mp (List.mem_of_mem_filter h)
  exact (infix_trim u).trans ((splits_groupFrom 0 false s).inside u here)

theorem readBracketed?_parts {s id text : Text} {shape : Shape}
    (h : readBracketed? s = some (id, text, shape)) :
    id <:+: s ∧ text <:+: s ∧ id ≠ [] ∧ ∀ c ∈ id, isBlank c = false := by
  unfold readBracketed? at h
  dsimp only at h
  split at h
  · cases h
  · rename_i some_id
    obtain ⟨b, _, h⟩ := List.exists_of_findSome?_eq_some h
    simp only [Option.bind_eq_bind, Option.bind_eq_some_iff, pure, Option.some.injEq,
      Prod.mk.injEq] at h
    obtain ⟨_, after, _, inner, rfl, rfl, _⟩ := h
    refine ⟨(List.takeWhile_prefix _).isInfix, ?_, by simpa using some_id, fun c hc => ?_⟩
    · exact ((prefix_beforeFinal? inner).isInfix.trans (after?_suffix after).isInfix).trans
        (List.dropWhile_suffix _).isInfix
    · have id := List.mem_takeWhile_imp hc
      simp only [isIdChar, isBareChar, Bool.and_eq_true, Bool.not_eq_true'] at id
      exact id.1.1

namespace Reading

theorem propertied?_parts {s id body : Text} (h : propertied? s = some (id, body)) :
    id <:+: s ∧ body <:+: s ∧ id ≠ [] ∧ ∀ c ∈ id, isBlank c = false := by
  simp only [propertied?, Option.bind_eq_bind, Option.bind_eq_some_iff] at h
  obtain ⟨_, braced, h⟩ := h
  split at h
  · cases h
  · rename_i some_id
    cases h
    refine ⟨(List.takeWhile_prefix _).isInfix,
      (Statement.infix_braced? braced).trans (List.dropWhile_suffix _).isInfix,
      by simpa using some_id, fun c hc => ?_⟩
    have id := List.mem_takeWhile_imp hc
    simp only [isPropertiedChar, Bool.and_eq_true, Bool.not_eq_true'] at id
    exact id.1

theorem takeClasses_parts (more : Nat) (s : Text) : (takeClasses more s).1 <+: s ∧
    ∀ c ∈ (takeClasses more s).2, c <:+: s := by
  induction more generalizing s with
  | zero => exact ⟨List.prefix_refl s, by simp [takeClasses]⟩
  | succ more ih =>
    rw [takeClasses]
    split
    · exact ⟨List.prefix_refl s, by simp⟩
    · rename_i before classes found
      simp only [classSuffix?, Option.bind_eq_bind, Option.bind_eq_some_iff, pure,
        Option.some.injEq, Prod.mk.injEq] at found
      obtain ⟨_, mark, _, listed, rfl, rfl⟩ := found
      have first := (prefix_before? mark).trans (List.take_prefix _ s)
      obtain ⟨text, further⟩ := ih _
      refine ⟨text.trans first, fun c hc => ?_⟩
      rcases List.mem_append.mp hc with hc | hc
      · exact (further c hc).trans first.isInfix
      · unfold classList? at listed
        dsimp only at listed
        split at listed
        · cases listed
          have last : (s.reverse.takeWhile (· != ':')).reverse <:+ s := by
            rw [← List.reverse_prefix, List.reverse_reverse]
            exact List.takeWhile_prefix _
          exact (infix_pieces hc).trans last.isInfix
        · cases listed

end Reading
end Flowchart
