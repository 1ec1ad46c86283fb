import Flowchart.Proofs.Meeting
import Flowchart.Proofs.Parts
import Flowchart.Proofs.Scanning

/-! Links that are found are read. What an operator looks like is said twice: where one is found in
a line, and its neighbours decide how far it goes, and where one is read that stands alone. Whatever
is found is read, with a label inside or without one, so that no link of a line is left out for its
operator. A line is split in turns, and each of them passes a quoted span, a link or one
character. -/
namespace Flowchart
open Text

/-! ### Links that are found -/

namespace Link
variable {before : Option Char} {stroke : Stroke} {s t rest line : Text} {link : Link}

theorem afterMark?_suffix (h : afterMark? s = some rest) : rest <:+ s := by
  unfold afterMark? at h
  split at h
  case h_4 => cases h
  all_goals
    cases h
    exact List.suffix_cons _ _

theorem afterClosing?_suffix (h : afterClosing? stroke s = some rest) : rest <:+ s := by
  obtain ⟨t, blanks, h⟩ := Option.bind_eq_some_iff.mp h
  have inner : t.dropWhile (· == stroke.char) <:+ s :=
    (List.dropWhile_suffix _).trans (afterBlanks?_suffix blanks)
  dsimp only at h
  split at h
  · split at h
    · cases h
    · obtain ⟨u, hyphen, h⟩ := Option.bind_eq_some_iff.mp h
      cases h
      refine List.IsSuffix.trans ?_ ((after?_suffix hyphen).trans inner)
      cases mark : afterMark? u with
      | some r => exact afterMark?_suffix mark
      | none => exact List.suffix_refl u
  · split at h
    · cases h
    · split at h
      · rename_i mark
        cases h
        exact (afterMark?_suffix mark).trans inner
      · split at h
        · cases h
          exact inner
        · cases h

theorem afterLabel?_suffix {inside : Bool} (h : afterLabel? stroke inside s = some rest) :
    rest <:+ s := by
  induction s generalizing inside with
  | nil => cases inside <;> cases h
  | cons c s ih =>
    cases inside with
    | true => exact (ih h).trans (List.suffix_cons c s)
    | false =>
      rw [afterLabel?] at h
      cases closed : afterClosing? stroke (c :: s) with
      | some r =>
        rw [closed] at h
        cases h
        exact afterClosing?_suffix closed
      | none =>
        rw [closed] at h
        exact (ih h).trans (List.suffix_cons c s)

theorem afterLabelled?_suffix (h : afterLabelled? stroke s = some rest) : rest <:+ s := by
  have start : (after? ['<'] s).getD s <:+ s := by
    cases arrow : after? ['<'] s with
    | some r => exact after?_suffix arrow
    | none => exact List.suffix_refl s
  simp only [afterLabelled?, Option.bind_eq_bind, Option.bind_eq_some_iff] at h
  obtain ⟨u, opened, t, blanks, h⟩ := h
  have inner : t <:+ s := ((afterBlanks?_suffix blanks).trans (after?_suffix opened)).trans start
  split at h
  · cases h
  · exact ((afterLabel?_suffix h).trans (List.suffix_cons _ _)).trans inner

/-- The link is taken from the start of the text, up to the rest of it, and its operator is read. -/
structure Recognised (s : Text) (link : Link) (rest : Text) : Prop where
  later : rest <:+ s
  shorter : rest.length < s.length
  read : (Operator.read? link.symbols).isSome = true

theorem Recognised.mono (h : Recognised t link rest) (inner : t <:+ s) : Recognised s link rest :=
  ⟨h.later.trans inner, h.shorter.trans_le inner.length_le, h.read⟩

/-- What is read is no empty text, so a link goes on for one character at least. -/
theorem recognised_taken {op : Text} (read : (Operator.read? op).isSome = true)
    (symbols : link.symbols = op) (after : rest <:+ t) : Recognised (op ++ t) link rest where
  later := after.trans (List.suffix_append op t)
  shorter := by
    have some_operator : op ≠ [] := by
      rintro rfl
      cases read
    have long := List.length_pos_iff.mpr some_operator
    have short := after.length_le
    rw [List.length_append]
    omega
  read := symbols ▸ read

theorem plainFrom?_recognised {id : Option Text} (h : plainFrom? id before s = some (link, rest)) :
    Recognised s link rest := by
  obtain ⟨r, after, h⟩ := Option.bind_eq_some_iff.mp h
  cases h
  obtain ⟨op, plain, rfl⟩ := afterPlain?_split after
  obtain ⟨⟨stroke, source, target⟩, plain⟩ := Option.isSome_iff_exists.mp plain
  have read : (Operator.read? op).isSome = true := by
    rw [Operator.read?_of_plain? plain]
    rfl
  exact recognised_taken read (taken_append op r) (pipedLabel_suffix r)

theorem labelledAt?_recognised (h : labelledAt? s = some (link, rest)) :
    Recognised s link rest := by
  obtain ⟨⟨stroke, after⟩, rfl, read⟩ := labelledAt?_parts h
  obtain ⟨op, rfl⟩ := afterLabelled?_suffix after
  rw [taken_append] at read
  exact recognised_taken read (taken_append op rest) (List.suffix_refl rest)

/-- Whatever stands before it, a link that is found has an operator that is read. -/
theorem at?_recognised (h : at? before s = some (link, rest)) : Recognised s link rest := by
  rcases at?_cases h with labelled | ⟨id, r, told, found⟩ | found
  · exact labelledAt?_recognised labelled
  · obtain ⟨rfl, _⟩ := idAt?_parts told
    exact (plainFrom?_recognised found).mono ⟨id ++ ['@'], by simp⟩
  · exact plainFrom?_recognised found

/-- A link that is found at a place ends after the place. -/
theorem atPlace?_recognised {place : Int} (h : atPlace? line place = .ok (some (link, rest))) :
    Recognised (line.drop place.toNat) link rest := by
  obtain ⟨_, _, h⟩ := bind_eq_ok.mp h
  exact at?_recognised (pure_eq_ok.mp h)

theorem Recognised.ends_after {place : Int} (h : Recognised (line.drop place.toNat) link rest) :
    place < (line.length : Int) - rest.length := by
  have shorter := h.shorter
  rw [List.length_drop] at shorter
  omega

end Link

/-! ### The turns of a split -/

namespace Chain
open Link

/-- The parts of a line in order: a node text, and each link with the node text after it. -/
def parts (c : Chain) : List (Text ⊕ Link) :=
  .inl c.head :: c.tail.flatMap fun p => [.inr p.1, .inl p.2]

theorem parts_cons (head : Text) (link : Link) (next : Text) (tail : List (Link × Text)) :
    parts ⟨head, (link, next) :: tail⟩ = .inl head :: .inr link :: parts ⟨next, tail⟩ := rfl

theorem mem_parts_link {c : Chain} {link : Link} : .inr link ∈ c.parts ↔ link ∈ c.links := by
  simp [parts, links]

/-- Node texts and links stand one after the other: the number of parts is odd, and a part is a node
text exactly if its place is even. -/
def Alternates (ps : List (Text ⊕ Link)) : Prop :=
  ps.length % 2 = 1 ∧ ∀ i p, ps[i]? = some p → (p.isLeft = true ↔ i % 2 = 0)

theorem alternates_singleton (text : Text) : Alternates [.inl text] := by
  refine ⟨rfl, fun i p here => ?_⟩
  obtain ⟨rfl, rfl⟩ : i = 0 ∧ .inl text = p := by simpa [List.getElem?_singleton] using here
  exact ⟨fun _ => rfl, fun _ => rfl⟩

theorem Alternates.cons {ps : List (Text ⊕ Link)} (h : Alternates ps) (text : Text) (link : Link) :
    Alternates (.inl text :: .inr link :: ps) := by
  refine ⟨?_, fun i p here => ?_⟩
  · have odd := h.1
    simp only [List.length_cons]
    omega
  · match i with
    | 0 =>
      cases here
      exact ⟨fun _ => rfl, fun _ => rfl⟩
    | 1 =>
      cases here
      simp
    | i + 2 =>
      rw [h.2 i p here]
      omega

/-- A line is split from a place on. Known are the character before the place, the node text so far,
backwards, and the depth of brackets; then come what is left of the line, the number of turns that
pass it and the parts that they come to. A quoted span is passed in one turn, up to the end if
nothing closes it, and so is a link at depth zero; any other turn passes one character. -/
inductive Splits : Option Char → Text → Nat → Text → Nat → List (Text ⊕ Link) → Prop where
  | finish {before : Option Char} {text : Text} {depth : Nat} :
      Splits before text depth [] 0 [.inl (trim text.reverse)]
  | quoted {before : Option Char} {text e s : Text} {depth n : Nat} {ps : List (Text ⊕ Link)}
      (inner : '"' ∉ e)
      (later : Splits (some '"') ('"' :: (e.reverse ++ '"' :: text)) depth s n ps) :
      Splits before text depth ('"' :: (e ++ '"' :: s)) (n + 1) ps
  | unclosed {before : Option Char} {text e : Text} {depth n : Nat} {ps : List (Text ⊕ Link)}
      (inner : '"' ∉ e)
      (later : Splits (e.getLast?.or (some '"')) (e.reverse ++ '"' :: text) depth [] n ps) :
      Splits before text depth ('"' :: e) (n + 1) ps
  | link {before : Option Char} {c : Char} {text u rest : Text} {link : Link} {n : Nat}
      {ps : List (Text ⊕ Link)} (no_quote : c ≠ '"')
      (found : Link.at? before (c :: (u ++ rest)) = some (link, rest))
      (later : Splits (u.getLast?.or (some c)) [] 0 rest n ps) :
      Splits before text 0 (c :: (u ++ rest)) (n + 1) (.inl (trim text.reverse) :: .inr link :: ps)
  | char {before : Option Char} {c : Char} {text s : Text} {depth n : Nat}
      {ps : List (Text ⊕ Link)} (no_quote : c ≠ '"')
      (no_link : depth = 0 → Link.at? before (c :: s) = none)
      (later : Splits (some c) (c :: text) (depthNext text.head? depth c) s n ps) :
      Splits before text depth (c :: s) (n + 1) ps

section
variable {before : Option Char} {text s line : Text} {depth n : Nat} {ps : List (Text ⊕ Link)}

theorem scan_unclosed {e : Text} (h : '"' ∉ e) (before : Option Char) (text : Text) (depth : Nat) :
    scan before text depth true 0 e = ⟨trim (e.reverse ++ text).reverse, []⟩ := by
  induction e generalizing before text with
  | nil => rfl
  | cons c e ih =>
    have other : (c != '"') = true := by
      rw [bne_iff_ne]
      rintro rfl
      exact h List.mem_cons_self
    rw [scan, if_pos rfl, other, ih fun here => h (List.mem_cons_of_mem c here)]
    simp

/-- What the turns come to is what the scanner gives. -/
theorem Splits.eq_parts (h : Splits before text depth s n ps) :
    ps = (scan before text depth false 0 s).parts := by
  induction h with
  | finish => rfl
  | quoted inner _ ih => rw [ih, scan, if_neg Bool.false_ne_true, if_pos rfl, scan_in_quotes inner]
  | @unclosed _ text e _ _ _ inner _ ih =>
    calc _ = parts ⟨trim (e.reverse ++ '"' :: text).reverse, []⟩ := ih
      _ = _ := by rw [scan, if_neg Bool.false_ne_true, if_pos rfl, scan_unclosed inner]
  | link no_quote found _ ih => rw [scan_link no_quote found, parts_cons, ← ih]
  | char no_quote no_link _ ih => rw [ih, scan_past no_quote no_link]

/-- Where something is left of a line, a turn passes some of it. -/
theorem exists_turn (before : Option Char) (text : Text) (depth : Nat) (c : Char) (s : Text) :
    ∃ before' text' depth' s', s'.length < (c :: s).length ∧
      ∀ n ps, Splits before' text' depth' s' n ps →
        ∃ ps', Splits before text depth (c :: s) (n + 1) ps' := by
  by_cases quote : c = '"'
  · subst quote
    by_cases closed : '"' ∈ s
    · obtain ⟨e, r, rfl, inner⟩ := List.eq_append_cons_of_mem closed
      exact ⟨_, _, depth, r, by simp; omega, fun _ ps later => ⟨ps, .quoted inner later⟩⟩
    · exact ⟨_, _, depth, [], by simp, fun _ ps later => ⟨ps, .unclosed closed later⟩⟩
  · cases here : (if depth = 0 then Link.at? before (c :: s) else none) with
    | some found =>
      obtain ⟨link, rest⟩ := found
      obtain ⟨rfl, found⟩ : depth = 0 ∧ Link.at? before (c :: s) = some (link, rest) := by
        simpa using here
      have shorter := (at?_recognised found).shorter
      obtain ⟨u, rfl⟩ : rest <:+ s := by
        rcases List.suffix_cons_iff.mp (at?_recognised found).later with rfl | inner
        · exact absurd shorter (Nat.lt_irrefl _)
        · exact inner
      exact ⟨_, [], 0, rest, shorter, fun _ _ later => ⟨_, .link quote found later⟩⟩
    | none =>
      have no_link : depth = 0 → Link.at? before (c :: s) = none := by simpa using here
      exact ⟨_, _, _, s, Nat.lt_succ_self _, fun _ ps later => ⟨ps, .char quote no_link later⟩⟩

/-- Turn by turn, whatever is left of a line is passed. -/
theorem exists_splits (before : Option Char) (text : Text) (depth : Nat) (s : Text) :
    ∃ n ps, n ≤ s.length ∧ Splits before text depth s n ps := by
  induction hl : s.length using Nat.strongRecOn generalizing before text depth s with
  | _ l ih =>
    cases s with
    | nil => exact ⟨0, _, Nat.zero_le _, .finish⟩
    | cons c s =>
      obtain ⟨before', text', depth', s', shorter, turn⟩ := exists_turn before text depth c s
      obtain ⟨n, ps, few, later⟩ := ih s'.length (hl ▸ shorter) before' text' depth' s' rfl
      obtain ⟨ps', whole⟩ := turn n ps later
      exact ⟨n + 1, ps', by omega, whole⟩

/-- A turn that passes a link adds a node text and the link, and no other turn adds a part. -/
theorem Splits.alternates (h : Splits before text depth s n ps) : Alternates ps := by
  induction h with
  | finish => exact alternates_singleton _
  | link _ _ _ ih => exact ih.cons _ _
  | quoted _ _ ih | unclosed _ _ ih | char _ _ _ ih => exact ih

/-- Every link that the turns come to has an operator that is read. -/
theorem Splits.read (h : Splits before text depth s n ps) {link : Link} (here : .inr link ∈ ps) :
    (Operator.read? link.symbols).isSome = true := by
  induction h with
  | finish => simp at here
  | link _ found _ ih =>
    simp only [List.mem_cons, reduceCtorEq, false_or, Sum.inr.injEq] at here
    rcases here with rfl | here
    · exact (at?_recognised found).read
    · exact ih here
  | quoted _ _ ih | unclosed _ _ ih | char _ _ _ ih => exact ih here

theorem splits_ofLine (line : Text) :
    (∃ n ≤ line.length, Splits none [] 0 line n (ofLine line).parts) ∧
      ∀ n ps, Splits none [] 0 line n ps → ps = (ofLine line).parts := by
  obtain ⟨n, ps, few, split⟩ := exists_splits none [] 0 line
  exact ⟨⟨n, few, split.eq_parts ▸ split⟩, fun _ _ => Splits.eq_parts⟩

/-- Every link of a line has an operator that is read. -/
theorem read_of_mem_links {link : Link} (here : link ∈ (ofLine line).links) :
    (Operator.read? link.symbols).isSome = true := by
  obtain ⟨_, _, split⟩ := (splits_ofLine line).1
  exact split.read (mem_parts_link.mpr here)

end
end Chain

/-! ### Readings -/

namespace Reading
variable {r r' r'' : Reading}

/-- On the way from one reading to another no operator is met that says nothing. -/
def Recognises (r r' : Reading) : Prop :=
  ∀ symbols, .unknownOperator symbols ∈ r'.notes → .unknownOperator symbols ∈ r.notes

theorem recognises_of_notes (h : r'.notes = r.notes) : Recognises r r' := by
  intro symbols here
  rwa [h] at here

theorem Recognises.refl (r : Reading) : Recognises r r := recognises_of_notes rfl

theorem Recognises.trans (h : Recognises r r') (h' : Recognises r' r'') : Recognises r r'' :=
  fun symbols here => h symbols (h' symbols here)

theorem recognises_note (r : Reading) {n : Note} (other : ∀ symbols, n ≠ .unknownOperator symbols) :
    Recognises r (r.note n) := by
  intro symbols here
  rcases List.mem_append.mp here with here | here
  · exact here
  · exact absurd (List.mem_singleton.mp here).symm (other symbols)

theorem meetTexts_recognises {line : Text} {texts : List Text} {groups : Option (List (List Text))}
    (met : r.meetTexts line texts = .ok (groups, r')) : Recognises r r' := by
  induction texts generalizing r groups with
  | nil =>
    obtain ⟨_, rfl⟩ := Prod.mk.inj (Except.ok.inj met)
    exact .refl r
  | cons text texts ih =>
    simp only [meetTexts, bind_eq_ok] at met
    obtain ⟨⟨ids, q⟩, first, met⟩ := met
    have before : Recognises r q := recognises_of_notes (meetPieces_meets first).notes
    split at met
    · obtain ⟨_, rfl⟩ := Prod.mk.inj (pure_eq_ok.mp met)
      exact before.trans (recognises_note q (by simp))
    · simp only [bind_eq_ok, pure_eq_ok, Prod.mk.injEq] at met
      obtain ⟨⟨rest, q'⟩, more, _, rfl⟩ := met
      exact before.trans (ih more)

theorem draw_recognises {link : Link} {op : Operator} {source target : Text}
    (drawn : r.draw link op source target = .ok r') : Recognises r r' := by
  simp only [draw, bind_eq_ok, pure_eq_ok] at drawn
  obtain ⟨text, _, rfl⟩ := drawn
  split
  · exact recognises_of_notes rfl
  · exact recognises_note r (by simp)

/-- Links whose operators are read are drawn, and none is passed over. -/
theorem drawLinks_recognises {links : List Link} {groups : List (List Text)}
    (known : ∀ link ∈ links, (Operator.read? link.symbols).isSome = true)
    (drawn : r.drawLinks links groups = .ok r') : Recognises r r' := by
  induction links generalizing r groups with
  | nil =>
    rw [drawLinks] at drawn
    · cases drawn
      exact .refl _
    · simp
  | cons link links ih =>
    obtain ⟨op, tells⟩ := Option.isSome_iff_exists.mp (known link List.mem_cons_self)
    match groups with
    | [] | [_] =>
      cases drawn
      exact .refl _
    | sources :: targets :: groups =>
      simp only [drawLinks, tells] at drawn
      obtain ⟨q, first, rest⟩ := bind_eq_ok.mp drawn
      refine Recognises.trans ?_ (ih (fun l hl => known l (List.mem_cons_of_mem link hl)) rest)
      refine foldlM_inv (P := fun q => Recognises r q) ?_ (.refl r) first
      exact fun _ _ _ _ before one => before.trans (draw_recognises one)

theorem readChain_recognises {line : Text} (read : r.readChain line = .ok r') :
    Recognises r r' := by
  simp only [readChain, bind_eq_ok] at read
  obtain ⟨⟨groups, q⟩, met, read⟩ := read
  have before : Recognises r q := meetTexts_recognises met
  cases groups with
  | none =>
    cases read
    exact before
  | some groups =>
    exact before.trans (drawLinks_recognises (fun _ => Chain.read_of_mem_links) read)

theorem setDirection_recognises (r : Reading) (word : Text) :
    Recognises r (r.setDirection word) := by
  unfold setDirection
  split
  · exact recognises_note r (by simp)
  · split
    · exact recognises_of_notes rfl
    · split <;> exact recognises_of_notes rfl

theorem assign_recognises (classes : List Text) (r : Reading) (id : Text) :
    Recognises r (assign classes r id) := by
  unfold assign
  split
  · exact recognises_of_notes rfl
  · exact recognises_of_notes rfl
  · exact recognises_note r (by simp)

theorem styleLinks_recognises {places : Option Text} {declared : List (Text × Text)}
    (read : r.styleLinks places declared = .ok r') : Recognises r r' := by
  unfold styleLinks at read
  -- the places are all or listed, and what is done at them is the same
  cases places
  all_goals
    obtain ⟨_, _, read⟩ := bind_eq_ok.mp read
    obtain ⟨_, _, read⟩ := bind_eq_ok.mp read
    cases read
    exact recognises_of_notes rfl

/-- No statement, whatever it says, makes reading meet an operator that says nothing. -/
theorem read_recognises {s : Statement} (read : r.read s = .ok r') : Recognises r r' := by
  cases s with
  | close =>
    cases read
    split
    · exact recognises_note r (by simp)
    · exact recognises_of_notes rfl
  | subgraph header =>
    simp only [Reading.read, openSubgraph, bind_eq_ok, pure_eq_ok] at read
    obtain ⟨⟨id, title⟩, _, rfl⟩ := read
    split <;> exact recognises_of_notes rfl
  | direction word =>
    cases read
    exact setDirection_recognises r word
  | define names styles =>
    cases read
    exact recognises_of_notes rfl
  | assign ids classes =>
    cases read
    refine List.foldlRecOn (motive := fun q => Recognises r q) _ _ (.refl r) ?_
    exact fun q before id _ => before.trans (assign_recognises _ q id)
  | style id declarations =>
    simp only [Reading.read] at read
    split at read
    · cases read
      exact recognises_note r (by simp)
    · obtain ⟨_, _, rfl⟩ := map_eq_ok.mp read
      exact recognises_of_notes rfl
  | linkStyle places declarations =>
    exact styleLinks_recognises read
  | click id url tooltip target =>
    simp only [Reading.read] at read
    split at read
    · cases read
      exact recognises_note r (by simp)
    · cases tooltip with
      | none =>
        cases read
        exact recognises_of_notes rfl
      | some t =>
        obtain ⟨_, _, read⟩ := bind_eq_ok.mp read
        cases read
        exact recognises_of_notes rfl
  | properties id body line =>
    simp only [Reading.read] at read
    split at read
    · obtain ⟨_, _, rfl⟩ := map_eq_ok.mp read
      exact recognises_of_notes rfl
    · exact readChain_recognises read
  | chain line => exact readChain_recognises read

theorem notes_begin (lines : List Text) :
    ∀ n ∈ (begin lines).1.notes, ∃ line, n = .beforeDeclaration line := by
  unfold begin
  split
  rename_i before rest _
  cases rest with
  | nil => simp
  | cons line body =>
    cases declared : Source.declaration? line with
    | none => simp [declared]
    | some declaration =>
      simp only [declared]
      intro n here
      obtain ⟨line, _, rfl⟩ := List.mem_map.mp here
      exact ⟨line, rfl⟩

/-- However a text is read, no operator in it says nothing. -/
theorem no_unknown_operator {strict : Bool} {s : Text} (read : ofText strict s = .ok r)
    (symbols : Text) : .unknownOperator symbols ∉ r.notes := by
  unfold ofText at read
  dsimp only at read
  split at read
  · simp only [ofSource, bind_eq_ok, pure_eq_ok] at read
    obtain ⟨q, read, rfl⟩ := read
    intro here
    have through : Recognises (begin ((Source.meaningful s).map strip)).1 q := by
      refine foldlM_inv (P := fun q => Recognises _ q) ?_ (.refl _) read
      exact fun _ _ _ _ before one => before.trans (read_recognises one)
    obtain ⟨line, same⟩ := notes_begin _ _ (through symbols here)
    cases same
  · split at read
    · cases read
    · cases read
      simp

/-- What is found as an operator is read as one. A link that is found at a place of a line ends
after the place, and its operator is read. So no line, whatever has been read before it, and no text
brings a note of an operator that says nothing. Splitting a line ends after no more turns than the
line has characters, and it comes to node texts and links one after the other. -/
theorem found_links_are_read :
    (∀ (line : Text) (place : Int) (link : Link) (rest : Text),
      Link.atPlace? line place = .ok (some (link, rest)) →
        rest <:+ line ∧ place < (line.length : Int) - rest.length ∧
          (Operator.read? link.symbols).isSome = true) ∧
    ((∀ line, ∀ link ∈ (Chain.ofLine line).links, (Operator.read? link.symbols).isSome = true) ∧
      (∀ (r r' : Reading) (line : Text), r.readChain line = .ok r' → r.Recognises r') ∧
      ∀ (strict : Bool) (s : Text) (r : Reading), ofText strict s = .ok r →
        ∀ symbols, .unknownOperator symbols ∉ r.notes) ∧
    ∀ line, (∃ n ≤ line.length, Chain.Splits none [] 0 line n (Chain.ofLine line).parts) ∧
      ∀ n ps, Chain.Splits none [] 0 line n ps →
        ps = (Chain.ofLine line).parts ∧ Chain.Alternates ps := by
  refine ⟨fun line place link rest found => ?found, ⟨fun _ _ => Chain.read_of_mem_links,
    fun _ _ _ => readChain_recognises, fun _ _ _ => no_unknown_operator⟩, fun line => ?split⟩
  case found =>
    have recognised := Link.atPlace?_recognised found
    exact ⟨recognised.later.trans (List.drop_suffix _ line), recognised.ends_after, recognised.read⟩
  case split =>
    obtain ⟨ends, unique⟩ := Chain.splits_ofLine line
    exact ⟨ends, fun n ps split => ⟨unique n ps split, split.alternates⟩⟩

/-- A dotted line has an id and a mark before it, and a mark and a label after it. Another line has
a quoted label inside, and an operator stands in the label. -/
theorem decorated_links_are_read :
    let line : Text := "A e1@<-.-x|l| B -- \"a --> b\" ---> C"
    let rest : Text := " B -- \"a --> b\" ---> C"
    let first : Link := ⟨"<-.-x", some "l", some "e1"⟩
    let second : Link := ⟨"-- \"a --> b\" --->", none, none⟩
    Link.atPlace? line 2 = .ok (some (first, rest)) ∧
      (2 : Int) < (line.length : Int) - rest.length ∧
      (∀ link ∈ [first, second], (Operator.read? link.symbols).isSome = true) ∧
      (∃ n ≤ line.length, Chain.Splits none [] 0 line n
        [.inl "A", .inr first, .inl "B", .inr second, .inl "C"]) ∧
      ∃ r : Reading, ({} : Reading).readChain line = .ok r ∧
        ∀ symbols, .unknownOperator symbols ∉ r.notes := by
  intro line rest first second
  obtain ⟨places, ⟨links, lines, _⟩, split⟩ := found_links_are_read
  have found : Link.atPlace? line 2 = .ok (some (first, rest)) := by decide +kernel
  have whole : Chain.ofLine line = ⟨"A", [(first, "B"), (second, "C")]⟩ := by decide +kernel
  have reads : (({} : Reading).readChain line).isOk = true := by decide +kernel
  obtain ⟨r, read⟩ := isOk_iff.mp reads
  refine ⟨found, (places line 2 first rest found).2.1, ?_, ?_, r, read, fun symbols here => ?_⟩
  · have all := links line
    rwa [whole] at all
  · have ends := (split line).1
    rwa [whole] at ends
  · exact absurd (lines {} r line read symbols here) (by simp)

end Reading
end Flowchart
