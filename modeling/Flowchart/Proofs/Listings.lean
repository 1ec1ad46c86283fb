import Flowchart.Proofs.Bodies
import Flowchart.Proofs.Lines
import Flowchart.Proofs.Results
import Flowchart.Proofs.Statements
import Flowchart.Writing

/-! The lines for classes and styles. Each ends with a list whose parts stand between commas. Such a
line is a statement of its kind, and its list is split into the parts it was made of; a numeral that
is not too long is read as the number it was written for. -/
namespace Flowchart
open Text

namespace Text
variable {sep : Char} {p s : Text}

theorem pieces_of_not_mem (h : sep ∉ p) : pieces sep p = [p] := by
  induction p with
  | nil => rfl
  | cons c p ih =>
    have other : ¬ c = sep := fun e => h (e ▸ List.mem_cons_self)
    rw [pieces, if_neg other, ih fun here => h (List.mem_cons_of_mem c here)]

theorem pieces_append (h : sep ∉ p) (s : Text) :
    pieces sep (p ++ sep :: s) = p :: pieces sep s := by
  induction p with
  | nil => rw [List.nil_append, pieces, if_pos rfl]
  | cons c p ih =>
    have other : ¬ c = sep := fun e => h (e ▸ List.mem_cons_self)
    rw [List.cons_append, pieces, if_neg other, ih fun here => h (List.mem_cons_of_mem c here)]

/-- Parts without the separator are found again as the pieces between separators. -/
theorem pieces_join {ps : List Text} (some_part : ps ≠ []) (h : ∀ p ∈ ps, sep ∉ p) :
    pieces sep (join [sep] ps) = ps := by
  induction ps with
  | nil => exact absurd rfl some_part
  | cons p ps ih =>
    have here := h p List.mem_cons_self
    cases ps with
    | nil =>
      rw [join, List.intercalate_singleton]
      exact pieces_of_not_mem here
    | cons q ps =>
      have rest := ih (List.cons_ne_nil q ps) fun k hk => h k (List.mem_cons_of_mem p hk)
      rw [join] at rest ⊢
      rw [List.intercalate_cons_cons, List.append_assoc, List.singleton_append, pieces_append here,
        rest]

/-! ### Numerals -/

theorem isDecimal_of_isDigit {c : Char} (h : c.isDigit = true) :
    decimalValue? c = some (c.toNat - '0'.toNat) := by
  have low : c.toNat < 0x80 := by
    simp only [Char.isDigit, Bool.and_eq_true, decide_eq_true_eq, UInt32.le_iff_toNat_le] at h
    exact Nat.lt_of_le_of_lt h.2 (by decide)
  rw [decimalValue?, if_pos low, if_pos h]
  rfl

theorem isDigit_of_mem_ofNat {n : Nat} {c : Char} (h : c ∈ ofNat n) : c.isDigit = true :=
  Nat.isDigit_of_mem_toDigits (by decide) (by decide) h

theorem isDecimal_of_mem_ofNat {n : Nat} {c : Char} (h : c ∈ ofNat n) : isDecimal c = true := by
  rw [isDecimal, isDecimal_of_isDigit (isDigit_of_mem_ofNat h)]
  rfl

theorem isBlank_of_isDecimal {c : Char} (h : isDecimal c = true) : isBlank c = false :=
  isBlank_of_class (p := isDecimal) (by decide +kernel) h

/-- A digit is no mark of a list and no percent sign. -/
theorem not_mark_of_isDecimal {c : Char} (h : isDecimal c = true) : c ∉ ['%', ',', ';'] := by
  intro mark
  have apart : ∀ d ∈ ['%', ',', ';'], isDecimal d = false := by decide
  rw [apart c mark] at h
  cases h

theorem ofNat_ne_nil (n : Nat) : ofNat n ≠ [] := Nat.toDigits_ne_nil

/-- There is no blank, no percent sign and no mark of a list in a numeral. -/
theorem chars_ofInt (i : Int) : ∀ c ∈ ofInt i, isBlank c = false ∧ c ∉ ['%', ',', ';'] := by
  have digit : ∀ n, ∀ c ∈ ofNat n, isBlank c = false ∧ c ∉ ['%', ',', ';'] := by
    intro n c hc
    have decimal := isDecimal_of_mem_ofNat hc
    exact ⟨isBlank_of_isDecimal decimal, not_mark_of_isDecimal decimal⟩
  cases i with
  | ofNat n => exact digit n
  | negSucc n => exact List.forall_mem_cons.mpr ⟨by decide, digit (n + 1)⟩

/-- A numeral of the digits of a number, if there are not too many of them, is the number. -/
theorem toNat?_ofNat {n : Nat} (short : (ofNat n).length ≤ numeralLimit) :
    (ofNat n).toNat? = some n := by
  have value : ∀ (s : Text) (m : Nat), (∀ c ∈ s, c.isDigit = true) →
      s.foldl (fun n c => n.bind fun n => (decimalValue? c).map (10 * n + ·)) (some m) =
        some (Nat.ofDigitChars 10 s m) := by
    intro s
    induction s with
    | nil => exact fun m _ => rfl
    | cons c s ih =>
      intro m digits
      rw [List.foldl_cons, Option.bind_some, isDecimal_of_isDigit (digits c List.mem_cons_self),
        Option.map_some, ih _ fun d hd => digits d (List.mem_cons_of_mem c hd),
        Nat.ofDigitChars_cons]
  have not_empty : (ofNat n).isEmpty = false := by simpa using ofNat_ne_nil n
  have fits : ¬ numeralLimit < (ofNat n).length := by omega
  rw [toNat?, not_empty, if_neg (by simpa using fits), value _ 0 fun c => isDigit_of_mem_ofNat]
  exact congrArg some Nat.ofDigitChars_ten_toDigits

theorem firstNumeral?_append {digits rest : Text} (some_digit : digits ≠ [])
    (decimal : ∀ c ∈ digits, isDecimal c = true) (stops : Stops isDecimal rest) :
    firstNumeral? (digits ++ rest) = some (false, digits) ∧
      firstNumeral? ('-' :: (digits ++ rest)) = some (true, digits) := by
  have taken := takeWhile_stop decimal stops
  obtain ⟨c, s, rfl⟩ := List.exists_cons_of_ne_nil some_digit
  have first := decimal c List.mem_cons_self
  have minus : ¬ isDecimal '-' = true := by decide
  rw [List.cons_append] at taken ⊢
  constructor
  · unfold firstNumeral?
    rw [if_pos first, taken]
  · unfold firstNumeral?
    rw [if_neg minus]
    simp only [if_pos first, taken]

theorem firstNumeral?_ofInt (i : Int) {rest : Text} (stops : Stops isDecimal rest) :
    firstNumeral? (ofInt i ++ rest) = some (decide (i < 0), ofNat i.natAbs) := by
  have numeral := fun n => firstNumeral?_append (ofNat_ne_nil n) (fun _ => isDecimal_of_mem_ofNat)
    stops
  cases i with
  | ofNat n => exact (numeral n).1
  | negSucc n =>
    have sign : decide (Int.negSucc n < 0) = true := decide_eq_true (Int.negSucc_lt_zero n)
    rw [sign]
    exact (numeral (n + 1)).2

/-- An integer that is written with not too many digits is the first one in what it begins. -/
theorem firstInt?_ofInt {i : Int} (short : (ofNat i.natAbs).length ≤ numeralLimit) {rest : Text}
    (stops : Stops isDecimal rest) : Statement.firstInt? (ofInt i ++ rest) = .ok (some i) := by
  have sign : (if decide (i < 0) = true then -(i.natAbs : Int) else i.natAbs) = i := by
    split
    · rename_i negative
      have below := of_decide_eq_true negative
      omega
    · rename_i positive
      have above : ¬ i < 0 := by simpa using positive
      omega
  rw [Statement.firstInt?, firstNumeral?_ofInt i stops]
  simp only [toNat?_ofNat short, sign]

theorem short_of_firstInt? {i : Int} (read : (Statement.firstInt? (ofInt i)).isOk) :
    (ofNat i.natAbs).length ≤ numeralLimit := by
  by_contra long
  have numeral := firstNumeral?_ofInt i (stops_nil isDecimal)
  have no_number : (ofNat i.natAbs).toNat? = none := by
    have many : numeralLimit < (ofNat i.natAbs).length := by omega
    rw [toNat?, if_pos (by simp [many])]
  rw [List.append_nil] at numeral
  rw [Statement.firstInt?, numeral] at read
  simp only [no_number] at read
  cases read

end Text

/-! ### Lists that end a line -/

/-- What can stand between commas in a list that ends a line. -/
structure Item (s : Text) : Prop extends Inline s where
  some_text : s ≠ []
  tight : Tight s
  marks : ∀ c ∈ s, c ∉ [',', ';']

/-- A word that can stand before a list. -/
structure Word (s : Text) : Prop extends Inline s where
  some_text : s ≠ []
  solid : ∀ c ∈ s, isBlank c = false

theorem Line.after {s t : Text} (ht : Line t) (hs : Inline s) (some_text : s ≠ [])
    (start : Stops isBlank s) (apart : Stops (· == '%') t ∨ Stops (· == '%') s.reverse) :
    Line (s ++ t) where
  toInline := hs.append ht.toInline apart
  tight := tight_append start ht.tight.finish some_text ht.some_text
  some_text := by simp [some_text]
  open_end := by
    rw [List.getLast?_append_of_ne_nil _ ht.some_text]
    exact ht.open_end

theorem Word.start {s : Text} (h : Word s) : Stops isBlank s :=
  (tight_of_stops h.solid).start

/-- What begins a line, a blank and another line are a line. -/
theorem Line.spaced {s t : Text} (ht : Line t) (hs : Inline s) (some_text : s ≠ [])
    (start : Stops isBlank s) : Line (s ++ ' ' :: t) := by
  have begun : Inline (s ++ [' ']) := hs.after (by decide)
  have whole : s ++ ' ' :: t = (s ++ [' ']) ++ t := by simp
  rw [whole]
  refine ht.after begun (by simp) (stops_append start fun e => absurd e some_text) (Or.inr ?_)
  rw [List.reverse_append]
  exact stops_cons.mpr (by decide)

/-- A word, a blank and a line are a line. -/
theorem Line.word {s t : Text} (ht : Line t) (hs : Word s) : Line (s ++ ' ' :: t) :=
  ht.spaced hs.toInline hs.some_text hs.start

namespace Item
variable {s : Text} {ps : List Text}

theorem no_comma (h : Item s) : ',' ∉ s := fun here => h.marks ',' here (by decide)

theorem line (h : Item s) : Line s :=
  ⟨h.toInline, h.tight, h.some_text, fun last => h.marks ';' (List.mem_of_getLast? last) (by decide)⟩

theorem line_join (some_part : ps ≠ []) (h : ∀ p ∈ ps, Item p) : Line (join "," ps) := by
  induction ps with
  | nil => exact absurd rfl some_part
  | cons p ps ih =>
    have here := h p List.mem_cons_self
    cases ps with
    | nil =>
      rw [join, List.intercalate_singleton]
      exact here.line
    | cons q ps =>
      have rest := ih (List.cons_ne_nil q ps) fun k hk => h k (List.mem_cons_of_mem p hk)
      rw [join] at rest ⊢
      rw [List.intercalate_cons_cons]
      refine rest.after (here.toInline.after (by decide)) (by simp)
        (stops_append here.tight.start fun e => absurd e here.some_text) (Or.inr ?_)
      rw [List.reverse_append]
      exact stops_cons.mpr (by decide)

theorem stops_join (some_part : ps ≠ []) (h : ∀ p ∈ ps, Item p) :
    Stops (· == ',') (join "," ps) := by
  obtain ⟨p, qs, rfl⟩ := List.exists_cons_of_ne_nil some_part
  have here := h p List.mem_cons_self
  have first : Stops (· == ',') p :=
    stops_of_not_mem fun c comma there => here.no_comma (beq_iff_eq.mp comma ▸ there)
  cases qs with
  | nil =>
    rw [join, List.intercalate_singleton]
    exact first
  | cons q qs =>
    rw [join, List.intercalate_cons_cons, List.append_assoc]
    exact stops_append first fun e => absurd e here.some_text

theorem pieces_join (some_part : ps ≠ []) (h : ∀ p ∈ ps, Item p) :
    pieces ',' (join "," ps) = ps :=
  Text.pieces_join some_part fun p hp => (h p hp).no_comma

end Item

/-- A text without blanks and marks can stand in a list. -/
theorem Item.of_chars {s : Text} (some_text : s ≠ [])
    (h : ∀ c ∈ s, isBlank c = false ∧ c ∉ ['%', ',', ';']) : Item s where
  toInline := .of_chars fun c hc => by
    refine ⟨isLineBreak_of_not_isBlank (h c hc).1, ?_⟩
    rintro rfl
    exact (h '%' hc).2 (by decide)
  some_text := some_text
  tight := tight_of_stops fun c hc => (h c hc).1
  marks c hc mark := (h c hc).2 (List.mem_cons_of_mem _ mark)

/-- A declaration: a name, and what it is set to. -/
theorem Item.declaration {name value : Text} (some_name : name ≠ [])
    (word : ∀ c ∈ name, isWordOrHyphen c = true) (h : Item value) :
    Item (name ++ ':' :: value) where
  toInline := .before (fun c hc => inline_of_isWordOrHyphen (word c hc))
    (h.toInline.cons (by decide) (by decide))
  some_text := by simp
  tight := by
    have start : Stops isBlank name :=
      (tight_of_stops fun c hc => isBlank_of_isWordOrHyphen (word c hc)).start
    refine tight_append start ?_ some_name (List.cons_ne_nil _ _)
    rw [List.reverse_cons]
    exact stops_append h.tight.finish fun e => absurd (List.reverse_eq_nil_iff.mp e) h.some_text
  marks := by
    intro c hc
    rcases List.mem_append.mp hc with here | here
    · intro mark
      have apart : ∀ d ∈ [',', ';'], isWordOrHyphen d = false := by decide
      have inside := word c here
      rw [apart c mark] at inside
      cases inside
    · rcases List.mem_cons.mp here with rfl | here
      · decide
      · exact h.marks c here

theorem Value.shown_int (i : Int) : (Value.number (.int i)).shown = ofInt i := rfl

theorem Word.ofNat (n : Nat) : Word (ofNat n) where
  toInline := .of_chars fun c hc => by
    have decimal := isDecimal_of_mem_ofNat hc
    refine ⟨isLineBreak_of_not_isBlank (isBlank_of_isDecimal decimal), ?_⟩
    rintro rfl
    exact not_mark_of_isDecimal decimal (by decide)
  some_text := ofNat_ne_nil n
  solid _ hc := isBlank_of_isDecimal (isDecimal_of_mem_ofNat hc)

/-- A line width, in pixels. -/
theorem Item.width (i : Int) : Item ((Value.number (.int i)).shown ++ ['p', 'x']) := by
  have unit : ∀ c ∈ ['p', 'x'], isBlank c = false ∧ c ∉ ['%', ',', ';'] := by decide
  rw [Value.shown_int]
  refine .of_chars (by simp) fun c hc => ?_
  rcases List.mem_append.mp hc with hc | hc
  · exact chars_ofInt i c hc
  · exact unit c hc

/-- A keyword, a word and a list are a line. -/
theorem Line.keyword {k word list : Text} (hl : Line list) (hw : Word word)
    (hk : ∀ c ∈ k, isBlank c = false ∧ c ≠ '%') (some_text : k ≠ []) :
    Line (k ++ ' ' :: (word ++ ' ' :: list)) := by
  refine (hl.word hw).word ⟨.of_chars fun c hc => ?_, some_text, fun c hc => (hk c hc).1⟩
  exact ⟨isLineBreak_of_not_isBlank (hk c hc).1, (hk c hc).2⟩

theorem Line.no_semicolon {s : Text} (h : Line s) : dropTrailing (· == ';') s = s := by
  refine dropTrailing_stop fun c first => ?_
  rw [List.head?_reverse] at first
  rw [beq_eq_false_iff_ne]
  rintro rfl
  exact h.open_end first

/-! ### Statements with a list -/

namespace Statement
variable {k word list : Text}

theorem afterKeyword?_append (k : Text) {rest : Text} (start : Stops isBlank rest) :
    afterKeyword? k (k ++ ' ' :: rest) = some rest := by
  rw [afterKeyword?, after?_append]
  show afterBlanks? (' ' :: rest) = some rest
  rw [afterBlanks?_cons (by decide), trimStart_stop start]

theorem wordAndRest?_append (h : Word word) (line : Line list) :
    wordAndRest? (word ++ ' ' :: list) = some (word, list) := by
  have stops : Stops (fun c => !isBlank c) (' ' :: list) := stops_cons.mpr (by decide)
  have solid : ∀ c ∈ word, (!isBlank c) = true := fun c hc => by simp [h.solid c hc]
  have split : Text.word (word ++ ' ' :: list) = (word, ' ' :: list) := by
    rw [Text.word, List.span_eq_takeWhile_dropWhile, takeWhile_stop solid stops,
      dropWhile_stop solid stops]
  have not_empty : (word.isEmpty || list.isEmpty) = false := by simp [h.some_text, line.some_text]
  rw [wordAndRest?, split]
  show (afterBlanks? (' ' :: list) >>= fun rest => _) = _
  rw [afterBlanks?_cons (by decide), trimStart_stop line.tight.start]
  show (if word.isEmpty || list.isEmpty then none else some (word, list)) = _
  rw [not_empty]
  rfl

theorem Word.stops_append (h : Word word) (rest : Text) : Stops isBlank (word ++ rest) :=
  Text.stops_append h.start fun e => absurd e h.some_text

theorem ofLine_style (h : Word word) (line : Line list) :
    ofLine ("style ".toList ++ word ++ ' ' :: list) = .style word list := by
  have whole : "style ".toList ++ word ++ ' ' :: list =
      "style".toList ++ ' ' :: (word ++ ' ' :: list) := by simp
  refine ofLine_of_fits (f := ("style", style?)) (by simp [keyed]) ?_
  show style? _ = _
  rw [whole, style?, afterKeyword?_append _ (Word.stops_append h _)]
  show (wordAndRest? (word ++ ' ' :: list) >>= fun p => _) = _
  rw [wordAndRest?_append h line]
  rfl

theorem ofLine_define (h : Word word) (line : Line list) :
    ofLine ("classDef ".toList ++ word ++ ' ' :: list) = .define word list := by
  have whole : "classDef ".toList ++ word ++ ' ' :: list =
      "classDef".toList ++ ' ' :: (word ++ ' ' :: list) := by simp
  refine ofLine_of_fits (f := ("classDef", define?)) (by simp [keyed]) ?_
  show define? _ = _
  rw [whole, define?, afterKeyword?_append _ (Word.stops_append h _)]
  show (wordAndRest? (word ++ ' ' :: list) >>= fun p => _) = _
  rw [wordAndRest?_append h line]
  rfl

/-- An assignment is read from its end. -/
theorem ofLine_assign (h : Word word) (line : Line list) :
    ofLine ("class ".toList ++ list ++ ' ' :: word) = .assign list word := by
  refine ofLine_of_fits (f := ("class", assign?)) (by simp [keyed]) ?_
  have whole : "class ".toList ++ list ++ ' ' :: word =
      "class".toList ++ (' ' :: list ++ [' '] ++ word) := by simp
  have last : ((' ' :: list ++ [' '] ++ word).reverse.takeWhile fun c => !isBlank c).reverse =
      word := by
    have solid : ∀ c ∈ word.reverse, (!isBlank c) = true :=
      fun c hc => by simp [h.solid c (List.mem_reverse.mp hc)]
    have stops : Stops (fun c => !isBlank c) (' ' :: list ++ [' ']).reverse := by
      rw [List.reverse_append]
      exact stops_cons.mpr (by decide)
    rw [List.reverse_append, takeWhile_stop solid stops, List.reverse_reverse]
  have between : (' ' :: list ++ [' '] ++ word).take
      ((' ' :: list ++ [' '] ++ word).length - word.length) = ' ' :: list ++ [' '] := by
    rw [List.length_append, Nat.add_sub_cancel, List.take_left']
    rfl
  have trimmed : trim (' ' :: list ++ [' ']) = list := by
    have := trim_append (b := [' ']) (e := [' ']) (by decide) line.tight (by decide)
    simpa using this
  have edges : (!(' ' :: list ++ [' ']).head?.any isBlank ||
      !(' ' :: list ++ [' ']).getLast?.any isBlank) = false := by
    rw [List.getLast?_append]
    rfl
  have inner : (' ' :: list ++ [' ']).all isBlank = false := by
    obtain ⟨c, s, rfl⟩ := List.exists_cons_of_ne_nil line.some_text
    simp [stops_cons.mp line.tight.start]
  have not_empty : word.isEmpty = false := by simpa using h.some_text
  show assign? _ = _
  rw [whole, assign?, after?_append]
  simp only [Option.bind_eq_bind, Option.bind_some, last, between, edges, inner, not_empty, trimmed]
  rfl

/-- A style of one edge: no place follows the first one. -/
theorem ofLine_linkStyle (place : Nat) (line : Line list) (open_start : Stops (· == ',') list) :
    ofLine ("linkStyle ".toList ++ Text.ofNat place ++ ' ' :: list) =
      .linkStyle (some (Text.ofNat place)) list := by
  refine ofLine_of_fits (f := ("linkStyle", linkStyle?)) (by simp [keyed]) ?_
  have whole : "linkStyle ".toList ++ Text.ofNat place ++ ' ' :: list =
      "linkStyle".toList ++ ' ' :: (Text.ofNat place ++ ' ' :: list) := by simp
  obtain ⟨c, digits, first⟩ := List.exists_cons_of_ne_nil (ofNat_ne_nil place)
  have decimal : ∀ c ∈ Text.ofNat place, isDecimal c = true := fun _ => isDecimal_of_mem_ofNat
  have blank : Stops isDecimal (' ' :: list) := stops_cons.mpr (by decide)
  have start : Stops isBlank (Text.ofNat place ++ ' ' :: list) := by
    rw [first]
    have digit := decimal c (by simp [first])
    exact stops_cons.mpr (isBlank_of_isDecimal digit)
  have no_word : after? "default".toList (Text.ofNat place ++ ' ' :: list) = none := by
    cases opened : after? "default".toList (Text.ofNat place ++ ' ' :: list) with
    | none => rfl
    | some r =>
      have same := after?_eq_some_iff.mp opened
      rw [first] at same
      obtain rfl : c = 'd' := (List.cons.inj same).1
      exact absurd (decimal 'd' (by simp [first])) (by decide)
  have alone : nextPlace? (' ' :: list) = none := by
    obtain ⟨d, r, rfl⟩ := List.exists_cons_of_ne_nil line.some_text
    have other : (',' == d) = false := by
      have open_start := stops_cons.mp open_start
      rw [beq_eq_false_iff_ne] at open_start ⊢
      exact Ne.symm open_start
    have trimmed : trimStart (' ' :: d :: r) = d :: r :=
      trimStart_append (s := [' ']) (by decide) line.tight.start
    rw [nextPlace?, trimmed, after?_cons_cons, other]
    rfl
  have places : placesFrom (Text.ofNat place ++ ' ' :: list).length (Text.ofNat place)
      (' ' :: list) = [(Text.ofNat place, ' ' :: list)] := by
    rw [first, List.cons_append, List.length_cons, placesFrom, alone]
  have not_empty : (Text.ofNat place).isEmpty = false := by simp [first]
  have some_list : list.isEmpty = false := by simpa using line.some_text
  show linkStyle? _ = _
  rw [whole, linkStyle?, afterKeyword?_append _ start]
  simp only [Option.bind_eq_bind, Option.bind_some, no_word, Option.bind_none,
    takeWhile_stop decimal blank, dropWhile_stop decimal blank, not_empty, places,
    List.findSome?_cons, afterBlanks?_cons (c := ' ') (by decide), trimStart_stop line.tight.start,
    some_list]
  rfl

/-- Declarations between commas are found again one by one. -/
theorem declarations_join {ds : List (Text × Text)} (some_part : ds ≠ [])
    (names : ∀ d ∈ ds, d.1 ≠ [] ∧ ∀ c ∈ d.1, isWordOrHyphen c = true)
    (values : ∀ d ∈ ds, Item d.2) (once : (Keyed.keys ds).Nodup) :
    declarations (join "," (ds.map fun d => d.1 ++ ':' :: d.2)) = ds := by
  have parts : ∀ p ∈ ds.map fun d => d.1 ++ ':' :: d.2, Item p := by
    intro p hp
    obtain ⟨d, hd, rfl⟩ := List.mem_map.mp hp
    exact Item.declaration (names d hd).1 (names d hd).2 (values d hd)
  have some_text : (ds.map fun d => d.1 ++ ':' :: d.2) ≠ [] := by simpa using some_part
  have found : ∀ found : List (Text × Text), ∀ d ∈ ds,
      declarations.declare found (d.1 ++ ':' :: d.2) = Keyed.put d found := by
    intro found d hd
    obtain ⟨some_name, word⟩ := names d hd
    have no_colon : ':' ∉ d.1 := fun here => absurd (word ':' here) (by decide)
    have name : trim d.1 = d.1 :=
      trim_tight (tight_of_stops fun c hc => isBlank_of_isWordOrHyphen (word c hc))
    have not_empty : d.1.isEmpty = false := by simpa using some_name
    rw [declarations.declare, halves?_append no_colon]
    simp only [name, not_empty, trim_tight (values d hd).tight]
    rfl
  rw [declarations, (Item.line_join some_text parts).no_semicolon,
    Item.pieces_join some_text parts, List.foldl_map, List.foldl_ext _ _ _ found]
  exact Keyed.foldl_put [] once

end Statement

/-! ### Styles -/

/-- The value is a colour that a style can name, or nothing. -/
def Value.IsColour (v : Value) : Prop := v = .null ∨ ∃ t, v = .text t ∧ Item t

/-- The value is a line width that can be written, or nothing. -/
def Value.IsWidth (v : Value) : Prop :=
  v = .null ∨ ∃ i : Int, v = .number (.int i) ∧ (Text.ofNat i.natAbs).length ≤ numeralLimit

namespace Writing

/-- The only declaration that has a unit. -/
def widthName : Text := "stroke-width"

/-- A field of a style as it is declared. -/
def declared (f : Text × Value) : Text × Text :=
  (f.1, f.2.shown ++ if f.1 = widthName then ['p', 'x'] else [])

theorem declarations_eq (fields : Fields) : declarations fields =
    ((setFields fields).map declared).map fun d => d.1 ++ ':' :: d.2 := by
  rw [declarations, List.map_map]
  refine List.map_congr_left fun f _ => ?_
  rw [List.append_assoc]
  rfl

/-- The fields of a style: a line width, and colours. -/
structure Declares (fields : Fields) : Prop where
  names : ∀ f ∈ fields, f.1 ≠ [] ∧ ∀ c ∈ f.1, isWordOrHyphen c = true
  once : (Keyed.keys fields).Nodup
  values : ∀ f ∈ fields, if f.1 = widthName then f.2.IsWidth else f.2.IsColour

theorem value_colour {k : Text} {v : Value} (name : k ≠ widthName) (h : v.IsColour) :
    if k = widthName then v.IsWidth else v.IsColour := by
  rwa [if_neg name]

theorem value_width {v : Value} (h : v.IsWidth) :
    if widthName = widthName then v.IsWidth else v.IsColour := by
  rwa [if_pos rfl]

namespace Declares
variable {fields : Fields}

theorem width (h : Declares fields) {f : Text × Value} (hf : f ∈ fields) (name : f.1 = widthName) :
    f.2.IsWidth := by
  have value := h.values f hf
  rwa [if_pos name] at value

theorem colour (h : Declares fields) {f : Text × Value} (hf : f ∈ fields)
    (name : f.1 ≠ widthName) : f.2.IsColour := by
  have value := h.values f hf
  rwa [if_neg name] at value

theorem part (h : Declares fields) : ∀ d ∈ (setFields fields).map declared,
    (d.1 ≠ [] ∧ ∀ c ∈ d.1, isWordOrHyphen c = true) ∧ Item d.2 := by
  intro d hd
  obtain ⟨f, hf, rfl⟩ := List.mem_map.mp hd
  obtain ⟨there, given⟩ := List.mem_filter.mp hf
  refine ⟨h.names f there, ?_⟩
  by_cases width : f.1 = widthName
  · rcases h.width there width with unset | ⟨i, set, _⟩
    · rw [unset] at given
      cases given
    · rw [declared, if_pos width, set]
      exact Item.width i
  · rcases h.colour there width with unset | ⟨t, set, part⟩
    · rw [unset] at given
      cases given
    · rw [declared, if_neg width, set, Value.shown_text, List.append_nil]
      exact part

theorem once_declared (h : Declares fields) :
    (Keyed.keys ((setFields fields).map declared)).Nodup := by
  have same : Keyed.keys ((setFields fields).map declared) = Keyed.keys (setFields fields) :=
    List.map_map
  rw [same]
  exact Keyed.nodup_keys_filter h.once _

/-- The declarations that are set are written as a list and found again. -/
theorem list (h : Declares fields) (some_field : setFields fields ≠ []) :
    Line (join "," (declarations fields)) ∧ Stops (· == ',') (join "," (declarations fields)) ∧
      Statement.declarations (join "," (declarations fields)) =
        (setFields fields).map declared := by
  have some_part : (setFields fields).map declared ≠ [] := by simpa using some_field
  have parts : ∀ p ∈ ((setFields fields).map declared).map fun d => d.1 ++ ':' :: d.2,
      Item p := by
    intro p hp
    obtain ⟨d, hd, rfl⟩ := List.mem_map.mp hp
    obtain ⟨⟨some_name, word⟩, value⟩ := h.part d hd
    exact .declaration some_name word value
  have found := Statement.declarations_join some_part (fun d hd => (h.part d hd).1)
    (fun d hd => (h.part d hd).2) h.once_declared
  rw [declarations_eq]
  have some_text : (((setFields fields).map declared).map fun d => d.1 ++ ':' :: d.2) ≠ [] := by
    simpa using some_part
  exact ⟨Item.line_join some_text parts, Item.stops_join some_text parts, found⟩

theorem find?_declared (h : Declares fields) {k : Text} {v : Value} (there : (k, v) ∈ fields) :
    (Keyed.find? k ((setFields fields).map declared)).map (·.2) =
      if v.isSome then some (declared (k, v)).2 else none := by
  have found : Keyed.find? k fields = some (k, v) :=
    (Keyed.find?_eq_some_iff h.once).mpr ⟨there, rfl⟩
  rw [Keyed.find?_map (f := declared) (fun _ => rfl), setFields, Keyed.find?_filter h.once, found,
    Option.filter_some]
  split <;> rfl

/-- A colour is found again in the declarations, and is open if it was. -/
theorem colour_eq (h : Declares fields) {k : Text} {v : Value} (there : (k, v) ∈ fields)
    (colour : k ≠ widthName) :
    Reading.textOr ((Keyed.find? k ((setFields fields).map declared)).map (·.2)) .null = v := by
  rw [h.find?_declared there, declared, if_neg colour, List.append_nil]
  rcases h.colour there colour with rfl | ⟨t, rfl, _⟩ <;> rfl

/-- So is a line width. -/
theorem width_eq (h : Declares fields) {v : Value} (there : (widthName, v) ∈ fields) :
    Reading.integerOr ((Keyed.find? widthName ((setFields fields).map declared)).map (·.2))
      .null = .ok v := by
  rw [h.find?_declared there, declared, if_pos rfl]
  rcases h.width there rfl with rfl | ⟨i, rfl, short⟩
  · rfl
  · have unit : Stops isDecimal ['p', 'x'] := stops_cons.mpr (by decide)
    show (Statement.firstInt? ((Value.number (.int i)).shown ++ ['p', 'x'])).map Value.ofInt? = _
    rw [Value.shown_int, firstInt?_ofInt short unit]
    rfl

end Declares
end Writing

/-! ### Styles of nodes and edges -/

theorem Value.eq_null_of_isSome {v : Value} (h : ¬ v.isSome = true) : v = .null := by
  simpa [isSome] using h

namespace NodeStyle
variable {s : NodeStyle}

/-- The fields of the style by the names that they are declared under. -/
def named (s : NodeStyle) : Fields := [
  ("fill", s.fill), ("stroke", s.stroke), (Writing.widthName, s.strokeWidth), ("color", s.color)]

/-- The style can be written, and read again. -/
structure Writable (s : NodeStyle) : Prop where
  fill : s.fill.IsColour
  stroke : s.stroke.IsColour
  strokeWidth : s.strokeWidth.IsWidth
  color : s.color.IsColour

theorem Writable.declares (h : s.Writable) : Writing.Declares s.named where
  names f hf := by
    have names : ∀ k ∈ (["fill".toList, "stroke", Writing.widthName, "color"] : List Text),
        k ≠ [] ∧ ∀ c ∈ k, isWordOrHyphen c = true := by decide
    exact names f.1 (Keyed.mem_keys hf)
  once := by
    have once : (["fill".toList, "stroke", Writing.widthName, "color"] : List Text).Nodup := by
      decide
    exact once
  values := by
    have apart : "fill".toList ≠ Writing.widthName ∧ "stroke".toList ≠ Writing.widthName ∧
        "color".toList ≠ Writing.widthName := by decide
    refine List.forall_mem_cons.mpr ⟨Writing.value_colour apart.1 h.fill, ?_⟩
    refine List.forall_mem_cons.mpr ⟨Writing.value_colour apart.2.1 h.stroke, ?_⟩
    refine List.forall_mem_cons.mpr ⟨Writing.value_width h.strokeWidth, ?_⟩
    exact List.forall_mem_singleton.mpr (Writing.value_colour apart.2.2 h.color)

/-- A style that leaves something set has something to declare. -/
theorem setFields_ne_nil (visible : s.isPlain = false) : setFields s.named ≠ [] := by
  intro nothing
  have null : ∀ f ∈ s.named, f.2 = .null :=
    fun f hf => Value.eq_null_of_isSome (List.filter_eq_nil_iff.mp nothing f hf)
  obtain ⟨fill, stroke, width, color⟩ := s
  simp only [named, List.forall_mem_cons] at null
  obtain ⟨rfl, rfl, rfl, rfl, _⟩ := null
  exact absurd visible (by decide)

/-- A node without a style gets the one that is declared. -/
theorem Writable.withStyle_eq (h : s.Writable) (visible : s.isPlain = false) {n : Node}
    (bare : n.style = none) :
    Reading.withStyle n ((setFields s.named).map Writing.declared) =
      .ok { n with style := some s } := by
  have fill := h.declares.colour_eq (k := "fill") (v := s.fill) (.head _) (by decide)
  have stroke := h.declares.colour_eq (k := "stroke") (v := s.stroke) (.tail _ (.head _)) (by decide)
  have color := h.declares.colour_eq (k := "color") (v := s.color)
    (.tail _ (.tail _ (.tail _ (.head _)))) (by decide)
  have width := h.declares.width_eq (v := s.strokeWidth) (.tail _ (.tail _ (.head _)))
  have plain : (none : Option NodeStyle).getD plain = ⟨.null, .null, .null, .null⟩ := rfl
  have unit : "stroke-width".toList = Writing.widthName := rfl
  rw [Reading.withStyle, bare]
  simp only [plain, fill, stroke, color, unit, width, bind, Except.bind]
  rw [visible]
  rfl

end NodeStyle

namespace EdgeStyle
variable {s : EdgeStyle}

/-- The fields of the style by the names that they are declared under. -/
def named (s : EdgeStyle) : Fields := [("stroke", s.stroke), (Writing.widthName, s.strokeWidth)]

/-- The style can be written, and read again. -/
structure Writable (s : EdgeStyle) : Prop where
  stroke : s.stroke.IsColour
  strokeWidth : s.strokeWidth.IsWidth

theorem Writable.declares (h : s.Writable) : Writing.Declares s.named where
  names f hf := by
    have names : ∀ k ∈ (["stroke".toList, Writing.widthName] : List Text),
        k ≠ [] ∧ ∀ c ∈ k, isWordOrHyphen c = true := by decide
    exact names f.1 (Keyed.mem_keys hf)
  once := by
    have once : (["stroke".toList, Writing.widthName] : List Text).Nodup := by decide
    exact once
  values := by
    have apart : "stroke".toList ≠ Writing.widthName := by decide
    refine List.forall_mem_cons.mpr ⟨Writing.value_colour apart h.stroke, ?_⟩
    exact List.forall_mem_singleton.mpr (Writing.value_width h.strokeWidth)

/-- A style that leaves something set has something to declare. -/
theorem setFields_ne_nil (visible : s.isPlain = false) : setFields s.named ≠ [] := by
  intro nothing
  have null : ∀ f ∈ s.named, f.2 = .null :=
    fun f hf => Value.eq_null_of_isSome (List.filter_eq_nil_iff.mp nothing f hf)
  obtain ⟨stroke, width⟩ := s
  simp only [named, List.forall_mem_cons] at null
  obtain ⟨rfl, rfl, _⟩ := null
  exact absurd visible (by decide)

/-- An edge without a style gets the one that is declared. -/
theorem Writable.withEdgeStyle_eq (h : s.Writable) (visible : s.isPlain = false) {e : Edge}
    (bare : e.style = none) :
    Reading.withEdgeStyle ((setFields s.named).map Writing.declared) e =
      .ok { e with style := some s } := by
  have stroke := h.declares.colour_eq (k := "stroke") (v := s.stroke) (.head _) (by decide)
  have width := h.declares.width_eq (v := s.strokeWidth) (.tail _ (.head _))
  have plain : (none : Option EdgeStyle).getD plain = ⟨.null, .null⟩ := rfl
  have unit : "stroke-width".toList = Writing.widthName := rfl
  rw [Reading.withEdgeStyle, bare]
  simp only [plain, stroke, unit, width, bind, Except.bind]
  rw [visible]
  rfl

end EdgeStyle
end Flowchart
