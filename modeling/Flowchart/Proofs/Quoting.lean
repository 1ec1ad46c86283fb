import Flowchart.Proofs.Codes
import Flowchart.Proofs.Texts

/-! Whatever form a text is written in, it reads back. A written text is either bare, and then
there is nothing in it that has a meaning in the notation, or it stands between double quotes,
and then no double quote, no line feed and no comment mark is inside. -/
namespace Flowchart.Quoted
open Entity Text

theorem writes_escapeChar {c : Char} (g : Guard) (plain : c ≠ '#') (kept : c ≠ '\r') :
    Writes c (escapeChar g c) := by
  unfold escapeChar
  split
  · exact absurd rfl plain
  · split
    · exact .code "37" (by decide) (by decide) rfl (by decide) (by decide)
    · exact .plain plain
  · exact .code "quot" (by decide) (by decide) rfl (by decide) (by decide)
  · exact .code "96" (by decide) (by decide) rfl (by decide) (by decide)
  · exact absurd rfl kept
  · exact .code "10" (by decide) (by decide) rfl (by decide) (by decide)
  · exact .plain plain

theorem escapeChar_hash (g : Guard) :
    escapeChar g '#' = if g.hash then "#35;".toList else ['#'] := rfl

theorem escapeChar_percent (g : Guard) :
    escapeChar g '%' = if g.percent then "#37;".toList else ['%'] := rfl

theorem writes_hash (s : Text) :
    escapeChar (.of s) '#' = ['#'] ∧ hasCode s = false ∨
      Writes '#' (escapeChar (.of s) '#') := by
  have hash : (Guard.of s).hash = hasCode s := rfl
  rw [escapeChar_hash, hash]
  cases hasCode s with
  | false => exact Or.inl ⟨rfl, rfl⟩
  | true =>
    right
    exact .code "35" (by decide) (by decide) rfl (by decide) (by decide)

theorem decode_escape {s : Text} (h : '\r' ∉ s) : decode (escape s) = .ok s :=
  decode_written (fun _ hc plain => writes_escapeChar (.of s) plain fun e => h (e ▸ hc))
    (writes_hash s)

/-! ### What is left in an escaped text -/

/-- Characters that codes are made of. -/
def isCode (c : Char) : Bool := c == '#' || c == ';' || c.isAlphanum

/-- Characters that are never left in what is written for any character. -/
def isSpent (c : Char) : Bool := c == '"' || c == '\x60' || c == '\r' || c == '\n'

theorem mem_escapeChar {c d : Char} {g : Guard} (h : d ∈ escapeChar g c) :
    d = c ∧ isSpent c = false ∨ isCode d = true := by
  have codes : ∀ code ∈ ["#35;".toList, "#37;".toList, "#quot;".toList, "#96;".toList,
      "#10;".toList], ∀ e ∈ code, isCode e = true := by decide
  have code : ∀ code ∈ ["#35;".toList, "#37;".toList, "#quot;".toList, "#96;".toList,
      "#10;".toList], d ∈ code → d = c ∧ isSpent c = false ∨ isCode d = true :=
    fun code hc hd => Or.inr (codes code hc d hd)
  unfold escapeChar at h
  split at h
  · split at h
    · exact code _ (by decide) h
    · exact Or.inl ⟨List.mem_singleton.mp h, by decide⟩
  · split at h
    · exact code _ (by decide) h
    · exact Or.inl ⟨List.mem_singleton.mp h, by decide⟩
  · exact code _ (by decide) h
  · exact code _ (by decide) h
  · exact absurd h List.not_mem_nil
  · exact code _ (by decide) h
  · rename_i c _ _ no_quote no_back no_return no_feed
    refine Or.inl ⟨List.mem_singleton.mp h, ?_⟩
    simp only [isSpent, Bool.or_eq_false_iff, beq_eq_false_iff_ne]
    exact ⟨⟨⟨no_quote, no_back⟩, no_return⟩, no_feed⟩

theorem mem_escape {d : Char} {s : Text} (h : d ∈ escape s) :
    d ∈ s ∧ isSpent d = false ∨ isCode d = true := by
  obtain ⟨c, hc, here⟩ := List.mem_flatMap.mp h
  rcases mem_escapeChar here with ⟨rfl, kept⟩ | code
  · exact Or.inl ⟨hc, kept⟩
  · exact Or.inr code

theorem not_mem_escape {d : Char} (h : isSpent d = true) (s : Text) : d ∉ escape s := by
  intro here
  rcases mem_escape here with ⟨_, kept⟩ | code
  · rw [h] at kept
    cases kept
  · simp only [isSpent, Bool.or_eq_true, beq_iff_eq] at h
    rcases h with ((rfl | rfl) | rfl) | rfl <;> exact absurd code (by decide)

theorem escapeChar_ne_nil {c : Char} (h : c ≠ '\r') (g : Guard) : escapeChar g c ≠ [] := by
  unfold escapeChar
  split
  · split <;> exact List.cons_ne_nil _ _
  · split <;> exact List.cons_ne_nil _ _
  · exact List.cons_ne_nil _ _
  · exact List.cons_ne_nil _ _
  · exact absurd rfl h
  · exact List.cons_ne_nil _ _
  · exact List.cons_ne_nil _ _

theorem percent_mem_escapeChar {c : Char} {g : Guard} (h : '%' ∈ escapeChar g c) :
    c = '%' ∧ g.percent = false ∧ escapeChar g c = ['%'] := by
  rcases mem_escapeChar h with ⟨rfl, _⟩ | code
  · cases hp : g.percent with
    | false => exact ⟨rfl, rfl, by rw [escapeChar_percent, hp]; rfl⟩
    | true =>
      rw [escapeChar_percent, hp] at h
      exact absurd h (by decide)
  · exact absurd code (by decide)

/-- No comment begins in what is written in this way: percent signs that follow each other are
all written as codes. -/
theorem no_comment_flatMap {w : Char → Text} {s : Text} (kept : ∀ c ∈ s, w c ≠ [])
    (percent : ∀ c ∈ s, '%' ∈ w c → c = '%' ∧ w c = ['%'] ∧ ¬ ['%', '%'] <:+: s) :
    ¬ ['%', '%'] <:+: s.flatMap w := by
  induction s with
  | nil => simp
  | cons c s ih =>
    have inner := ih (fun d hd => kept d (List.mem_cons_of_mem c hd)) fun d hd here => by
      obtain ⟨same, written, alone⟩ := percent d (List.mem_cons_of_mem c hd) here
      exact ⟨same, written, fun pair => alone (List.infix_cons pair)⟩
    rw [List.flatMap_cons, pair_infix_append]
    rintro (pair | pair | ⟨last, first⟩)
    · have here : '%' ∈ w c := pair.subset (by simp)
      obtain ⟨_, written, _⟩ := percent c List.mem_cons_self here
      rw [written] at pair
      exact absurd pair.length_le (by decide)
    · exact inner pair
    · obtain ⟨rfl, _, alone⟩ := percent c List.mem_cons_self (List.mem_of_getLast? last)
      cases s with
      | nil => cases first
      | cons d s =>
        -- what is written for the next character begins with a percent sign
        have here : '%' ∈ w d := by
          have some_d := kept d (by simp)
          obtain ⟨e, t, written⟩ := List.exists_cons_of_ne_nil some_d
          rw [List.flatMap_cons, written, List.cons_append, List.head?_cons] at first
          rw [written, Option.some.inj first]
          exact List.mem_cons_self
        obtain ⟨rfl, _, _⟩ := percent d (by simp) here
        exact alone ⟨[], s, rfl⟩

theorem no_comment_escape {s : Text} (h : '\r' ∉ s) : ¬ ['%', '%'] <:+: escape s := by
  refine no_comment_flatMap (fun c hc => escapeChar_ne_nil (fun e => h (e ▸ hc)) _) ?_
  intro c _ here
  obtain ⟨same, alone, written⟩ := percent_mem_escapeChar here
  exact ⟨same, written, has_eq_false_iff.mp alone⟩

/-! ### Inside and outside quotes -/

/-- Outside double quotes all characters of the text have a property. Quotes are closed. -/
inductive Outside (p : Char → Prop) : Text → Prop where
  | nil : Outside p []
  | char {c : Char} {s : Text} (no_quote : c ≠ '"') (here : p c) (rest : Outside p s) :
      Outside p (c :: s)
  | quoted {e s : Text} (inner : '"' ∉ e) (rest : Outside p s) :
      Outside p ('"' :: (e ++ '"' :: s))

theorem Outside.append {p : Char → Prop} {s t : Text} (hs : Outside p s) (ht : Outside p t) :
    Outside p (s ++ t) := by
  induction hs with
  | nil => exact ht
  | char no_quote here _ ih => exact .char no_quote here ih
  | quoted inner _ ih =>
    rw [List.cons_append, List.append_assoc, List.cons_append]
    exact .quoted inner ih

theorem outside_of_chars {p : Char → Prop} {s : Text} (h : ∀ c ∈ s, c ≠ '"' ∧ p c) :
    Outside p s := by
  induction s with
  | nil => exact .nil
  | cons c s ih =>
    obtain ⟨no_quote, here⟩ := h c List.mem_cons_self
    exact .char no_quote here (ih fun d hd => h d (List.mem_cons_of_mem c hd))

theorem outside_inQuotes (p : Char → Prop) (s : Text) : Outside p (inQuotes s) :=
  .quoted (s := []) (not_mem_escape (by decide) s) .nil

/-! ### Taking the quotes off -/

theorem tight_between {q : Char} (h : isBlank q = false) (s : Text) : Tight (q :: s ++ [q]) :=
  ⟨by simpa using h, by simpa using h⟩

theorem peel_cons (q : Char) (r : Text) : peel (q :: r) =
    if 4 ≤ (q :: r).length && ['"', '\x60'].isPrefixOf (q :: r) &&
        ['\x60', '"'].isSuffixOf (q :: r) then
      ((q :: r).drop 2).dropLast.dropLast
    else if r.getLast? = some q && isQuote q then r.dropLast else q :: r := rfl

theorem peel_cons_of_no_markdown {q : Char} {r : Text}
    (h : ['"', '\x60'].isPrefixOf (q :: r) = false) :
    peel (q :: r) = if r.getLast? = some q && isQuote q then r.dropLast else q :: r := by
  rw [peel_cons, h, Bool.and_false, Bool.false_and, if_neg Bool.false_ne_true]

theorem peel_inQuotes {s : Text} (h : Stops (· == '\x60') s) : peel ('"' :: s ++ ['"']) = s := by
  have no_markdown : ['"', '\x60'].isPrefixOf ('"' :: (s ++ ['"'])) = false := by
    cases s with
    | nil => rfl
    | cons c s =>
      have other : ('\x60' == c) = false := by
        have := stops_cons.mp h
        rwa [Bool.beq_comm]
      change ('"' == '"' && ('\x60' == c && true)) = false
      rw [other]
      rfl
  have closed : ((s ++ ['"']).getLast? = some '"' && isQuote '"') = true := by simp [isQuote]
  rw [List.cons_append, peel_cons_of_no_markdown no_markdown, if_pos closed, List.dropLast_concat]

theorem peel_asMarkdown (s : Text) : peel ('"' :: '\x60' :: s ++ ['\x60', '"']) = s := by
  have long : decide (4 ≤ ('"' :: '\x60' :: s ++ ['\x60', '"']).length) = true := by simp
  have start : ['"', '\x60'].isPrefixOf ('"' :: '\x60' :: s ++ ['\x60', '"']) = true :=
    List.isPrefixOf_iff_prefix.mpr ⟨s ++ ['\x60', '"'], rfl⟩
  have finish : ['\x60', '"'].isSuffixOf ('"' :: '\x60' :: s ++ ['\x60', '"']) = true :=
    List.isSuffixOf_iff_suffix.mpr ⟨'"' :: '\x60' :: s, rfl⟩
  have twice : s ++ ['\x60', '"'] = s ++ ['\x60'] ++ ['"'] := by simp
  simp only [List.cons_append] at long start finish ⊢
  rw [peel_cons, if_pos (by rw [long, start, finish]; rfl)]
  simp only [List.drop_succ_cons, List.drop_zero]
  rw [twice, List.dropLast_concat, List.dropLast_concat]

theorem peel_bare {s : Text} (h : Stops isQuote s) : peel s = s := by
  cases s with
  | nil => rfl
  | cons c s =>
    have no_quote : isQuote c = false := stops_cons.mp h
    have other : ('"' == c) = false := by
      rw [beq_eq_false_iff_ne]
      rintro rfl
      exact absurd no_quote (by decide)
    have no_markdown : ['"', '\x60'].isPrefixOf (c :: s) = false := by
      change ('"' == c && _) = false
      rw [other]
      rfl
    rw [peel_cons_of_no_markdown no_markdown, no_quote, Bool.and_false, if_neg Bool.false_ne_true]

theorem unquote_inQuotes {s : Text} (h : '\r' ∉ s) : unquote (inQuotes s) = .ok s := by
  have no_back : Stops (· == '\x60') (escape s) := by
    refine stops_of_not_mem fun c back => ?_
    rw [beq_iff_eq.mp back]
    exact not_mem_escape (by decide) s
  rw [unquote, inQuotes, trim_tight (tight_between (by decide) _), peel_inQuotes no_back,
    decode_escape h]

theorem unquote_asMarkdown {s : Text} (h : '\r' ∉ s) : unquote (asMarkdown s) = .ok s := by
  have tight : Tight ('"' :: '\x60' :: escape s ++ ['\x60', '"']) := by
    have quote : isBlank '"' = false := by decide
    exact ⟨by simpa using quote, by simpa using quote⟩
  rw [unquote, asMarkdown, trim_tight tight, peel_asMarkdown, decode_escape h]

/-! ### Bare texts -/

/-- A text that has to be put in no quotes. -/
structure Bare (delimiters : List Text) (s : Text) : Prop where
  tight : Tight s
  some_text : s ≠ []
  plain : ∀ c ∈ s, isSpecial c = false
  calm : ∀ run ∈ specialRuns, ¬ run <:+: s
  apart : ∀ d ∈ delimiters, d ≠ [] → ¬ d <:+: s
  ascii : ∀ c ∈ s, c.toNat ≤ 0x7f

theorem bare_iff {delimiters : List Text} {s : Text} :
    needed delimiters s = false ↔ Bare delimiters s := by
  have unfolded : needed delimiters s = false ↔ trim s = s ∧ s ≠ [] ∧
      (∀ c ∈ s, isSpecial c = false) ∧ (∀ run ∈ specialRuns, ¬ run <:+: s) ∧
      (∀ d ∈ delimiters, d ≠ [] → ¬ d <:+: s) ∧ ∀ c ∈ s, c.toNat ≤ 0x7f := by
    simp only [needed, Bool.or_eq_false_iff, bne_eq_false_iff_eq, List.any_eq_false,
      has_iff, Bool.and_eq_true, Bool.not_eq_true', List.isEmpty_eq_false_iff, decide_eq_true_eq,
      Nat.not_lt, not_and, Bool.not_eq_true, and_assoc, eq_comm (a := s) (b := trim s)]
  rw [unfolded]
  exact ⟨fun ⟨tight, some_text, plain, calm, apart, ascii⟩ =>
      ⟨trim_eq_self_iff.mp tight, some_text, plain, calm, apart, ascii⟩,
    fun h => ⟨trim_tight h.tight, h.some_text, h.plain, h.calm, h.apart, h.ascii⟩⟩

theorem Bare.not_mem {delimiters : List Text} {s : Text} (h : Bare delimiters s) {c : Char}
    (special : isSpecial c = true) : c ∉ s := by
  intro hc
  rw [h.plain c hc] at special
  cases special

theorem unquote_bare {delimiters : List Text} {s : Text} (h : Bare delimiters s) :
    unquote s = .ok s := by
  have no_quote : Stops isQuote s := by
    refine stops_of_not_mem fun c quote => ?_
    simp only [isQuote, Bool.or_eq_true, beq_iff_eq] at quote
    rcases quote with (rfl | rfl) | rfl <;> exact h.not_mem (by decide)
  rw [unquote, trim_tight h.tight, peel_bare no_quote, decode_of_no_hash (h.not_mem (by decide))]

theorem quote_cases (delimiters : List Text) (s : Text) :
    quote delimiters s = inQuotes s ∨ quote delimiters s = asMarkdown s ∨
      quote delimiters s = s ∧ Bare delimiters s ∧ '\n' ∉ s := by
  unfold quote
  split
  · exact Or.inl rfl
  · split
    · exact Or.inr (Or.inl rfl)
    · split
      · exact Or.inl rfl
      · rename_i no_markdown bare
        refine Or.inr (Or.inr ⟨rfl, bare_iff.mp (by simpa using bare), ?_⟩)
        intro feed
        simp [feed] at no_markdown

theorem unquote_quote (delimiters : List Text) {s : Text} (h : '\r' ∉ s) :
    unquote (quote delimiters s) = .ok s := by
  rcases quote_cases delimiters s with form | form | ⟨form, bare, _⟩
  · rw [form, unquote_inQuotes h]
  · rw [form, unquote_asMarkdown h]
  · rw [form, unquote_bare bare]

/-! ### Labels -/

theorem labelChar_pipe (g : Guard) : labelChar g '|' = "#124;" := rfl

theorem labelChar_apostrophe (g : Guard) : labelChar g '\'' = "#39;" := rfl

theorem labelChar_other {c : Char} (no_pipe : c ≠ '|') (no_apostrophe : c ≠ '\'') (g : Guard) :
    labelChar g c = escapeChar g c := by
  unfold labelChar
  split
  · exact absurd rfl no_pipe
  · exact absurd rfl no_apostrophe
  · rfl

theorem labelChar_cases (g : Guard) (c : Char) :
    c = '|' ∧ labelChar g c = "#124;" ∨ c = '\'' ∧ labelChar g c = "#39;" ∨
      c ≠ '|' ∧ c ≠ '\'' ∧ labelChar g c = escapeChar g c := by
  by_cases pipe : c = '|'
  · exact Or.inl ⟨pipe, pipe ▸ labelChar_pipe g⟩
  · by_cases apostrophe : c = '\''
    · exact Or.inr (Or.inl ⟨apostrophe, apostrophe ▸ labelChar_apostrophe g⟩)
    · exact Or.inr (Or.inr ⟨pipe, apostrophe, labelChar_other pipe apostrophe g⟩)

theorem writes_labelChar {c : Char} (g : Guard) (plain : c ≠ '#') (kept : c ≠ '\r') :
    Writes c (labelChar g c) := by
  rcases labelChar_cases g c with ⟨rfl, written⟩ | ⟨rfl, written⟩ | ⟨_, _, written⟩
  · rw [written]
    exact .code "124" (by decide) (by decide) rfl (by decide) (by decide)
  · rw [written]
    exact .code "39" (by decide) (by decide) rfl (by decide) (by decide)
  · rw [written]
    exact writes_escapeChar g plain kept

theorem mem_labelChar {c d : Char} {g : Guard} (h : d ∈ labelChar g c) :
    d = c ∧ isSpent c = false ∧ c ≠ '|' ∧ c ≠ '\'' ∨ isCode d = true := by
  have codes : ∀ code ∈ ["#124;".toList, "#39;".toList], ∀ e ∈ code, isCode e = true := by decide
  rcases labelChar_cases g c with ⟨_, written⟩ | ⟨_, written⟩ | ⟨pipe, apostrophe, written⟩
  · exact Or.inr (codes _ (by decide) d (written ▸ h))
  · exact Or.inr (codes _ (by decide) d (written ▸ h))
  · rcases mem_escapeChar (written ▸ h) with ⟨same, kept⟩ | code
    · exact Or.inl ⟨same, kept, pipe, apostrophe⟩
    · exact Or.inr code

/-- A label before it is put in quotes, if it is. -/
def labelBody (s : Text) : Text := s.flatMap (labelChar (.of s))

theorem label_eq (s : Text) :
    label s = if labelBody s != trim (labelBody s) then '"' :: labelBody s ++ ['"']
      else labelBody s := rfl

theorem decode_labelBody {s : Text} (h : '\r' ∉ s) : decode (labelBody s) = .ok s := by
  refine decode_written (fun _ hc plain => writes_labelChar _ plain fun e => h (e ▸ hc)) ?_
  rw [labelChar_other (by decide) (by decide)]
  exact writes_hash s

theorem mem_labelBody {d : Char} {s : Text} (h : d ∈ labelBody s) :
    (d ∈ s ∧ isSpent d = false ∧ d ≠ '|' ∧ d ≠ '\'') ∨ isCode d = true := by
  obtain ⟨c, hc, here⟩ := List.mem_flatMap.mp h
  rcases mem_labelChar here with ⟨rfl, kept⟩ | code
  · exact Or.inl ⟨hc, kept⟩
  · exact Or.inr code

theorem not_mem_labelBody {d : Char} (h : (isSpent d || d == '|' || d == '\'') = true)
    (s : Text) : d ∉ labelBody s := by
  intro here
  rcases mem_labelBody here with ⟨_, kept, pipe, apostrophe⟩ | code
  · simp [kept, pipe, apostrophe] at h
  · simp only [isSpent, Bool.or_eq_true, beq_iff_eq] at h
    rcases h with ((((rfl | rfl) | rfl) | rfl) | rfl) | rfl <;> exact absurd code (by decide)

theorem unquote_label {s : Text} (h : '\r' ∉ s) : unquote (label s) = .ok s := by
  have no_back : Stops (· == '\x60') (labelBody s) := by
    refine stops_of_not_mem fun c back => ?_
    rw [beq_iff_eq.mp back]
    exact not_mem_labelBody (by decide) s
  have no_quote : Stops isQuote (labelBody s) := by
    refine stops_of_not_mem fun c quote => ?_
    simp only [isQuote, Bool.or_eq_true, beq_iff_eq] at quote
    rcases quote with (rfl | rfl) | rfl <;> exact not_mem_labelBody (by decide) s
  rw [label_eq]
  by_cases loose : (labelBody s != trim (labelBody s)) = true
  · rw [if_pos loose, unquote, trim_tight (tight_between (by decide) _), peel_inQuotes no_back,
      decode_labelBody h]
  · rw [if_neg loose]
    have tight : trim (labelBody s) = labelBody s := by
      rw [bne_iff_ne, ne_eq, Decidable.not_not] at loose
      exact loose.symm
    rw [unquote, tight, peel_bare no_quote, decode_labelBody h]

theorem mem_label {d : Char} {s : Text} (h : d ∈ label s) :
    (d ∈ s ∧ isSpent d = false ∧ d ≠ '|' ∧ d ≠ '\'') ∨ isCode d = true ∨ d = '"' := by
  rw [label_eq] at h
  split at h
  · rcases List.mem_append.mp h with here | here
    · rcases List.mem_cons.mp here with rfl | here
      · exact Or.inr (Or.inr rfl)
      · exact (mem_labelBody here).imp_right Or.inl
    · exact Or.inr (Or.inr (List.mem_singleton.mp here))
  · exact (mem_labelBody h).imp_right Or.inl

theorem not_mem_label {d : Char} (h : (isSpent d || d == '|' || d == '\'') = true)
    (plain : isCode d = false ∧ d ≠ '"') (s : Text) : d ∉ label s := by
  intro here
  rcases mem_label here with ⟨_, kept, pipe, apostrophe⟩ | code | quote
  · simp [kept, pipe, apostrophe] at h
  · rw [plain.1] at code
    cases code
  · exact plain.2 quote

theorem no_comment_labelBody {s : Text} (h : '\r' ∉ s) : ¬ ['%', '%'] <:+: labelBody s := by
  refine no_comment_flatMap (fun c hc => ?_) fun c _ here => ?_
  · have kept := escapeChar_ne_nil (fun e => h (e ▸ hc)) (.of s)
    rcases labelChar_cases (.of s) c with ⟨_, written⟩ | ⟨_, written⟩ | ⟨_, _, written⟩
    · rw [written]
      decide
    · rw [written]
      decide
    · rwa [written]
  · rcases labelChar_cases (.of s) c with ⟨_, written⟩ | ⟨_, written⟩ | ⟨_, _, written⟩
    · exact absurd (written ▸ here) (by decide)
    · exact absurd (written ▸ here) (by decide)
    · rw [written] at here ⊢
      obtain ⟨same, alone, written⟩ := percent_mem_escapeChar here
      exact ⟨same, written, has_eq_false_iff.mp alone⟩

/-! ### What is written is read -/

/-- Whichever form a text is written in, between any delimiters or as a label, it is read as it was,
and a label stays between its pipes and on its line. -/
theorem written_text_reads_back {s : Text} (h : '\r' ∉ s) (delimiters : List Text) :
    quote delimiters s ∈ [s, inQuotes s, asMarkdown s] ∧
    unquote (quote delimiters s) = .ok s ∧ unquote (label s) = .ok s ∧
    '|' ∉ label s ∧ '\n' ∉ label s := by
  have form : quote delimiters s ∈ [s, inQuotes s, asMarkdown s] := by
    rcases quote_cases delimiters s with form | form | ⟨form, _⟩ <;> simp [form]
  have no_pipe : '|' ∉ label s := not_mem_label (by decide) (by decide) s
  have no_feed : '\n' ∉ label s := not_mem_label (by decide) (by decide) s
  exact ⟨form, unquote_quote delimiters h, unquote_label h, no_pipe, no_feed⟩

theorem awkward_text_reads_back :
    '\r' ∉ (" `a`|#quot; 'b'\n\"100%%\" " : Text) ∧
    unquote (quote ["[", "]"] " `a`|#quot; 'b'\n\"100%%\" ") = .ok " `a`|#quot; 'b'\n\"100%%\" " ∧
    unquote (label " `a`|#quot; 'b'\n\"100%%\" ") = .ok " `a`|#quot; 'b'\n\"100%%\" " := by
  have no_return : '\r' ∉ (" `a`|#quot; 'b'\n\"100%%\" " : Text) := by decide
  obtain ⟨_, quoted, label, _⟩ := written_text_reads_back no_return ["[", "]"]
  exact ⟨no_return, quoted, label⟩

end Flowchart.Quoted
