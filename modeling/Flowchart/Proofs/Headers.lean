import Flowchart.Proofs.Drawings

/-! The lines that open and close subgraphs. A subgraph opens with its id, bare or in quotes, and
with its title in square brackets if it has one of its own; both come back when the line is read. -/
namespace Flowchart
open Text

namespace Subgraph

/-- The subgraph can be opened on one line, and its id and its title can be read back. -/
structure Writable (g : Subgraph) : Prop where
  id : ∃ t, g.id = .text t ∧ ∀ c ∈ t, isLineBreak c = false
  title : ∃ t, g.title = .text t ∧ OnlyFeeds t ∧ (t = [] → g.title = g.id)

end Subgraph

namespace Statement

/-- A word in quotes or without them. -/
def word (inQuotes : Bool) (t : Text) : Text := if inQuotes then Quoted.inQuotes t else t

theorem quoted?_append {s : Text} (no_quote : '"' ∉ s) (rest : Text) :
    quoted? ('"' :: (s ++ '"' :: rest)) = some (s, rest) := by
  have inner : ∀ c ∈ s, (c != '"') = true := by
    intro c hc
    rw [bne_iff_ne]
    rintro rfl
    exact no_quote hc
  have stops : Stops (· != '"') ('"' :: rest) := stops_cons.mpr (by decide)
  have opened : after? ['"'] ('"' :: (s ++ '"' :: rest)) = some (s ++ '"' :: rest) :=
    after?_append _ _
  rw [quoted?, opened]
  simp only [Option.bind_eq_bind, Option.bind_some, takeWhile_stop inner stops,
    dropWhile_stop inner stops]

theorem quoted?_inQuotes (t rest : Text) :
    quoted? (Quoted.inQuotes t ++ rest) = some (Quoted.escape t, rest) := by
  have whole : Quoted.inQuotes t ++ rest = '"' :: (Quoted.escape t ++ '"' :: rest) := by
    simp [Quoted.inQuotes]
  rw [whole]
  exact quoted?_append (fun here => Quoted.not_mem_escape (by decide) t here) rest

theorem quoted?_of_not_mem {s : Text} (h : '"' ∉ s) : quoted? s = none := by
  cases opened : after? ['"'] s with
  | none => rw [quoted?, opened]; rfl
  | some r => exact absurd (by simp [after?_eq_some_iff.mp opened]) h

theorem bracketed?_of_not_mem {s : Text} (h : '[' ∉ s) : subgraphHeader.bracketed? s = none := by
  have kept : '[' ∉ trimStart s := fun here => h ((List.dropWhile_suffix _).subset here)
  cases opened : after? ['['] (trimStart s) with
  | none => rw [subgraphHeader.bracketed?, opened]; rfl
  | some r => exact absurd (by simp [after?_eq_some_iff.mp opened]) kept

theorem bracketed?_append (q : Text) :
    subgraphHeader.bracketed? ('[' :: (q ++ [']'])) = some q := by
  have start : trimStart ('[' :: (q ++ [']'])) = ['['] ++ (q ++ [']']) :=
    trimStart_stop (stops_cons.mpr (by decide))
  rw [subgraphHeader.bracketed?, start, after?_append]
  exact before?_append _ _

theorem titled?_inQuotes (t : Text) : subgraphHeader.titled? (Quoted.inQuotes t) = none := by
  have found := quoted?_inQuotes t []
  rw [List.append_nil] at found
  rw [subgraphHeader.titled?, found]
  rfl

theorem titled?_bare {t : Text} (no_quote : '"' ∉ t) (no_bracket : '[' ∉ t) :
    subgraphHeader.titled? t = none := by
  rw [subgraphHeader.titled?, quoted?_of_not_mem no_quote]
  simp only
  split
  · rfl
  · rw [bracketed?_of_not_mem fun here => no_bracket ((List.dropWhile_suffix _).subset here)]
    rfl

theorem titled?_inQuotes_append (t q : Text) :
    subgraphHeader.titled? (Quoted.inQuotes t ++ '[' :: (q ++ [']'])) =
      some (true, Quoted.escape t, q) := by
  rw [subgraphHeader.titled?, quoted?_inQuotes]
  simp only [bracketed?_append, Option.map_some]

theorem titled?_bare_append {t : Text} (some_text : t ≠ [])
    (plain : ∀ c ∈ t, isBlank c = false ∧ c ∉ ['[', ']', '"']) (q : Text) :
    subgraphHeader.titled? (t ++ '[' :: (q ++ [']'])) = some (false, t, q) := by
  obtain ⟨c, u, rfl⟩ := List.exists_cons_of_ne_nil some_text
  have no_quote : quoted? (c :: u ++ '[' :: (q ++ [']'])) = none := by
    have other : ('"' == c) = false := by
      have := (plain c List.mem_cons_self).2
      simp only [List.mem_cons, not_or] at this
      simpa using Ne.symm this.2.2.1
    rw [quoted?, List.cons_append, after?_cons_cons, other]
    rfl
  have inner : ∀ d ∈ c :: u, (!isBlank d && d != '[' && d != ']' && d != '"') = true := by
    intro d hd
    have := plain d hd
    simp only [List.mem_cons, not_or, List.not_mem_nil, not_false_eq_true, and_true] at this
    simpa [and_assoc] using this
  have stops : Stops (fun d => !isBlank d && d != '[' && d != ']' && d != '"')
      ('[' :: (q ++ [']'])) := stops_cons.mpr (by decide)
  rw [subgraphHeader.titled?, no_quote]
  simp only [takeWhile_stop inner stops, dropWhile_stop inner stops, bracketed?_append]
  rfl

theorem subgraphHeader_alone {t : Text} (quotes : Bool)
    (bare : quotes = false → Quoted.Bare [] t) (return_free : '\r' ∉ t) (before : Nat) :
    subgraphHeader (word quotes t) before = .ok (t, t) := by
  cases quotes with
  | true =>
    have tight : Tight (Quoted.inQuotes t) := Quoted.tight_between (by decide) _
    have trimmed : trim (Quoted.inQuotes t) = Quoted.inQuotes t := trim_tight tight
    rw [word, if_pos rfl, subgraphHeader]
    simp only [trimmed, titled?_inQuotes, Quoted.unquote_inQuotes return_free]
    rfl
  | false =>
    have bare := bare rfl
    obtain ⟨c, u, rfl⟩ := List.exists_cons_of_ne_nil bare.some_text
    have no_mark : (c == '"' || c == '\x60') = false := by
      have no_quote := bare.not_mem (c := '"') (by decide)
      have no_back := bare.not_mem (c := '\x60') (by decide)
      simp only [List.mem_cons, not_or] at no_quote no_back
      simp [Ne.symm no_quote.1, Ne.symm no_back.1]
    have untitled := titled?_bare (bare.not_mem (by decide)) (bare.not_mem (by decide))
    rw [word, if_neg Bool.false_ne_true, subgraphHeader]
    simp only [trim_tight bare.tight, untitled, List.head?_cons, Option.any_some, no_mark]
    rfl

theorem tight_word {t : Text} (quotes : Bool) (bare : quotes = false → Quoted.Bare [] t) :
    Tight (word quotes t) ∧ word quotes t ≠ [] := by
  cases quotes with
  | true => exact ⟨Quoted.tight_between (by decide) _, List.cons_ne_nil _ _⟩
  | false => exact ⟨(bare rfl).tight, (bare rfl).some_text⟩

theorem tight_titled {t : Text} (quotes : Bool) (bare : quotes = false → Quoted.Bare [] t)
    (q : Text) : Tight (word quotes t ++ '[' :: (q ++ [']'])) := by
  obtain ⟨tight, some_text⟩ := tight_word quotes bare
  refine tight_append tight.start ?_ some_text (List.cons_ne_nil _ _)
  have bracket : isBlank ']' = false := by decide
  simpa using bracket

theorem subgraphHeader_titled {t title : Text} (quotes : Bool)
    (bare : quotes = false → Quoted.Bare [] t ∧ ∀ c ∈ t, isBlank c = false) (return_free : '\r' ∉ t)
    (fed : '\r' ∉ title) (some_title : title ≠ []) (before : Nat) :
    subgraphHeader (word quotes t ++ '[' :: (Quoted.quote [] title ++ [']'])) before =
      .ok (t, title) := by
  have tight := tight_titled quotes (fun h => (bare h).1) (Quoted.quote [] title)
  have not_empty : (word quotes t ++ '[' :: (Quoted.quote [] title ++ [']'])).isEmpty = false := by
    simp
  have no_title : title.isEmpty = false := by simpa using some_title
  have titled : subgraphHeader.titled? (word quotes t ++ '[' :: (Quoted.quote [] title ++ [']'])) =
      some (quotes, if quotes then Quoted.escape t else t, Quoted.quote [] title) := by
    cases quotes with
    | true => exact titled?_inQuotes_append t _
    | false =>
      obtain ⟨bare, blank⟩ := bare rfl
      refine titled?_bare_append bare.some_text (fun c hc => ⟨blank c hc, ?_⟩) _
      have marks : ∀ d ∈ ['[', ']', '"'], Quoted.isSpecial d = true := by decide
      exact fun mark => bare.not_mem (marks c mark) hc
  rw [subgraphHeader]
  simp only [trim_tight tight, not_empty, titled, Quoted.unquote_quote [] fed]
  cases quotes with
  | true =>
    simp only [if_true, Quoted.decode_escape return_free, bind, Except.bind, no_title]
    rfl
  | false =>
    simp only [bind, Except.bind, no_title]
    rfl

theorem ofLine_subgraph {h : Text} (tight : Tight h) :
    ofLine ("subgraph ".toList ++ h) = .subgraph h := by
  have opened : after? "subgraph" ("subgraph ".toList ++ h) = some (' ' :: h) := after?_append _ _
  have blanks : afterBlanks? (' ' :: h) = some h := by
    rw [afterBlanks?_cons (by decide), trimStart_stop tight.start]
  refine ofLine_of_fits (f := ("subgraph", subgraph?)) (by simp [keyed]) ?_
  change subgraph? _ = _
  rw [subgraph?, opened]
  simp only [Option.bind_eq_bind, Option.bind_some, List.isEmpty_cons, blanks]
  rfl

end Statement

/-- An id that can stand alone holds no blank, but for a line feed at its end. -/
theorem solid_of_isBareId {t : Text} (bare : isBareId t = true) (ends : t.getLast? ≠ some '\n') :
    t ≠ [] ∧ ∀ c ∈ t, isBlank c = false := by
  have whole : before? ['\n'] t = none := by
    refine Option.eq_none_iff_forall_ne_some.mpr fun s found => ends ?_
    rw [before?_eq_some_iff.mp found, List.getLast?_concat]
  simp only [isBareId, whole, Option.getD_none, Bool.and_eq_true, Bool.not_eq_true',
    List.isEmpty_eq_false_iff, List.all_eq_true, isBareChar] at bare
  exact ⟨bare.1, fun c hc => (bare.2 c hc).1⟩

namespace Subgraph
variable {g : Subgraph}

theorem return_free {t : Text} (h : ∀ c ∈ t, isLineBreak c = false) : '\r' ∉ t :=
  fun here => absurd (h '\r' here) (by decide)

theorem inline_word {t : Text} (quotes : Bool)
    (bare : quotes = false → Quoted.Bare [] t ∧ '\n' ∉ t) (fed : OnlyFeeds t) :
    Inline (Statement.word quotes t) := by
  cases quotes with
  | true => exact Quoted.inline_inQuotes fed
  | false => exact (bare rfl).1.inline fed (bare rfl).2

/-- A word on one line stays there. -/
theorem inline_word_of_unbroken {t : Text} (quotes : Bool)
    (bare : quotes = false → Quoted.Bare [] t) (h : ∀ c ∈ t, isLineBreak c = false) :
    Inline (Statement.word quotes t) := by
  refine inline_word quotes (fun alone => ⟨bare alone, fun feed => ?_⟩) (onlyFeeds_of_unbroken h)
  exact absurd (h '\n' feed) (by decide)

theorem line_header {h : Text} (header : Line h) : Line ("subgraph ".toList ++ h) := by
  refine ⟨.before (by decide) header.toInline, tight_append ?_ header.tight.finish (by decide)
    header.some_text, by simp, ?_⟩
  · exact stops_cons.mpr (by decide)
  · rw [List.getLast?_append_of_ne_nil _ header.some_text]
    exact header.open_end

theorem line_word {t : Text} (quotes : Bool) (bare : quotes = false → Quoted.Bare [] t)
    (h : ∀ c ∈ t, isLineBreak c = false) : Line (Statement.word quotes t) := by
  obtain ⟨tight, some_text⟩ := Statement.tight_word quotes bare
  refine ⟨inline_word_of_unbroken quotes bare h, tight, some_text, ?_⟩
  cases quotes with
  | true =>
    have whole : Statement.word true t = ('"' :: Quoted.escape t) ++ ['"'] := rfl
    rw [whole, List.getLast?_concat]
    decide
  | false =>
    intro last
    exact (bare rfl).not_mem (c := ';') (by decide) (List.mem_of_getLast? last)

theorem line_titled {t title : Text} (quotes : Bool) (bare : quotes = false → Quoted.Bare [] t)
    (h : ∀ c ∈ t, isLineBreak c = false) (fed : OnlyFeeds title) :
    Line (Statement.word quotes t ++ '[' :: (Quoted.quote [] title ++ [']'])) := by
  have inline := (inline_word_of_unbroken quotes bare h).append (Quoted.inline_titled fed)
    (Or.inl (stops_cons.mpr (by decide)))
  refine ⟨inline, Statement.tight_titled quotes bare _, by simp, ?_⟩
  have whole : Statement.word quotes t ++ '[' :: (Quoted.quote [] title ++ [']']) =
      (Statement.word quotes t ++ '[' :: Quoted.quote [] title) ++ [']'] := by simp
  rw [whole, List.getLast?_concat]
  decide

/-- A subgraph that can be opened is opened by one line, and the line is read as its header. -/
theorem subgraph_eq (h : g.Writable) : ∃ id title header, g.id = .text id ∧ g.title = .text title ∧
    Writing.subgraph g = .ok ("subgraph ".toList ++ header) ∧ Line header ∧
    ∀ before, Statement.subgraphHeader header before = .ok (id, title) := by
  obtain ⟨id, hid, single⟩ := h.id
  obtain ⟨title, htitle, fed, some_title⟩ := h.title
  by_cases same : g.title = g.id
  · obtain rfl : title = id := by
      rw [htitle, hid] at same
      exact Value.text.inj same
    have bare : Quoted.needed [] title = false → Quoted.Bare [] title := Quoted.bare_iff.mp
    refine ⟨title, title, Statement.word (Quoted.needed [] title) title, hid, htitle, ?_,
      line_word _ bare single, Statement.subgraphHeader_alone _ bare (return_free single)⟩
    rw [Writing.subgraph, if_pos same, hid]
    rfl
  · have bare : (!isBareId id || Quoted.needed [] id) = false →
        Quoted.Bare [] id ∧ ∀ c ∈ id, isBlank c = false := by
      intro none_needed
      simp only [Bool.or_eq_false_iff, Bool.not_eq_false'] at none_needed
      refine ⟨Quoted.bare_iff.mp none_needed.2, (solid_of_isBareId none_needed.1 fun last => ?_).2⟩
      exact absurd (single '\n' (List.mem_of_getLast? last)) (by decide)
    have title_text : title ≠ [] := fun e => same (some_title e)
    refine ⟨id, title, Statement.word (!isBareId id || Quoted.needed [] id) id ++
      '[' :: (Quoted.quote [] title ++ [']']), hid, htitle, ?_, ?_, ?_⟩
    · rw [Writing.subgraph, if_neg same, hid, htitle]
      simp [Value.asText, Statement.word, bind, Except.bind, pure, Except.pure]
    · exact line_titled _ (fun needed => (bare needed).1) single fed
    · exact Statement.subgraphHeader_titled _ bare (return_free single) fed.no_return title_text

end Subgraph

/-! ### What these lines do -/

namespace View

/-- A new subgraph is opened inside the innermost open one. -/
def opening (v : View) (id : Text) (title : Value) : View :=
  { v with
    subgraphs := v.subgraphs ++ [{ id := .text id, title, parent := .ofText? v.opened.head? }]
    opened := id :: v.opened }

/-- The direction of a subgraph is set. -/
def turn (v : View) (id : Text) (direction : Direction) : View :=
  { v with subgraphs := v.subgraphs.map fun g =>
      if g.id = .text id then { g with direction := some direction } else g }

/-- The innermost open subgraph is closed. -/
def close (v : View) : View := { v with opened := v.opened.tail }

end View

namespace Reading
variable {r : Reading}

theorem read_subgraph {header id title : Text} (line : Line header)
    (h : ∀ before, Statement.subgraphHeader header before = .ok (id, title))
    (fresh : r.diagram.hasSubgraph (.text id) = false) :
    ∃ r', r.read (.ofLine ("subgraph ".toList ++ header)) = .ok r' ∧
      r'.view = r.view.opening id (.text title) := by
  have new : Value.text id ∉ Keyed.keys r.diagram.subgraphs := by
    rw [Diagram.hasSubgraph, ← Bool.not_eq_true, Keyed.has_iff] at fresh
    exact fresh
  have not_there : ¬ r.diagram.hasSubgraph (.text id) = true := by simp [fresh]
  rw [Statement.ofLine_subgraph line.tight, read, openSubgraph]
  simp only [h, bind, Except.bind]
  refine ⟨_, rfl, ?_⟩
  have put : Keyed.put { id := .text id, title := .text title, parent := .ofText? r.opened.head? }
      r.diagram.subgraphs = r.diagram.subgraphs ++
        [({ id := .text id, title := .text title, parent := .ofText? r.opened.head? } : Subgraph)] :=
    Keyed.put_of_not_mem new
  simp only [if_neg not_there]
  simp only [view, putSubgraph, put, View.opening]

theorem ofLine_direction (direction : Direction) :
    Statement.ofLine ("direction ".toList ++ direction.name) = .direction direction.name := by
  cases direction <;> rfl

theorem read_direction (sound : r.Sound) {id : Text} (opened : r.opened.head? = some id)
    (direction : Direction) :
    ∃ r', r.read (.ofLine ("direction ".toList ++ direction.name)) = .ok r' ∧
      r'.view = r.view.turn id direction := by
  have there := sound.opened id (List.mem_of_mem_head? opened)
  obtain ⟨g, found⟩ : ∃ g, r.diagram.subgraph? (.text id) = some g :=
    Option.isSome_iff_exists.mp (Keyed.isSome_find?.trans there)
  rw [ofLine_direction, read]
  refine ⟨_, rfl, ?_⟩
  have put := Keyed.put_change (f := fun k => { k with direction := some direction })
    sound.integral.distinct.subgraphs found rfl
  simp only [setDirection, Direction.ofToken?_name, opened, found]
  simp only [view, putSubgraph, put, View.turn]
  rfl

theorem read_close {id : Text} {outer : List Text} (opened : r.opened = id :: outer) :
    ∃ r', r.read (.ofLine "end".toList) = .ok r' ∧ r'.view = r.view.close := by
  have line : Statement.ofLine "end".toList = .close := rfl
  rw [line, read, opened]
  refine ⟨_, rfl, ?_⟩
  simp [view, View.close, opened]

end Reading
end Flowchart
