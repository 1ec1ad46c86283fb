import Flowchart.Text.Blank
import Mathlib.Data.List.Basic
import Mathlib.Data.List.TakeDrop

/-! Where texts begin and end. A text is tight if no blank stands at its ends: these are the texts
that trimming leaves alone. A text stops a class of characters if it does not go on with one of
them, so that a run before it ends there. -/
namespace Flowchart.Text

/-- The text does not begin with a character of the class. -/
def Stops (p : Char → Bool) (s : Text) : Prop := ∀ c, s.head? = some c → p c = false

@[simp] theorem stops_nil (p : Char → Bool) : Stops p [] := by
  intro c h
  cases h

@[simp] theorem stops_cons {p : Char → Bool} {c : Char} {s : Text} :
    Stops p (c :: s) ↔ p c = false := by
  simp [Stops]

theorem stops_append {p : Char → Bool} {s t : Text} (hs : Stops p s) (ht : s = [] → Stops p t) :
    Stops p (s ++ t) := by
  cases s with
  | nil => exact ht rfl
  | cons c s => simpa using hs

theorem stops_of_not_mem {p : Char → Bool} {s : Text} (h : ∀ c, p c = true → c ∉ s) :
    Stops p s := by
  intro c first
  cases hp : p c with
  | false => rfl
  | true => exact absurd (List.mem_of_mem_head? first) (h c hp)

theorem takeWhile_stop {p : Char → Bool} {s t : Text} (hs : ∀ c ∈ s, p c = true)
    (ht : Stops p t) : (s ++ t).takeWhile p = s := by
  rw [List.takeWhile_append_of_pos hs]
  cases t with
  | nil => simp
  | cons c t => simp [stops_cons.mp ht]

theorem dropWhile_stop {p : Char → Bool} {s t : Text} (hs : ∀ c ∈ s, p c = true)
    (ht : Stops p t) : (s ++ t).dropWhile p = t := by
  rw [List.dropWhile_append_of_pos hs]
  cases t with
  | nil => simp
  | cons c t => simp [stops_cons.mp ht]

theorem dropTrailing_stop {p : Char → Bool} {s : Text} (h : Stops p s.reverse) :
    dropTrailing p s = s := by
  have dropped : s.reverse.dropWhile p = s.reverse := by
    cases hs : s.reverse with
    | nil => rfl
    | cons c r =>
      rw [hs] at h
      simp [stops_cons.mp h]
  rw [dropTrailing, dropped, List.reverse_reverse]

theorem dropTrailing_append {p : Char → Bool} {s t : Text} (ht : ∀ c ∈ t, p c = true)
    (hs : Stops p s.reverse) : dropTrailing p (s ++ t) = s := by
  have both : (s ++ t).reverse = t.reverse ++ s.reverse := List.reverse_append
  rw [dropTrailing, both, dropWhile_stop (by simpa using ht) hs, List.reverse_reverse]

/-! ### Trimming -/

/-- No blank stands at the ends of the text. -/
structure Tight (s : Text) : Prop where
  start : Stops isBlank s
  finish : Stops isBlank s.reverse

theorem trimStart_stop {s : Text} (h : Stops isBlank s) : trimStart s = s := by
  cases s with
  | nil => rfl
  | cons c s => simp [trimStart, stops_cons.mp h]

theorem trimStart_append {s t : Text} (hs : ∀ c ∈ s, isBlank c = true) (ht : Stops isBlank t) :
    trimStart (s ++ t) = t := dropWhile_stop hs ht

theorem trim_tight {s : Text} (h : Tight s) : trim s = s := by
  rw [trim, trimStart_stop h.start, trimEnd, dropTrailing_stop h.finish]

theorem stops_dropWhile (p : Char → Bool) (s : Text) : Stops p (s.dropWhile p) := by
  induction s with
  | nil => simp
  | cons c s ih =>
    by_cases h : p c = true
    · simpa [h] using ih
    · have not_p : p c = false := by simpa using h
      simp [not_p]

theorem tight_trim (s : Text) : Tight (trim s) := by
  constructor
  · have start : Stops isBlank (trimStart s) := stops_dropWhile _ _
    -- what is left of a text that begins with no blank begins with the same character
    obtain ⟨gone, whole⟩ := List.dropWhile_suffix isBlank (l := (trimStart s).reverse)
    have whole' : trim s ++ gone.reverse = trimStart s := by
      rw [trim, trimEnd, dropTrailing, ← List.reverse_append, whole, List.reverse_reverse]
    intro c first
    refine start c ?_
    rw [← whole', List.head?_append, first]
    rfl
  · rw [trim, trimEnd, dropTrailing, List.reverse_reverse]
    exact stops_dropWhile _ _

theorem trim_eq_self_iff {s : Text} : trim s = s ↔ Tight s :=
  ⟨fun h => h ▸ tight_trim s, trim_tight⟩

theorem trim_blanks {s : Text} (h : ∀ c ∈ s, isBlank c = true) : trim s = [] := by
  have start : trimStart s = [] := by
    have := dropWhile_stop (t := []) h (stops_nil _)
    rwa [List.append_nil] at this
  rw [trim, start]
  rfl

theorem trim_append {b s e : Text} (hb : ∀ c ∈ b, isBlank c = true) (hs : Tight s)
    (he : ∀ c ∈ e, isBlank c = true) : trim (b ++ s ++ e) = s := by
  cases s with
  | nil =>
    refine trim_blanks fun c hc => ?_
    rcases List.mem_append.mp hc with hc | hc
    · exact hb c (by simpa using hc)
    · exact he c hc
  | cons c s =>
    rw [trim, List.append_assoc, trimStart_append hb (by simpa using hs.start), trimEnd,
      dropTrailing_append he hs.finish]

theorem exists_trim (s : Text) : ∃ b e, s = b ++ trim s ++ e ∧
    (∀ c ∈ b, isBlank c = true) ∧ ∀ c ∈ e, isBlank c = true := by
  have taken (t : Text) : ∀ c ∈ t.takeWhile isBlank, isBlank c = true :=
    fun c hc => List.all_eq_true.mp List.all_takeWhile c hc
  refine ⟨s.takeWhile isBlank, ((trimStart s).reverse.takeWhile isBlank).reverse, ?_, taken s, ?_⟩
  · have finish : trim s ++ ((trimStart s).reverse.takeWhile isBlank).reverse = trimStart s := by
      rw [trim, trimEnd, dropTrailing, ← List.reverse_append, List.takeWhile_append_dropWhile,
        List.reverse_reverse]
    rw [List.append_assoc, finish]
    exact List.takeWhile_append_dropWhile.symm
  · intro c hc
    exact taken _ c (List.mem_reverse.mp hc)

theorem trim_surround {b s e : Text} (hb : ∀ c ∈ b, isBlank c = true)
    (he : ∀ c ∈ e, isBlank c = true) : trim (b ++ s ++ e) = trim s := by
  obtain ⟨b', e', whole, hb', he'⟩ := exists_trim s
  have both : b ++ s ++ e = (b ++ b') ++ trim s ++ (e' ++ e) := by
    rw [whole, trim_append hb' (tight_trim s) he']
    simp
  have all {l m : Text} (hl : ∀ c ∈ l, isBlank c = true) (hm : ∀ c ∈ m, isBlank c = true) :
      ∀ c ∈ l ++ m, isBlank c = true := by
    intro c hc
    rcases List.mem_append.mp hc with hc | hc
    · exact hl c hc
    · exact hm c hc
  rw [both, trim_append (all hb hb') (tight_trim s) (all he' he)]

theorem tight_of_stops {s : Text} (h : ∀ c ∈ s, isBlank c = false) : Tight s := by
  constructor
  · intro c hc
    exact h c (List.mem_of_mem_head? hc)
  · intro c hc
    exact h c (List.mem_reverse.mp (List.mem_of_mem_head? hc))

theorem tight_append {s t : Text} (hs : Stops isBlank s) (ht : Stops isBlank t.reverse)
    (some_s : s ≠ []) (some_t : t ≠ []) : Tight (s ++ t) := by
  constructor
  · exact stops_append hs fun e => absurd e some_s
  · rw [List.reverse_append]
    exact stops_append ht fun e => absurd (List.reverse_eq_nil_iff.mp e) some_t

theorem afterBlanks?_cons {c : Char} (h : isBlank c = true) (s : Text) :
    afterBlanks? (c :: s) = some (trimStart s) := by
  rw [afterBlanks?, if_pos h]

theorem afterBlanks?_stop {s : Text} (h : Stops isBlank s) : afterBlanks? s = none := by
  cases s with
  | nil => rfl
  | cons c s => rw [afterBlanks?, if_neg (by simp [stops_cons.mp h])]

/-! ### Runs of neighbours -/

theorem has_iff {part s : Text} : has part s = true ↔ part <:+: s := by
  induction s with
  | nil => simp [has]
  | cons c s ih =>
    simp only [has, Bool.or_eq_true, List.isPrefixOf_iff_prefix, ih, List.infix_cons_iff]

theorem has_eq_false_iff {part s : Text} : has part s = false ↔ ¬ part <:+: s := by
  rw [← has_iff, Bool.not_eq_true]

theorem upTo_eq_self {part s : Text} (h : ¬ part <:+: s) : upTo part s = s := by
  induction s with
  | nil => rfl
  | cons c s ih =>
    have not_here : ¬ part.isPrefixOf (c :: s) = true := fun here =>
      h (List.isPrefixOf_iff_prefix.mp here).isInfix
    rw [upTo, if_neg not_here, ih fun inner => h (List.infix_cons inner)]

/-- Two characters are neighbours in a text that is put together if they are so in a part, or if
one part ends with the first and the other begins with the second. -/
theorem pair_infix_append {x y : Char} {s t : Text} :
    [x, y] <:+: s ++ t ↔
      [x, y] <:+: s ∨ [x, y] <:+: t ∨ (s.getLast? = some x ∧ t.head? = some y) := by
  rw [List.infix_append_iff_ne_nil]
  refine or_congr_right (or_congr_right ⟨?_, ?_⟩)
  · rintro ⟨l, m, some_l, some_m, whole, ⟨s', rfl⟩, ⟨t', rfl⟩⟩
    cases l with
    | nil => exact absurd rfl some_l
    | cons a l =>
      obtain ⟨rfl, rest⟩ := List.cons.inj whole
      cases l with
      | nil =>
        obtain rfl : m = [y] := rest.symm
        simp
      | cons b l =>
        cases m with
        | nil => exact absurd rfl some_m
        | cons _ _ => simp at rest
  · rintro ⟨last, first⟩
    obtain ⟨s', rfl⟩ := List.getLast?_eq_some_iff.mp last
    cases t with
    | nil => cases first
    | cons d t =>
      obtain rfl : d = y := by simpa using first
      exact ⟨[x], [d], by simp, by simp, rfl, ⟨s', rfl⟩, ⟨t, rfl⟩⟩

/-- A run of characters of a class does not reach from one part into the other if the second
begins with none of them, or if the first ends with none. -/
theorem not_infix_append {p : Char → Bool} {part s t : Text} (run : ∀ c ∈ part, p c = true)
    (hs : ¬ part <:+: s) (ht : ¬ part <:+: t) (apart : Stops p t ∨ Stops p s.reverse) :
    ¬ part <:+: s ++ t := by
  intro inner
  rcases List.infix_append_iff_ne_nil.mp inner with
    here | here | ⟨l, m, some_l, some_m, whole, hl, hm⟩
  · exact hs here
  · exact ht here
  · rcases apart with stops | stops
    · obtain ⟨c, m, rfl⟩ := List.exists_cons_of_ne_nil some_m
      obtain ⟨t', rfl⟩ := hm
      have here := run c (by simp [whole])
      rw [stops_cons.mp stops] at here
      cases here
    · obtain ⟨l, c, rfl⟩ := List.eq_nil_or_concat l |>.resolve_left some_l
      obtain ⟨s', rfl⟩ := hl
      have here := run c (by simp [whole])
      have none_last : p c = false := by simpa using stops
      rw [none_last] at here
      cases here

theorem not_infix_of_not_mem {c : Char} {part s : Text} (hc : c ∈ part) (h : c ∉ s) :
    ¬ part <:+: s := fun inner => h (inner.subset hc)

/-! ### Beginnings and ends -/

/-- A prefix that the second part cannot begin in is a prefix of the first part. -/
theorem prefix_of_prefix_append {p s t : Text} (h : p <+: s ++ t)
    (apart : ∀ c, t.head? = some c → c ∉ p) : p <+: s := by
  rcases List.prefix_or_prefix_of_prefix h (List.prefix_append s t) with inner | ⟨r, rfl⟩
  · exact inner
  · cases r with
    | nil => simp
    | cons c r =>
      have first : (c :: r) <+: t := (List.prefix_append_right_inj s).mp h
      obtain ⟨u, rfl⟩ := first
      exact absurd (List.mem_append_right s List.mem_cons_self) (apart c rfl)

theorem suffix_of_suffix_append {e s t : Text} (h : e <:+ s ++ t)
    (apart : ∀ c, s.getLast? = some c → c ∉ e) : e <:+ t := by
  rw [← List.reverse_prefix, List.reverse_append] at h
  rw [← List.reverse_prefix]
  refine prefix_of_prefix_append h fun c last here => ?_
  rw [List.head?_reverse] at last
  exact apart c last (List.mem_reverse.mp here)

theorem before?_append (s ending : Text) : before? ending (s ++ ending) = some s :=
  before?_eq_some_iff.mpr rfl

theorem after?_append (start s : Text) : after? start (start ++ s) = some s :=
  after?_eq_some_iff.mpr rfl

theorem beforeFinal?_append (s ending : Text) : beforeFinal? ending (s ++ ending) = some s := by
  rw [beforeFinal?, before?_append]
  rfl

theorem beforeFinal?_eq_none {ending s : Text} (none_here : ¬ ending <:+ s)
    (last : s.getLast? ≠ some '\n') : beforeFinal? ending s = none := by
  have first : before? ending s = none := by
    rw [Option.eq_none_iff_forall_ne_some]
    intro r h
    exact none_here ⟨r, (before?_eq_some_iff.mp h).symm⟩
  have second : before? (ending ++ ['\n']) s = none := by
    rw [Option.eq_none_iff_forall_ne_some]
    intro r h
    rw [before?_eq_some_iff] at h
    rw [h, ← List.append_assoc, List.getLast?_concat] at last
    exact last rfl
  rw [beforeFinal?, first, second]
  rfl

/-! ### Pieces -/

/-- A text before the first of some pieces. -/
def glue (s : Text) (ps : List Text) : List Text := (s ++ ps.headD []) :: ps.tail

theorem glue_glue (s t : Text) (ps : List Text) : glue s (glue t ps) = glue (s ++ t) ps := by
  simp [glue]

theorem glue_nil {ps : List Text} (h : ps ≠ []) : glue [] ps = ps := by
  obtain ⟨p, ps, rfl⟩ := List.exists_cons_of_ne_nil h
  rfl

end Flowchart.Text
