import Flowchart.Proofs.Characters
import Flowchart.Proofs.Operators
import Flowchart.Source.Link

/-! Where a line has a link and where it has none. A link begins with one of four runs, after the
mark of a tip or an id or neither; where none of the runs begins there is no link. A written
operator is found as a whole, with the label after it and the id before it. -/
namespace Flowchart.Link
open Text

/-- The runs that operators are drawn with. -/
def strokeRuns : List Text := ["--", "==", "-.", "~~~"]

/-- None of the runs begins here. -/
def Quiet (s : Text) : Prop := ∀ run ∈ strokeRuns, ¬ run <+: s

theorem quiet_of_head {c : Char} (h : c ∉ ['-', '=', '~']) (s : Text) : Quiet (c :: s) := by
  have heads : ∀ run ∈ strokeRuns, run.head?.any fun c => ['-', '=', '~'].contains c := by decide
  intro run hr pre
  obtain ⟨t, whole⟩ := pre
  cases run with
  | nil => exact absurd (heads [] hr) (by decide)
  | cons d run =>
    obtain ⟨rfl, _⟩ := List.cons.inj whole
    have := heads _ hr
    simp only [List.head?_cons, Option.any_some, List.contains_iff_mem] at this
    exact h this

theorem afterStroke?_quiet {s : Text} (h : Quiet s) : afterStroke? s = none := by
  unfold afterStroke?
  split
  · exact absurd ⟨_, rfl⟩ (h "==" (by decide))
  · exact absurd ⟨_, rfl⟩ (h "-." (by decide))
  · exact absurd ⟨_, rfl⟩ (h "--" (by decide))
  · rfl

theorem afterSourceMark_cases (before : Option Char) {c : Char} {s : Text} (h : c ≠ '<') :
    afterSourceMark before (c :: s) = c :: s ∨
      (c = 'o' ∨ c = 'x') ∧ afterSourceMark before (c :: s) = s := by
  unfold afterSourceMark
  split
  · rename_i r same
    exact absurd (List.cons.inj same).1 h
  · rename_i d r _ same
    obtain ⟨rfl, rfl⟩ := List.cons.inj same
    split
    · rename_i mark
      have letter : c = 'o' ∨ c = 'x' := by
        simp only [Bool.and_eq_true, Bool.or_eq_true, beq_iff_eq] at mark
        exact mark.1
      exact Or.inr ⟨letter, rfl⟩
    · exact Or.inl rfl
  · rename_i same
    cases same

theorem plainFrom?_brace (id : Option Text) (before : Option Char) (s : Text) :
    plainFrom? id before ('\x7b' :: s) = none := rfl

/-- There is no operator where no run begins, nor after a letter that is read as a mark. -/
theorem plainFrom?_quiet {id : Option Text} {before : Option Char} {c : Char} {s : Text}
    (no_arrow : c ≠ '<') (here : Quiet (c :: s))
    (next : afterSourceMark before (c :: s) = c :: s ∨ Quiet s) :
    plainFrom? id before (c :: s) = none := by
  have none_plain : afterPlain? before (c :: s) = none := by
    unfold afterPlain?
    split
    · rename_i r same
      exact absurd ⟨r, same.symm⟩ (here "~~~" (by decide))
    · rcases afterSourceMark_cases before no_arrow with same | ⟨_, same⟩
      · rw [same, afterStroke?_quiet here]
        rfl
      · rcases next with unmarked | quiet
        · rw [unmarked, afterStroke?_quiet here]
          rfl
        · rw [same, afterStroke?_quiet quiet]
          rfl
  rw [plainFrom?, none_plain]
  rfl

theorem afterLabelled?_eq_none {stroke : Stroke} {s : Text}
    (h : ∀ t, (after? ['<'] s).getD s = opening stroke ++ t → Stops isBlank t) :
    afterLabelled? stroke s = none := by
  unfold afterLabelled?
  simp only [Option.bind_eq_bind]
  cases opened : after? (opening stroke) ((after? ['<'] s).getD s) with
  | none => rfl
  | some t =>
    have stops := h t (after?_eq_some_iff.mp opened)
    simp only [Option.bind_some, afterBlanks?_stop stops, Option.bind_none]

theorem labelledAt?_eq_none {s : Text}
    (h : ∀ stroke t, (after? ['<'] s).getD s = opening stroke ++ t → Stops isBlank t) :
    labelledAt? s = none := by
  rw [labelledAt?, List.findSome?_eq_none_iff]
  intro stroke _
  rw [afterLabelled?_eq_none (h stroke)]
  rfl

theorem opening_mem (stroke : Stroke) : opening stroke ∈ strokeRuns := by
  cases stroke <;> decide

theorem after?_arrow {c : Char} (h : c ≠ '<') (s : Text) :
    (after? ['<'] (c :: s)).getD (c :: s) = c :: s := by
  have other : ('<' == c) = false := by simpa using Ne.symm h
  rw [after?_cons_cons, other]
  rfl

theorem dropWhile_word {s t : Text} (no_sign : '@' ∉ s) (stops : Stops isWordOrHyphen t) {r : Text}
    (h : (s ++ t).dropWhile isWordOrHyphen = '@' :: r) : t = '@' :: r := by
  induction s with
  | nil => rwa [List.nil_append, ← List.nil_append t, dropWhile_stop (by simp) stops] at h
  | cons c s ih =>
    rw [List.cons_append, List.dropWhile_cons] at h
    split at h
    · exact ih (fun here => no_sign (List.mem_cons_of_mem c here)) h
    · exact absurd ((List.cons.inj h).1 ▸ List.mem_cons_self) no_sign

theorem idAt?_of_no_sign (before : Option Char) {s : Text}
    (h : ∀ r, s.dropWhile isWordOrHyphen ≠ '@' :: r) : idAt? before s = none := by
  unfold idAt?
  simp only
  split
  · rfl
  · rw [Option.map_eq_none_iff, Option.eq_none_iff_forall_ne_some]
    intro r opened
    exact h r (after?_eq_some_iff.mp opened)

/-- No id stands here that a link could follow. -/
def Anonymous (before : Option Char) (s : Text) : Prop :=
  before.any (fun b => !isBlank b) = true ∨
    ∀ r, s.dropWhile isWordOrHyphen = '@' :: r → ∃ t, r = '\x7b' :: t

theorem at?_eq_none {before : Option Char} {c : Char} {s : Text} (no_arrow : c ≠ '<')
    (here : Quiet (c :: s)) (next : afterSourceMark before (c :: s) = c :: s ∨ Quiet s)
    (anonymous : Anonymous before (c :: s)) : at? before (c :: s) = none := by
  have no_label : labelledAt? (c :: s) = none := by
    refine labelledAt?_eq_none fun stroke t opened => ?_
    rw [after?_arrow no_arrow] at opened
    exact absurd ⟨t, opened.symm⟩ (here _ (opening_mem stroke))
  have no_id : ((idAt? before (c :: s)).bind fun p => plainFrom? (some p.1) (some '@') p.2) =
      none := by
    cases found : idAt? before (c :: s) with
    | none => rfl
    | some both =>
      obtain ⟨id, r⟩ := both
      unfold idAt? at found
      simp only [Bool.or_eq_true] at found
      split at found
      · cases found
      · rename_i free
        obtain ⟨r', opened, same⟩ := Option.map_eq_some_iff.mp found
        obtain ⟨rfl, rfl⟩ := Prod.mk.inj same
        rcases anonymous with after | none_after
        · exact absurd (Or.inr after) free
        · obtain ⟨t, rfl⟩ := none_after r' (after?_eq_some_iff.mp opened)
          exact plainFrom?_brace (some (List.takeWhile isWordOrHyphen (c :: s))) (some '@') t
  have whole : plainAt? before (c :: s) =
      ((idAt? before (c :: s)).bind fun p => plainFrom? (some p.1) (some '@') p.2).orElse
        fun _ => plainFrom? none before (c :: s) := rfl
  rw [at?, no_label, whole, no_id, plainFrom?_quiet no_arrow here next]
  rfl

theorem at?_quiet {before : Option Char} {c : Char} {s : Text} (no_arrow : c ≠ '<')
    (here : Quiet (c :: s)) (next : c = 'o' ∨ c = 'x' → Quiet s)
    (anonymous : Anonymous before (c :: s)) :
    at? before (c :: s) = none := by
  refine at?_eq_none no_arrow here ?_ anonymous
  exact (afterSourceMark_cases before no_arrow).imp_right fun marked => next marked.1

/-! ### Written operators -/

/-- What a written operator may be followed by: a blank, or the label between pipes. -/
def Ends (r : Text) : Prop := r.head? = some ' ' ∨ r.head? = some '|'

theorem Ends.stops {r : Text} (h : Ends r) {p : Char → Bool} (blank : p ' ' = false)
    (pipe : p '|' = false) : Stops p r := by
  intro c first
  rcases h with h | h <;> rw [h] at first
  · rwa [← Option.some.inj first]
  · rwa [← Option.some.inj first]

theorem endMark_stops (target : Tip) {r : Text} (h : target = .none → Ends r) {p : Char → Bool}
    (blank : p ' ' = false) (pipe : p '|' = false)
    (marks : ∀ c ∈ ['>', 'o', 'x'], p c = false) : Stops p (target.endMark ++ r) := by
  cases target with
  | none => exact (h rfl).stops blank pipe
  | arrow => exact stops_cons.mpr (marks '>' (by simp))
  | circle => exact stops_cons.mpr (marks 'o' (by simp))
  | cross => exact stops_cons.mpr (marks 'x' (by simp))

theorem afterTargetMark_endMark (target : Tip) {r : Text} (h : Ends r) :
    afterTargetMark (target.endMark ++ r) = r := by
  have before : (r.head?.all fun d => isBlank d || d == '|') = true := by
    rcases h with h | h <;> rw [h] <;> decide
  cases target with
  | arrow => rfl
  | circle =>
    change (if ('o' == 'o' || 'o' == 'x') && (r.head?.all fun d => isBlank d || d == '|') then r
      else 'o' :: r) = r
    rw [before]
    rfl
  | cross =>
    change (if ('x' == 'o' || 'x' == 'x') && (r.head?.all fun d => isBlank d || d == '|') then r
      else 'x' :: r) = r
    rw [before]
    rfl
  | none =>
    obtain ⟨c, t, rfl⟩ : ∃ c t, r = c :: t := by
      cases r with
      | nil => rcases h with h | h <;> cases h
      | cons c t => exact ⟨c, t, rfl⟩
    rcases h with h | h
    · obtain rfl : c = ' ' := Option.some.inj h
      rfl
    · obtain rfl : c = '|' := Option.some.inj h
      rfl

theorem afterStroke?_body {stroke : Stroke} (visible : stroke ≠ .invisible) (target : Tip)
    (length : Int) {r : Text} (h : target = .none → Ends r) :
    afterStroke? (Operator.body stroke target length ++ (target.endMark ++ r)) =
      some (target.endMark ++ r) := by
  have all : ∀ (c : Char) (k : Nat), ∀ d ∈ List.replicate k c, (d == c) = true := by
    intro c k d hd
    rw [(List.mem_replicate.mp hd).2]
    exact beq_self_eq_true c
  cases stroke with
  | invisible => exact absurd rfl visible
  | normal =>
    have stops : Stops (· == '-') (target.endMark ++ r) :=
      endMark_stops target h (by decide) (by decide) (by decide)
    obtain ⟨k, hk⟩ := Nat.exists_eq_add_of_le (Operator.two_le_repeats (Or.inl rfl) length)
    rw [Operator.body, hk, Nat.add_comm]
    · exact congrArg some (dropWhile_stop (all '-' k) stops)
    · rintro ⟨⟩
  | thick =>
    have stops : Stops (· == '=') (target.endMark ++ r) :=
      endMark_stops target h (by decide) (by decide) (by decide)
    obtain ⟨k, hk⟩ := Nat.exists_eq_add_of_le (Operator.two_le_repeats (Or.inr rfl) length)
    rw [Operator.body, hk, Nat.add_comm]
    · exact congrArg some (dropWhile_stop (all '=' k) stops)
    · rintro ⟨⟩
  | dotted =>
    obtain ⟨k, hk⟩ := Nat.exists_eq_add_of_le (Operator.one_le_repeats .dotted target length)
    -- the dots end at the hyphen that closes the stroke, whatever the mark of the target is
    have stops : Stops (· == '.') ('-' :: (target.endMark ++ r)) := by simp
    have body : Operator.body .dotted target length ++ (target.endMark ++ r) =
        '-' :: '.' :: (List.replicate k '.' ++ '-' :: (target.endMark ++ r)) := by
      rw [Operator.body, hk, Nat.add_comm]
      simp [List.replicate_succ, Stroke.char]
    rw [body]
    change after? ['-'] ((List.replicate k '.' ++ '-' :: (target.endMark ++ r)).dropWhile _) = _
    rw [dropWhile_stop (all '.' k) stops]
    exact after?_append ['-'] _

theorem afterSourceMark_startMark (source : Tip) {before : Char}
    (free : isBlank before = true ∨ before = '@') {c : Char} (h : c = '-' ∨ c = '=') (s : Text) :
    afterSourceMark (some before) (source.startMark ++ c :: s) = c :: s := by
  have loose : (isBlank before || before == '@') = true := by
    rcases free with blank | rfl
    · rw [blank]; rfl
    · decide
  cases source with
  | arrow => rfl
  | circle =>
    change (if ('o' == 'o' || 'o' == 'x') && (isBlank before || before == '@') then c :: s
      else 'o' :: c :: s) = c :: s
    rw [loose]
    rfl
  | cross =>
    change (if ('x' == 'o' || 'x' == 'x') && (isBlank before || before == '@') then c :: s
      else 'x' :: c :: s) = c :: s
    rw [loose]
    rfl
  | none => rcases h with rfl | rfl <;> rfl

theorem afterPlain?_of_head {before : Option Char} {s : Text} (h : s.head? ≠ some '~') :
    afterPlain? before s = (afterStroke? (afterSourceMark before s)).map afterTargetMark := by
  unfold afterPlain?
  split
  · exact absurd rfl h
  · rfl

theorem afterPlain?_write {stroke : Stroke} {source target : Tip}
    (tips : stroke = .invisible → source = .none ∧ target = .none) (length : Int)
    {before : Char} (free : isBlank before = true ∨ before = '@') {r : Text} (h : Ends r) :
    afterPlain? (some before) (Operator.write stroke source target length ++ r) = some r := by
  by_cases visible : stroke = .invisible
  · subst visible
    have long : 3 ≤ (Operator.repeats .invisible target length).toNat := by
      simp only [Operator.repeats]
      omega
    obtain ⟨k, hk⟩ := Nat.exists_eq_add_of_le long
    have run : ∀ d ∈ List.replicate k '~', (d == '~') = true := by simp
    have whole : Operator.write .invisible source target length ++ r =
        '~' :: '~' :: '~' :: (List.replicate k '~' ++ r) := by
      rw [Operator.write_invisible, hk, Nat.add_comm]
      rfl
    rw [whole]
    exact congrArg some (dropWhile_stop run (h.stops (by decide) (by decide)))
  · obtain ⟨c, hc, ⟨s, first⟩, _⟩ := Operator.body_ends visible target length
    have whole : Operator.write stroke source target length ++ r =
        source.startMark ++ c :: (s ++ (target.endMark ++ r)) := by
      rw [Operator.write_eq visible, first]
      simp
    have start : (source.startMark ++ c :: (s ++ (target.endMark ++ r))).head? ≠ some '~' := by
      cases source with
      | none => rcases hc with rfl | rfl <;> rintro ⟨⟩
      | _ => rintro ⟨⟩
    have body : c :: (s ++ (target.endMark ++ r)) =
        Operator.body stroke target length ++ (target.endMark ++ r) := by
      rw [first]
      rfl
    rw [whole, afterPlain?_of_head start, afterSourceMark_startMark source free hc, body,
      afterStroke?_body visible target length fun _ => h, Option.map_some,
      afterTargetMark_endMark target h]

theorem taken_append (s rest : Text) : taken (s ++ rest) rest = s := by
  rw [taken, List.length_append, Nat.add_sub_cancel, List.take_left]

/-- The label of a link as it stands after the operator. -/
def piped : Option Text → Text
  | some label => '|' :: label ++ ['|']
  | none => []

/-- Is the character a blank or a pipe? -/
def isGap (c : Char) : Bool := isBlank c || c == '|'

theorem pipedLabel_piped {label : Option Text} (h : ∀ l, label = some l → '|' ∉ l) {s : Text}
    (apart : Stops isGap s) : pipedLabel (piped label ++ ' ' :: s) = (label, ' ' :: s) := by
  have no_gap : ∀ c, s.head? = some c → isBlank c = false ∧ c ≠ '|' := by
    intro c first
    simpa [isGap] using apart c first
  cases label with
  | none =>
    have stops : Stops (fun c => c == ' ' || c == '\t') s := by
      intro c first
      obtain ⟨plain, _⟩ := no_gap c first
      rw [Bool.or_eq_false_iff, beq_eq_false_iff_ne, beq_eq_false_iff_ne]
      constructor <;> rintro rfl <;> exact absurd plain (by decide)
    have dropped : (piped none ++ ' ' :: s).dropWhile (fun c => c == ' ' || c == '\t') = s :=
      dropWhile_stop (s := [' ']) (by simp) stops
    unfold pipedLabel
    rw [dropped]
    split
    · exact absurd rfl (no_gap '|' rfl).2
    · rfl
  | some l =>
    have no_pipe : ∀ d ∈ l, (d != '|') = true := by
      intro d hd
      have : d ≠ '|' := fun e => h l rfl (e ▸ hd)
      simpa using this
    have stops : Stops (fun d => d != '|') ('|' :: ' ' :: s) := by simp
    have whole : piped (some l) ++ ' ' :: s = '|' :: (l ++ '|' :: ' ' :: s) := by
      simp [piped]
    have opened : ('|' :: (l ++ '|' :: ' ' :: s)).dropWhile
        (fun c => c == ' ' || c == '\t') = '|' :: (l ++ '|' :: ' ' :: s) := rfl
    unfold pipedLabel
    simp only [whole, opened, takeWhile_stop no_pipe stops, dropWhile_stop no_pipe stops]

theorem ends_piped (label : Option Text) (rest : Text) : Ends (piped label ++ ' ' :: rest) := by
  cases label with
  | none => exact Or.inl rfl
  | some l => exact Or.inr rfl

section
variable {stroke : Stroke} {source target : Tip} {length : Int} {label : Option Text} {s : Text}

theorem plainFrom?_write (tips : stroke = .invisible → source = .none ∧ target = .none)
    (h : ∀ l, label = some l → '|' ∉ l) (apart : Stops isGap s) (id : Option Text) {before : Char}
    (free : isBlank before = true ∨ before = '@') :
    plainFrom? id (some before)
        (Operator.write stroke source target length ++ (piped label ++ ' ' :: s)) =
      some (⟨Operator.write stroke source target length, label, id⟩, ' ' :: s) := by
  rw [plainFrom?, afterPlain?_write tips length free (ends_piped label _)]
  simp only [Option.bind_eq_bind, Option.bind_some, pipedLabel_piped h apart, taken_append]
  rfl

theorem three_le_length (visible : stroke ≠ .invisible) :
    3 ≤ (Operator.body stroke target length ++ target.endMark).length := by
  have run := Operator.one_le_repeats stroke target length
  cases stroke with
  | invisible => exact absurd rfl visible
  | dotted =>
    simp only [Operator.body, List.cons_append, List.length_cons, List.length_append,
      List.length_replicate]
    omega
  | _ =>
    simp only [Operator.body, List.length_append, List.length_replicate, Operator.repeats]
    cases target <;> simp only [Tip.endMark, reduceCtorEq, if_true, if_false, List.length_cons,
      List.length_nil] <;> omega

theorem exists_three {s : Text} (h : 3 ≤ s.length) : ∃ a b d t, s = a :: b :: d :: t := by
  match s with
  | a :: b :: d :: t => exact ⟨a, b, d, t, rfl⟩

theorem three_le_length_write (tips : stroke = .invisible → source = .none ∧ target = .none) :
    3 ≤ (Operator.write stroke source target length).length := by
  by_cases visible : stroke = .invisible
  · subst visible
    rw [Operator.write_invisible, List.length_replicate, (tips rfl).2]
    simp only [Operator.repeats]
    omega
  · have long : 3 ≤ (Operator.body stroke target length ++ target.endMark).length :=
      three_le_length visible
    rw [Operator.write_eq visible, List.length_append]
    omega

theorem head?_write_ne (no_arrow : source ≠ .arrow) :
    (Operator.write stroke source target length).head? ≠ some '<' := by
  by_cases visible : stroke = .invisible
  · subst visible
    rw [Operator.write_invisible]
    intro first
    have := (List.mem_replicate.mp (List.mem_of_mem_head? first)).2
    exact absurd this (by decide)
  · obtain ⟨c, hc, ⟨s, first⟩, _⟩ := Operator.body_ends visible target length
    rw [Operator.write_eq visible, first]
    cases source with
    | arrow => exact absurd rfl no_arrow
    | none => rcases hc with rfl | rfl <;> rintro ⟨⟩
    | _ => rintro ⟨⟩

/-- After the mark of an arrow at the source, if there is one, a written operator has at least
three characters. -/
theorem exists_inner (tips : stroke = .invisible → source = .none ∧ target = .none) :
    ∃ inner, 3 ≤ inner.length ∧ (∀ c ∈ inner, Operator.isSymbol c = true) ∧
      ∀ rest, (after? ['<'] (Operator.write stroke source target length ++ rest)).getD
        (Operator.write stroke source target length ++ rest) = inner ++ rest := by
  have symbols := Operator.isSymbol_write stroke source target length
  by_cases arrow : source = .arrow
  · subst arrow
    have visible : stroke ≠ .invisible := fun e => by cases (tips e).1
    rw [Operator.write_eq visible] at symbols
    refine ⟨_, three_le_length visible, fun c hc => symbols c (List.mem_append_right _ hc), ?_⟩
    intro rest
    rw [Operator.write_eq visible]
    rfl
  · have long : 3 ≤ (Operator.write stroke source target length).length :=
      three_le_length_write tips
    have no_arrow : (Operator.write stroke source target length).head? ≠ some '<' :=
      head?_write_ne arrow
    refine ⟨_, long, symbols, fun rest => ?_⟩
    obtain ⟨a, b, d, t, same⟩ := exists_three long
    rw [same] at no_arrow ⊢
    exact after?_arrow (fun e => no_arrow (e ▸ rfl)) _

/-- No label begins inside a written operator: after the run that could open one comes no
blank. -/
theorem labelledAt?_write (tips : stroke = .invisible → source = .none ∧ target = .none)
    (rest : Text) : labelledAt? (Operator.write stroke source target length ++ rest) = none := by
  obtain ⟨inner, long, symbols, after⟩ := exists_inner tips
  obtain ⟨a, b, d, t, rfl⟩ := exists_three long
  refine labelledAt?_eq_none fun other r opened => ?_
  have two : ∃ x y, opening other = [x, y] := by cases other <;> exact ⟨_, _, rfl⟩
  obtain ⟨x, y, two⟩ := two
  rw [after, two] at opened
  obtain ⟨_, opened⟩ := List.cons.inj opened
  obtain ⟨_, opened⟩ := List.cons.inj opened
  change d :: t ++ rest = r at opened
  rw [← opened]
  exact stops_cons.mpr (Operator.isBlank_of_isSymbol (symbols d (by simp)))

/-- No id is read before an operator that stands there without one. -/
theorem idAt?_write (before : Option Char) {rest : Text} (h : Ends rest) :
    idAt? before (Operator.write stroke source target length ++ rest) = none := by
  have no_sign : '@' ∉ Operator.write stroke source target length := fun here =>
    absurd (Operator.isSymbol_write _ _ _ _ '@' here) (by decide)
  have no_end : rest.head? ≠ some '@' := by rcases h with h | h <;> rw [h] <;> decide
  refine idAt?_of_no_sign before fun r found => ?_
  rcases dropWhile_word no_sign (h.stops (by decide) (by decide)) found with same
  exact absurd (same ▸ rfl) no_end

theorem at?_write (tips : stroke = .invisible → source = .none ∧ target = .none)
    (h : ∀ l, label = some l → '|' ∉ l) (apart : Stops isGap s) :
    at? (some ' ') (Operator.write stroke source target length ++ (piped label ++ ' ' :: s)) =
      some (⟨Operator.write stroke source target length, label, none⟩, ' ' :: s) := by
  rw [at?, labelledAt?_write tips, plainAt?, idAt?_write _ (ends_piped label _),
    plainFrom?_write tips h apart none (Or.inl (by decide))]
  rfl

section
variable {id : Text} (some_id : id ≠ []) (word : ∀ d ∈ id, isWordOrHyphen d = true)
include some_id word

/-- No label begins at an id: what could open one is followed by another character of the id, or
has the at sign in it. -/
theorem labelledAt?_id (rest : Text) : labelledAt? (id ++ '@' :: rest) = none := by
  obtain ⟨a, id, rfl⟩ := List.exists_cons_of_ne_nil some_id
  have no_arrow : a ≠ '<' := by
    rintro rfl
    exact absurd (word '<' List.mem_cons_self) (by decide)
  refine labelledAt?_eq_none fun other r opened => ?_
  rw [List.cons_append, after?_arrow no_arrow] at opened
  obtain ⟨x, y, two, no_sign⟩ : ∃ x y, opening other = [x, y] ∧ y ≠ '@' := by
    cases other <;> exact ⟨_, _, rfl, by decide⟩
  rw [two] at opened
  have after : id ++ '@' :: rest = y :: r := (List.cons.inj opened).2
  cases id with
  | nil => exact absurd (List.cons.inj after).1.symm no_sign
  | cons b id =>
    rw [← (List.cons.inj after).2]
    refine stops_append (fun d first => ?_) fun _ => stops_cons.mpr (by decide)
    exact isBlank_of_isWordOrHyphen (word d (by simp [List.mem_of_mem_head? first]))

theorem idAt?_id (rest : Text) : idAt? (some ' ') (id ++ '@' :: rest) = some (id, rest) := by
  have stops : Stops isWordOrHyphen ('@' :: rest) := by
    rw [stops_cons]
    decide
  have not_empty : id.isEmpty = false := by simpa using some_id
  have blank : (some ' ').any (fun b => !isBlank b) = false := by decide
  rw [idAt?]
  simp only [takeWhile_stop word stops, dropWhile_stop word stops, not_empty, blank]
  rfl

/-- An operator is also read where an id stands before it. -/
theorem at?_write_id (tips : stroke = .invisible → source = .none ∧ target = .none)
    (h : ∀ l, label = some l → '|' ∉ l) (apart : Stops isGap s) :
    at? (some ' ') (id ++ '@' ::
        (Operator.write stroke source target length ++ (piped label ++ ' ' :: s))) =
      some (⟨Operator.write stroke source target length, label, some id⟩, ' ' :: s) := by
  rw [at?, labelledAt?_id some_id word, plainAt?, idAt?_id some_id word]
  simp only [Option.bind_eq_bind, Option.bind_some]
  rw [plainFrom?_write tips h apart (some id) (Or.inr rfl)]
  rfl

end

end

end Flowchart.Link
