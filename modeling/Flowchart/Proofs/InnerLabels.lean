import Flowchart.Proofs.Chaining
import Flowchart.Proofs.Parts
import Flowchart.Proofs.RoundTrip

/-! Operators with a label inside. A quoted label may stand inside an operator, between its opening
run and the run that shows its length, whatever the label holds. The operator is found as a whole
and read as the operator without it, so an edge with its label inside is the edge with its label
between pipes. -/
namespace Flowchart
open Text

namespace Operator

/-- What follows the run that shows the length, at the end of an operator. -/
def ending (stroke : Stroke) (target : Tip) : Text :=
  match stroke with
  | .dotted => '-' :: target.endMark
  | _ => target.endMark

/-- The part of an operator that closes it after a label. -/
def closing (stroke : Stroke) (target : Tip) (length : Int) : Text :=
  List.replicate (repeats stroke target length).toNat stroke.char ++ ending stroke target

/-- The operator of an edge with a label inside. -/
def around (stroke : Stroke) (source target : Tip) (length : Int) (label : Text) : Text :=
  source.startMark ++ (Link.opening stroke ++ ' ' :: (label ++ ' ' :: closing stroke target length))

/-- A label as it is quoted, whatever it holds. -/
def quoted (t : Text) : Text := '"' :: (t ++ ['"'])

example : around .normal .none .arrow 1 (quoted "t") = "-- \"t\" -->" := by decide

/-! ### Nothing is read that holds a quote -/

theorem isDots_of_quote {opening s : Text} (plain : '"' ∉ opening) (h : '"' ∈ s) :
    isDots opening s = false := by
  rw [Bool.eq_false_iff]
  intro dots
  obtain ⟨n, _, rfl⟩ := eq_of_isDots dots
  simp [plain] at h

theorem plain?_of_quote {s : Text} (h : '"' ∈ s) : plain? s = none := by
  rcases start : takeStart s with ⟨source, r⟩
  rcases finish : takeEnd r with ⟨target, b⟩
  have in_rest : '"' ∈ r := by
    rw [startMark_append_of_takeStart start] at h
    refine (List.mem_append.mp h).resolve_left ?_
    cases source <;> decide
  have in_body : '"' ∈ b := by
    rw [append_endMark_of_takeEnd finish] at in_rest
    refine (List.mem_append.mp in_rest).resolve_right ?_
    cases target <;> decide
  have none_drawn : bodyStroke? b = none := by
    rw [bodyStroke?, isRun_of_mem in_body (by decide), isDots_of_quote (by decide) in_body,
      isRun_of_mem in_body (by decide)]
    rfl
  rw [plain?, isRun_of_mem h (by decide)]
  simp [start, finish, none_drawn]

theorem mem_trimStart {s : Text} {c : Char} (h : c ∈ s) (blank : isBlank c = false) :
    c ∈ trimStart s := by
  rw [← List.takeWhile_append_dropWhile (p := isBlank) (l := s)] at h
  refine (List.mem_append.mp h).resolve_left fun before => ?_
  have skipped := List.all_eq_true.mp (List.all_takeWhile (l := s)) c before
  rw [blank] at skipped
  cases skipped

theorem closes_of_quote (stroke : Stroke) (target : Tip) {s : Text} (h : '"' ∈ s) :
    closes stroke target s = false := by
  have trimmed := mem_trimStart h (by decide)
  unfold closes
  split
  · rfl
  · rename_i run closed
    rw [before?_eq_some_iff.mp closed] at trimmed
    have in_run : '"' ∈ run := by
      refine (List.mem_append.mp trimmed).resolve_right ?_
      cases target <;> decide
    cases stroke with
    | dotted => exact isDots_of_quote (by decide) in_run
    | _ => exact isRun_of_mem in_run (by decide) _

theorem suffix_of_closes {stroke : Stroke} {target : Tip} {s : Text}
    (h : closes stroke target s = true) : target.endMark <:+ s := by
  unfold closes at h
  split at h
  · cases h
  · rename_i run closed
    have ends : target.endMark <:+ s.trimStart := ⟨run, (before?_eq_some_iff.mp closed).symm⟩
    exact ends.trans (List.dropWhile_suffix isBlank)

/-! ### The label of an operator -/

theorem shortest_append {close : Text → Bool} {p s : Text} (some_text : p ≠ [])
    (here : close s = true) (before : ∀ v, v ≠ [] → v <:+ p → close (v ++ s) = false) :
    shortest close (p ++ s) = some p := by
  induction p with
  | nil => exact absurd rfl some_text
  | cons c p ih =>
    rw [List.cons_append, shortest]
    cases p with
    | nil => rw [List.nil_append, if_pos here]
    | cons d p =>
      rw [before _ (List.cons_ne_nil d p) (List.suffix_cons c _), if_neg Bool.false_ne_true,
        ih (List.cons_ne_nil d p) fun v some_v inner =>
          before v some_v (inner.trans (List.suffix_cons c _))]
      rfl

theorem shortest_eq_none {close : Text → Bool} {s : Text} (h : ∀ v, v <:+ s → close v = false) :
    shortest close s = none := by
  induction s with
  | nil => rfl
  | cons c s ih =>
    rw [shortest, h s (List.suffix_cons c s), if_neg Bool.false_ne_true,
      ih fun v inner => h v (inner.trans (List.suffix_cons c s))]
    rfl

theorem labelIn_blank_quote (close : Text → Bool) (s : Text) :
    labelIn close (' ' :: '"' :: s) =
      (shortest close ('"' :: s)).orElse fun _ => shortest close (' ' :: '"' :: s) := rfl

section
variable {stroke : Stroke}

theorem exists_closing (stroke : Stroke) (target : Tip) (length : Int) :
    ∃ s, closing stroke target length = stroke.char :: s := by
  obtain ⟨k, hk⟩ := Nat.exists_eq_succ_of_ne_zero
    (Nat.ne_of_gt (one_le_repeats stroke target length))
  rw [closing, hk]
  exact ⟨_, rfl⟩

theorem least_le_repeats (visible : stroke ≠ .invisible) (solid : stroke ≠ .dotted) (target : Tip)
    (length : Int) : (if target = .none then 3 else 2) ≤ (repeats stroke target length).toNat := by
  cases stroke with
  | invisible => exact absurd rfl visible
  | dotted => exact absurd rfl solid
  | normal | thick => simp only [repeats]; split <;> omega

theorem closes_closing (visible : stroke ≠ .invisible) (target : Tip) (length : Int) :
    closes stroke target (' ' :: closing stroke target length) = true := by
  have start : Stops isBlank (closing stroke target length) := by
    obtain ⟨s, first⟩ := exists_closing stroke target length
    rw [first]
    exact stops_cons.mpr (by cases stroke <;> decide)
  have trimmed : trimStart (' ' :: closing stroke target length) = closing stroke target length :=
    trimStart_append (s := [' ']) (by decide) start
  rw [closes, trimmed]
  cases stroke with
  | invisible => exact absurd rfl visible
  | dotted =>
    have whole : closing .dotted target length = List.replicate (repeats .dotted target length).toNat
        '.' ++ ['-'] ++ target.endMark := by
      simp [closing, ending, Stroke.char]
    have opened (s : Text) : after? [] s = some s := after?_append [] s
    rw [whole, before?_append]
    simp only [isDots, opened, before?_append]
    exact isRun_replicate (one_le_repeats _ _ _)
  | normal | thick =>
    simp only [closing, ending, before?_append]
    exact isRun_replicate (least_le_repeats visible (by decide) target length)

/-- No operator closes with a mark that it does not have. -/
theorem not_suffix_closing (visible : stroke ≠ .invisible) {target other : Tip}
    (differs : other ≠ target) (marked : other ≠ .none) (length : Int) (s : Text) :
    ¬ other.endMark <:+ s ++ closing stroke target length := by
  intro ends
  obtain ⟨m, mark⟩ : ∃ m, other.endMark = [m] := by
    cases other with
    | none => exact absurd rfl marked
    | _ => exact ⟨_, rfl⟩
  obtain ⟨k, hk⟩ := Nat.exists_eq_succ_of_ne_zero
    (Nat.ne_of_gt (one_le_repeats stroke target length))
  have last : (s ++ closing stroke target length).getLast? = some m := by
    obtain ⟨u, whole⟩ := ends
    rw [← whole, mark, List.getLast?_concat]
  have finish : closing stroke target length =
      List.replicate k stroke.char ++ stroke.char :: ending stroke target := by
    rw [closing, hk, List.replicate_succ', List.append_assoc]
    rfl
  rw [finish, ← List.append_assoc, List.getLast?_append_of_ne_nil _ (List.cons_ne_nil _ _)] at last
  have apart : ∀ stroke ≠ Stroke.invisible, ∀ target other : Tip, other ≠ target → other ≠ .none →
      (stroke.char :: ending stroke target).getLast? ≠ other.endMark.head? := by
    rintro (_ | _ | _ | _) visible (_ | _ | _ | _) (_ | _ | _ | _) <;> simp_all <;> decide
  exact apart stroke visible target other differs marked (by rw [last, mark]; rfl)

/-- The label is found where the operator closes with its own mark, and nowhere else. -/
theorem labelIn_around (visible : stroke ≠ .invisible) (target : Tip) (length : Int) (t : Text) :
    labelIn (closes stroke target) (' ' :: (quoted t ++ ' ' :: closing stroke target length)) =
      some (quoted t) := by
  have quote : ∀ v, v ≠ [] → v <:+ quoted t → '"' ∈ v := by
    intro v some_v inner
    have last := inner.getLast some_v
    have final : (quoted t).getLast (inner.ne_nil some_v) = '"' := by simp [quoted]
    rw [← final, ← last]
    exact List.getLast_mem some_v
  have here : shortest (closes stroke target) (quoted t ++ ' ' :: closing stroke target length) =
      some (quoted t) := by
    refine shortest_append (List.cons_ne_nil _ _) (closes_closing visible target length) ?_
    intro v some_v inner
    exact closes_of_quote stroke target (List.mem_append_left _ (quote v some_v inner))
  have whole : quoted t ++ ' ' :: closing stroke target length =
      '"' :: (t ++ ['"'] ++ ' ' :: closing stroke target length) := rfl
  rw [whole] at here ⊢
  rw [labelIn_blank_quote, here]
  rfl

theorem labelIn_other (visible : stroke ≠ .invisible) {target other : Tip}
    (differs : other ≠ target) (marked : other ≠ .none) (length : Int) (t : Text) :
    labelIn (closes stroke other) (' ' :: (quoted t ++ ' ' :: closing stroke target length)) =
      none := by
  have none_closes : ∀ v, v <:+ ' ' :: (quoted t ++ ' ' :: closing stroke target length) →
      closes stroke other v = false := by
    intro v inner
    rw [Bool.eq_false_iff]
    intro closed
    refine not_suffix_closing visible differs marked length (' ' :: (quoted t ++ [' '])) ?_
    have whole : ' ' :: (quoted t ++ [' ']) ++ closing stroke target length =
        ' ' :: (quoted t ++ ' ' :: closing stroke target length) := by simp
    rw [whole]
    exact (suffix_of_closes closed).trans inner
  have whole : quoted t ++ ' ' :: closing stroke target length =
      '"' :: (t ++ ['"'] ++ ' ' :: closing stroke target length) := rfl
  rw [whole] at none_closes ⊢
  rw [labelIn_blank_quote, shortest_eq_none none_closes,
    shortest_eq_none fun v inner => none_closes v (inner.trans (List.suffix_cons _ _))]
  rfl

/-- The tips that an operator with a label can have: arrows at both ends, or none at the source. -/
def Tipped (source target : Tip) : Prop := source = .none ∨ source = .arrow ∧ target = .arrow

theorem labelled?_arrow (s : Text) : labelled? ('<' :: s) = (opening? s).bind fun p =>
    [Tip.arrow].findSome? fun target =>
      (labelIn (closes p.1 target) p.2).map fun label => (p.1, Tip.arrow, target, label) := rfl

theorem labelled?_bare {s : Text} (h : s.head? ≠ some '<') : labelled? s = (opening? s).bind fun p =>
    Tip.all.findSome? fun target =>
      (labelIn (closes p.1 target) p.2).map fun label => (p.1, Tip.none, target, label) := by
  unfold labelled?
  split
  rename_i source r start
  split at start
  · exact absurd rfl h
  · obtain ⟨rfl, rfl⟩ := Prod.mk.inj start
    rfl

theorem labelled?_around (visible : stroke ≠ .invisible) {source target : Tip}
    (tips : Tipped source target) (length : Int) (t : Text) :
    labelled? (around stroke source target length (quoted t)) =
      some (stroke, source, target, quoted t) := by
  have opened (s : Text) : opening? (Link.opening stroke ++ s) = some (stroke, s) := by
    cases stroke with
    | invisible => exact absurd rfl visible
    | _ => rfl
  have found := labelIn_around visible target length t
  have other {k : Tip} (differs : k ≠ target) (marked : k ≠ .none) :=
    labelIn_other visible differs marked length t
  rcases tips with rfl | ⟨rfl, rfl⟩
  · have bare : (around stroke .none target length (quoted t)).head? ≠ some '<' := by
      cases stroke <;> rintro ⟨⟩
    rw [labelled?_bare bare, around, Tip.startMark, List.nil_append, opened]
    cases target <;>
      simp [Tip.all, List.findSome?, found, other (k := .arrow), other (k := .circle),
        other (k := .cross)]
  · rw [around, Tip.startMark, List.singleton_append, labelled?_arrow, opened]
    simp [found]

/-- The last run of an operator with a label inside is the one after the label. -/
theorem lastRun_around (visible : stroke ≠ .invisible) (source target : Tip) (length : Int)
    (label : Text) : lastRunFrom stroke.char 0 0 (around stroke source target length label) =
      (repeats stroke target length).toNat := by
  have blank : ' ' ≠ stroke.char := by cases stroke <;> decide
  have none_after : stroke.char ∉ ending stroke target := by
    cases stroke with
    | invisible => exact absurd rfl visible
    | _ => cases target <;> decide
  have whole : around stroke source target length label =
      source.startMark ++ Link.opening stroke ++ ' ' :: label ++
        ' ' :: (List.replicate (repeats stroke target length).toNat stroke.char ++
          ending stroke target) := by
    simp [around, closing]
  rw [whole]
  exact lastRunFrom_last blank _ none_after (one_le_repeats _ _ _)

theorem exists_write_eq (visible : stroke ≠ .invisible) (target : Tip) (length : Int) :
    ∃ p, write stroke .none target length = p ++ closing stroke target length := by
  cases stroke with
  | invisible => exact absurd rfl visible
  | dotted => exact ⟨['-'], by simp [write, closing, ending, Tip.startMark]⟩
  | _ => exact ⟨[], rfl⟩

theorem isSymbol_closing (visible : stroke ≠ .invisible) (target : Tip) (length : Int) :
    ∀ c ∈ closing stroke target length, isSymbol c = true := by
  obtain ⟨p, whole⟩ := exists_write_eq visible target length
  intro c hc
  refine isSymbol_write stroke .none target length c ?_
  rw [whole]
  exact List.mem_append_right p hc

theorem tight_around (visible : stroke ≠ .invisible) (source target : Tip) (length : Int)
    (label : Text) : Tight (around stroke source target length label) := by
  obtain ⟨s, first⟩ := exists_closing stroke target length
  have symbols := isSymbol_closing visible target length
  obtain ⟨u, c, last⟩ := List.eq_nil_or_concat (closing stroke target length) |>.resolve_left
    (by simp [first])
  have blank : isBlank c = false := isBlank_of_isSymbol (symbols c (by simp [last]))
  refine ⟨?_, ?_⟩
  · cases source with
    | none => cases stroke <;> exact stops_cons.mpr (by decide)
    | _ => exact stops_cons.mpr (by decide)
  · rw [around, last]
    simpa using blank

/-- An operator with a quoted label inside is read as the operator without it. -/
theorem read?_around (visible : stroke ≠ .invisible) {source target : Tip}
    (tips : Tipped source target) (length : Int) (t : Text) :
    read? (around stroke source target length (quoted t)) = some
      { symbols := write stroke source target length, stroke, source, target
        label := some (quoted t), length := (max 1 length).toNat } := by
  have quote : '"' ∈ around stroke source target length (quoted t) := by
    simp [around, quoted]
  have tight : trim (quoted t) = quoted t := trim_tight (Quoted.tight_between (by decide) t)
  have shown : lengthOf (around stroke source target length (quoted t)) stroke target =
      (max 1 length).toNat :=
    lengthOf_of_lastRun (fun hidden => absurd hidden visible)
      (lastRun_around visible source target length _)
  have same : write stroke source target ((max 1 length).toNat : Nat) =
      write stroke source target length := by
    rw [Int.toNat_of_nonneg (by omega), write_max_one]
  rw [read?, trim_tight (tight_around visible source target length _)]
  simp only [plain?_of_quote quote, labelled?_around visible tips, Option.map_some, shown, same,
    tight]

end
end Operator

namespace Link
variable {stroke : Stroke} {source target : Tip}

theorem after?_opening {stroke other : Stroke} (h : other ∈ [Stroke.thick, .dotted, .normal])
    (visible : stroke ≠ .invisible) (differs : other ≠ stroke) (s : Text) :
    after? (opening other) (opening stroke ++ s) = none := by
  cases stroke <;> cases other <;>
    first | rfl | exact absurd rfl differs | exact absurd rfl visible | exact absurd h (by decide)

theorem afterLabel?_quoted (stroke : Stroke) {t : Text} (plain : '"' ∉ t) (s : Text) :
    afterLabel? stroke true (t ++ '"' :: s) = afterLabel? stroke false s := by
  induction t with
  | nil => rfl
  | cons c t ih =>
    have other : (c != '"') = true := by
      rw [bne_iff_ne]
      rintro rfl
      exact plain List.mem_cons_self
    rw [List.cons_append, afterLabel?, other]
    exact ih fun here => plain (List.mem_cons_of_mem c here)

theorem afterMark?_endMark (target : Tip) (s : Text) : afterMark? (target.endMark ++ ' ' :: s) =
    if target = .none then none else some (' ' :: s) := by
  cases target <;> rfl

theorem afterClosing?_closing (visible : stroke ≠ .invisible) (target : Tip) (length : Int)
    (s : Text) : afterClosing? stroke (' ' :: (Operator.closing stroke target length ++ ' ' :: s)) =
      some (' ' :: s) := by
  have some_run := Operator.one_le_repeats stroke target length
  have run : ∀ c ∈ List.replicate (Operator.repeats stroke target length).toNat stroke.char,
      (c == stroke.char) = true := by
    simp
  have stops : Stops (· == stroke.char) (Operator.ending stroke target ++ ' ' :: s) := by
    cases stroke with
    | invisible => exact absurd rfl visible
    | _ => cases target <;> exact stops_cons.mpr (by decide)
  have blanks : afterBlanks? (' ' :: (Operator.closing stroke target length ++ ' ' :: s)) =
      some (Operator.closing stroke target length ++ ' ' :: s) := by
    obtain ⟨u, first⟩ := Operator.exists_closing stroke target length
    have start : Stops isBlank (stroke.char :: (u ++ ' ' :: s)) :=
      stops_cons.mpr (by cases stroke <;> decide)
    rw [afterBlanks?_cons (by decide), first, List.cons_append, trimStart_stop start]
  rw [afterClosing?, blanks]
  simp only [Operator.closing, List.append_assoc, takeWhile_stop run stops, dropWhile_stop run stops,
    Option.bind_eq_bind, Option.bind_some]
  cases stroke with
  | invisible => exact absurd rfl visible
  | dotted =>
    have not_empty : (List.replicate (Operator.repeats .dotted target length).toNat '.').isEmpty =
        false := by
      rw [List.isEmpty_eq_false_iff]
      intro none_here
      have := congrArg List.length none_here
      rw [List.length_replicate, List.length_nil] at this
      omega
    have opened : after? ['-'] (Operator.ending .dotted target ++ ' ' :: s) =
        some (target.endMark ++ ' ' :: s) := after?_append ['-'] _
    simp only [Stroke.char, not_empty, opened, Bool.false_eq_true, if_false, Option.bind_some,
      afterMark?_endMark]
    cases target <;> rfl
  | normal | thick =>
    have long := Operator.least_le_repeats visible (by decide) target length
    simp only [Operator.ending, List.length_replicate, afterMark?_endMark]
    by_cases bare : target = .none
    · -- Without a mark the run has to be longer by one.
      subst bare
      rw [if_pos rfl] at long
      rw [if_neg (by omega), if_pos rfl]
      simp only [long, if_true]
      rfl
    · rw [if_neg bare] at long
      rw [if_neg (by omega), if_neg bare]

/-- An operator with a quoted label inside is found as a whole. -/
theorem labelledAt?_around (visible : stroke ≠ .invisible) (tips : Operator.Tipped source target)
    (length : Int) {t : Text} (plain : '"' ∉ t) (s : Text) :
    labelledAt? (Operator.around stroke source target length (Operator.quoted t) ++ ' ' :: s) =
      some (⟨Operator.around stroke source target length (Operator.quoted t), none, none⟩,
        ' ' :: s) := by
  have bare (x : Text) : (after? ['<'] (source.startMark ++ (opening stroke ++ x))).getD
      (source.startMark ++ (opening stroke ++ x)) = opening stroke ++ x := by
    rcases tips with rfl | ⟨rfl, _⟩
    · cases stroke <;> rfl
    · rfl
  have whole : Operator.around stroke source target length (Operator.quoted t) ++ ' ' :: s =
      source.startMark ++ (opening stroke ++ ' ' :: '"' :: (t ++ '"' :: ' ' ::
        (Operator.closing stroke target length ++ ' ' :: s))) := by
    simp [Operator.around, Operator.quoted]
  have found : afterLabelled? stroke
      (Operator.around stroke source target length (Operator.quoted t) ++ ' ' :: s) =
        some (' ' :: s) := by
    have blanks (x : Text) : afterBlanks? (' ' :: '"' :: x) = some ('"' :: x) := rfl
    have closed (x : Text) : (t ++ '"' :: x).contains '"' = true := by simp
    have quote : ('"' == '"') = true := rfl
    rw [whole, afterLabelled?, bare, after?_append]
    simp only [Option.bind_eq_bind, Option.bind_some, blanks, closed, quote, Bool.and_self,
      afterLabel?_quoted stroke plain]
    rw [afterLabel?, afterClosing?_closing visible]
    rfl
  have other {k : Stroke} (hk : k ∈ [Stroke.thick, .dotted, .normal]) (differs : k ≠ stroke) :
      afterLabelled? k
        (Operator.around stroke source target length (Operator.quoted t) ++ ' ' :: s) = none := by
    rw [whole, afterLabelled?, bare, after?_opening hk visible differs]
    rfl
  have read := Operator.read?_around visible tips length t
  cases stroke with
  | invisible => exact absurd rfl visible
  | thick | dotted | normal =>
    simp [labelledAt?, List.findSome?, found, other, taken_append, read]

theorem exists_cons_around (stroke : Stroke) (source target : Tip) (length : Int) (label : Text) :
    ∃ a u, Operator.around stroke source target length label = a :: u ∧ a ≠ '"' := by
  cases source with
  | none => cases stroke <;> exact ⟨_, _, rfl, by decide⟩
  | _ => exact ⟨_, _, rfl, by decide⟩

/-- A link with a quoted label inside its operator. -/
def inner (stroke : Stroke) (source target : Tip) (length : Int) (t : Text) : Link :=
  ⟨Operator.around stroke source target length (Operator.quoted t), none, none⟩

/-- A link with a quoted label between pipes after its operator. -/
def outer (stroke : Stroke) (source target : Tip) (length : Int) (t : Text) : Link :=
  ⟨Operator.write stroke source target length, some (Operator.quoted t), none⟩

theorem spelled_inner (stroke : Stroke) (source target : Tip) (length : Int) (t : Text) :
    (inner stroke source target length t).spelled =
      Operator.around stroke source target length (Operator.quoted t) := by
  simp [inner, spelled, Chain.tagged, piped]

theorem found_inner (visible : stroke ≠ .invisible) (tips : Operator.Tipped source target)
    (length : Int) {t : Text} (plain : '"' ∉ t) : (inner stroke source target length t).Found where
  no_quote := by
    rw [spelled_inner]
    exact exists_cons_around stroke source target length _
  at? {rest} _ := by
    rw [spelled_inner, Link.at?, labelledAt?_around visible tips length plain rest]
    rfl

theorem found_outer (visible : stroke ≠ .invisible) (source target : Tip) (length : Int) {t : Text}
    (plain : '|' ∉ t) : (outer stroke source target length t).Found := by
  refine found_write (fun e => absurd e visible) length ?_ fun _ tag => nomatch tag
  rintro _ ⟨⟩
  simp [Operator.quoted, plain]

end Link

/-! ### The two forms of a label -/

section
variable {stroke : Stroke} {source target : Tip} {t : Text}

theorem inline_quoted (h : ∀ c ∈ t, isLineBreak c = false ∧ c ≠ '%') :
    ∀ c ∈ Operator.quoted t, isLineBreak c = false ∧ c ≠ '%' := by
  intro c hc
  rcases List.mem_cons.mp hc with rfl | hc
  · decide
  · rcases List.mem_append.mp hc with hc | hc
    · exact h c hc
    · rw [List.mem_singleton.mp hc]
      decide

theorem inline_around (visible : stroke ≠ .invisible) (source target : Tip) (length : Int)
    {label : Text} (h : ∀ c ∈ label, isLineBreak c = false ∧ c ≠ '%') :
    Inline (Operator.around stroke source target length label) := by
  have symbols : Inline (Operator.closing stroke target length) := by
    obtain ⟨p, whole⟩ := Operator.exists_write_eq visible target length
    refine .of_chars fun c hc => Chain.unbroken_write stroke .none target length c ?_
    rw [whole]
    exact List.mem_append_right p hc
  have start : ∀ c ∈ source.startMark, isLineBreak c = false ∧ c ≠ '%' := by
    cases source <;> decide
  have opening : ∀ c ∈ Link.opening stroke, isLineBreak c = false ∧ c ≠ '%' := by
    cases stroke <;> decide
  have close := symbols.cons (c := ' ') (by decide) (by decide)
  exact .before start (.before opening ((Inline.before h close).cons (by decide) (by decide)))

theorem exists_unquote (h : '#' ∉ t) : ∃ text, Quoted.unquote (Operator.quoted t) = .ok text := by
  have no_hash : '#' ∉ Quoted.peel (Operator.quoted t) := by
    intro here
    have here := (Quoted.infix_peel _).subset here
    simp [Operator.quoted, h] at here
  have tight : trim (Operator.quoted t) = Operator.quoted t :=
    trim_tight (Quoted.tight_between (by decide) t)
  rw [Quoted.unquote, tight, Entity.decode_of_no_hash no_hash]
  exact ⟨_, rfl⟩

theorem linkLabel_inner {n : Int} {text : Text}
    (unquoted : Quoted.unquote (Operator.quoted t) = .ok text) {op : Operator}
    (label : op.label = some (Operator.quoted t)) :
    Reading.linkLabel (Link.inner stroke source target n t) op =
      .ok (if text.isEmpty then none else some text) := by
  rw [Reading.linkLabel, label, Link.inner]
  simp only [Option.none_or, unquoted]
  rfl

/-- An edge with a quoted label inside its operator is the edge with the label between pipes: both
lines are read alike, whatever was read before, and as a text each of them gives this one edge. -/
theorem label_forms_agree (visible : stroke ≠ .invisible) (tips : Operator.Tipped source target)
    {n : Int} (some_length : 1 ≤ n)
    (plain : ∀ c ∈ t, isLineBreak c = false ∧ c ∉ ("\"|#%" : String).toList) {a b : Text}
    (ha : PlainId a) (hb : PlainId b) :
    (∀ r : Reading, r.read (.ofLine ((Link.inner stroke source target n t).between a b)) =
      r.read (.ofLine ((Link.outer stroke source target n t).between a b))) ∧
    ∀ (direction : Direction) (margin : Text), Indent margin → ∀ strict, ∃ r e text,
      Reading.ofText strict (assemble [([], heading direction),
        (margin, (Link.inner stroke source target n t).between a b)]) = .ok r ∧
      Reading.ofText strict (assemble [([], heading direction),
        (margin, (Link.outer stroke source target n t).between a b)]) = .ok r ∧
      r.diagram.edges = [e] ∧ e.source = .text a ∧ e.target = .text b ∧
      Quoted.unquote (Operator.quoted t) = .ok text ∧
      e.text = .ofText? (if text.isEmpty then none else some text) ∧
      e.stroke = stroke ∧ e.sourceTip = source ∧ e.targetTip = target ∧
      e.length = .number (.int n) := by
  have other {c : Char} (mark : c ∈ ("\"|#%" : String).toList) : c ∉ t :=
    fun here => (plain c here).2 mark
  have found := Link.found_inner visible tips n (other (c := '"') (by decide))
  have found' := Link.found_outer visible source target n (other (c := '|') (by decide))
  have read := Operator.read?_around visible tips n t
  have hidden : stroke = .invisible → source = .none ∧ target = .none := fun e => absurd e visible
  have read' := Operator.read?_write hidden n
  obtain ⟨text, unquoted⟩ := exists_unquote (other (c := '#') (by decide))
  have alike : ∀ r : Reading, r.read (.ofLine ((Link.inner stroke source target n t).between a b)) =
      r.read (.ofLine ((Link.outer stroke source target n t).between a b)) := by
    intro r
    rw [Reading.read_between found (by rw [Link.inner, read]; rfl) ha.nodeId hb.nodeId,
      Reading.read_between found' (by rw [Link.outer, read']; rfl) ha.nodeId hb.nodeId,
      Reading.drawLink, Reading.drawLink, Link.inner, Link.outer, read, read']
    rfl
  refine ⟨alike, fun direction margin indent strict => ?_⟩
  have unbroken : ∀ c ∈ Operator.quoted t, isLineBreak c = false ∧ c ≠ '%' :=
    inline_quoted fun c hc => ⟨(plain c hc).1, fun e => other (c := '%') (by decide) (e ▸ hc)⟩
  have inline : Inline (Link.inner stroke source target n t).spelled := by
    rw [Link.spelled_inner]
    exact inline_around visible source target n unbroken
  have inline' : Inline (Link.outer stroke source target n t).spelled := by
    have symbols := Chain.unbroken_write stroke source target n
    have label : Inline (Link.piped (some (Operator.quoted t))) := by
      have close : Inline (Operator.quoted t ++ ['|']) := .before unbroken (.of_chars (by decide))
      exact close.cons (by decide) (by decide)
    have spelled := Inline.before symbols label
    exact spelled
  obtain ⟨r, e, told, edges, from_a, to_b, text', stroke', source', target', length', _⟩ :=
    Reading.ofText_between found read (linkLabel_inner unquoted rfl) inline ha.nodeId hb.nodeId
      direction indent strict
  have line {link : Link} (inline : Inline link.spelled) : Line (link.between a b) :=
    ha.nodeId.line.between inline hb.nodeId.line
  have told' := told
  rw [Reading.ofText_alike (line inline) (line inline') alike direction indent strict] at told'
  refine ⟨r, e, text, told, told', edges, from_a, to_b, unquoted, text', stroke', source', target',
    ?_⟩
  have length : (((max 1 n).toNat : Nat) : Int) = n := by omega
  rw [length', length]

theorem arrows_inside_agree : ∃ r e,
    Reading.ofText true "flowchart TB\n  A <-. \"-.-> [x] == --o\" ...-> B\n" = .ok r ∧
    Reading.ofText true "flowchart TB\n  A <-...->|\"-.-> [x] == --o\"| B\n" = .ok r ∧
    r.diagram.edges = [e] ∧ e.source = .text "A" ∧ e.target = .text "B" ∧
    e.text = .text "-.-> [x] == --o" ∧ e.stroke = .dotted ∧ e.sourceTip = .arrow ∧
    e.targetTip = .arrow ∧ e.length = .number (.int 3) := by
  have a : PlainId "A" := ⟨by decide, by decide, by decide⟩
  have b : PlainId "B" := ⟨by decide, by decide, by decide⟩
  have visible : Stroke.dotted ≠ .invisible := by decide
  have tips : Operator.Tipped .arrow .arrow := Or.inr ⟨rfl, rfl⟩
  obtain ⟨r, e, text, inside, outside, edges, from_a, to_b, unquoted, said, more⟩ :=
    (label_forms_agree (n := 3) (t := "-.-> [x] == --o") visible tips (by decide) (by decide) a b).2
      .tb "  " (by decide) true
  have read : Quoted.unquote (Operator.quoted "-.-> [x] == --o") = .ok "-.-> [x] == --o" := by
    decide
  obtain rfl : "-.-> [x] == --o".toList = text := Except.ok.inj (read.symm.trans unquoted)
  exact ⟨r, e, inside, outside, edges, from_a, to_b, said, more⟩

end
end Flowchart
