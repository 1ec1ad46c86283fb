import Flowchart.Operator
import Flowchart.Proofs.Texts

/-! An operator that is written is read back: the same stroke, the same tips, no label and the
length it was drawn with. What carries the length is the last run of the character of the
stroke, and in a written operator there is one run of it. -/
namespace Flowchart.Operator
open Text

/-! ### The last run -/

theorem lastRunFrom_skip {c : Char} {s : Text} (h : c ∉ s) (last : Nat) (rest : Text) :
    lastRunFrom c 0 last (s ++ rest) = lastRunFrom c 0 last rest := by
  induction s with
  | nil => rfl
  | cons d s ih =>
    have other : ¬ d = c := fun e => h (e ▸ List.mem_cons_self)
    rw [List.cons_append, lastRunFrom, if_neg other]
    exact ih fun here => h (List.mem_cons_of_mem d here)

theorem lastRunFrom_run (c : Char) (n last k : Nat) (rest : Text) :
    lastRunFrom c n last (List.replicate k c ++ rest) = lastRunFrom c (n + k) last rest := by
  induction k generalizing n with
  | zero => rfl
  | succ k ih =>
    rw [List.replicate_succ, List.cons_append, lastRunFrom, if_pos rfl, ih]
    congr 1
    omega

theorem lastRunFrom_end {c : Char} {s : Text} (h : c ∉ s) {n : Nat} (some_run : 0 < n)
    (last : Nat) : lastRunFrom c n last s = n := by
  cases s with
  | nil =>
    cases n with
    | zero => omega
    | succ n => rfl
  | cons d s =>
    have other : ¬ d = c := fun e => h (e ▸ List.mem_cons_self)
    have none_after : c ∉ s := fun here => h (List.mem_cons_of_mem d here)
    have skipped := lastRunFrom_skip none_after n []
    rw [List.append_nil] at skipped
    have open_run : ¬ n = 0 := by omega
    rw [lastRunFrom, if_neg other, if_neg open_run, skipped]
    rfl

theorem lastRunFrom_only {c : Char} {b a : Text} (hb : c ∉ b) (ha : c ∉ a) {k : Nat}
    (some_run : 0 < k) : lastRunFrom c 0 0 (b ++ (List.replicate k c ++ a)) = k := by
  rw [lastRunFrom_skip hb, lastRunFrom_run, Nat.zero_add, lastRunFrom_end ha some_run]

/-- Whatever stands before it, a run that no other follows is the last one. -/
theorem lastRunFrom_restart {c d : Char} (other : d ≠ c) (p s : Text) (n last : Nat) :
    ∃ last', lastRunFrom c n last (p ++ d :: s) = lastRunFrom c 0 last' s := by
  induction p generalizing n last with
  | nil =>
    rw [List.nil_append, lastRunFrom, if_neg other]
    exact ⟨_, rfl⟩
  | cons e p ih =>
    rw [List.cons_append, lastRunFrom]
    split
    · exact ih _ _
    · exact ih _ _

theorem lastRunFrom_last {c d : Char} (other : d ≠ c) (p : Text) {a : Text} (ha : c ∉ a) {k : Nat}
    (some_run : 0 < k) : lastRunFrom c 0 0 (p ++ d :: (List.replicate k c ++ a)) = k := by
  obtain ⟨last, restarted⟩ := lastRunFrom_restart other p (List.replicate k c ++ a) 0 0
  rw [restarted, lastRunFrom_run, Nat.zero_add, lastRunFrom_end ha some_run]

/-! ### Tips -/

theorem takeStart_mark (tip : Tip) {s : Text} (h : takeStart s = (.none, s)) :
    takeStart (tip.startMark ++ s) = (tip, s) := by
  cases tip with
  | none => exact h
  | _ => rfl

theorem takeEnd_mark (tip : Tip) {s : Text} (h : takeEnd s = (.none, s)) :
    takeEnd (s ++ tip.endMark) = (tip, s) := by
  cases tip with
  | none => simpa [Tip.endMark] using h
  | _ => simp [takeEnd, Tip.endMark]

theorem takeStart_of_head {c : Char} (h : c = '-' ∨ c = '=') (s : Text) :
    takeStart (c :: s) = (.none, c :: s) := by
  rcases h with rfl | rfl <;> rfl

theorem takeEnd_of_last {c : Char} (h : c = '-' ∨ c = '=') (s : Text) :
    takeEnd (s ++ [c]) = (.none, s ++ [c]) := by
  rcases h with rfl | rfl <;> simp [takeEnd]

theorem startMark_append_of_takeStart {s r : Text} {tip : Tip} (h : takeStart s = (tip, r)) :
    s = tip.startMark ++ r := by
  unfold takeStart at h
  split at h
  all_goals
    obtain ⟨rfl, rfl⟩ := Prod.mk.inj h
    rfl

theorem append_endMark_of_takeEnd {s r : Text} {tip : Tip} (h : takeEnd s = (tip, r)) :
    s = r ++ tip.endMark := by
  unfold takeEnd at h
  split at h
  case h_4 =>
    obtain ⟨rfl, rfl⟩ := Prod.mk.inj h
    exact (List.append_nil s).symm
  all_goals
    rename_i last
    obtain ⟨rfl, rfl⟩ := Prod.mk.inj h
    exact (List.dropLast_append_getLast? _ last).symm

/-! ### Bodies -/

theorem isRun_replicate {c : Char} {least k : Nat} (h : least ≤ k) :
    isRun c least (List.replicate k c) = true := by
  simp [isRun, h]

theorem isRun_of_mem {c d : Char} {s : Text} (hd : d ∈ s) (other : d ≠ c) (least : Nat) :
    isRun c least s = false := by
  have : s.all (· == c) = false := by
    rw [List.all_eq_false]
    exact ⟨d, hd, by simpa using other⟩
  rw [isRun, this, Bool.and_false]

theorem isDots_replicate {k : Nat} (h : 1 ≤ k) :
    isDots ['-'] ('-' :: List.replicate k '.' ++ ['-']) = true := by
  have opened : after? ['-'] ('-' :: List.replicate k '.' ++ ['-']) =
      some (List.replicate k '.' ++ ['-']) := after?_eq_some_iff.mpr rfl
  have closed : before? ['-'] (List.replicate k '.' ++ ['-']) = some (List.replicate k '.') :=
    before?_eq_some_iff.mpr rfl
  rw [isDots, opened]
  simp only [closed]
  exact isRun_replicate h

theorem isDots_of_no_dot {s : Text} (h : '.' ∉ s) (opening : Text) : isDots opening s = false := by
  unfold isDots
  split
  · rfl
  · rename_i r opened
    split
    · rfl
    · rename_i dots closed
      rw [after?_eq_some_iff] at opened
      rw [before?_eq_some_iff] at closed
      cases dots with
      | nil => rfl
      | cons d dots =>
        have other : d ≠ '.' := fun e => h (by simp [opened, closed, e])
        exact isRun_of_mem List.mem_cons_self other 1

theorem bodyStroke?_thick {k : Nat} (h : 2 ≤ k) :
    bodyStroke? (List.replicate k '=') = some .thick := by
  rw [bodyStroke?, if_pos (isRun_replicate h)]

theorem bodyStroke?_normal {k : Nat} (h : 2 ≤ k) :
    bodyStroke? (List.replicate k '-') = some .normal := by
  have hyphen : '-' ∈ List.replicate k '-' := List.mem_replicate.mpr ⟨by omega, rfl⟩
  have no_dot : '.' ∉ List.replicate k '-' := by simp
  have not_thick := isRun_of_mem (c := '=') hyphen (by decide) 2
  rw [bodyStroke?, not_thick, isDots_of_no_dot no_dot, isRun_replicate h]
  rfl

theorem bodyStroke?_dotted {k : Nat} (h : 1 ≤ k) :
    bodyStroke? ('-' :: List.replicate k '.' ++ ['-']) = some .dotted := by
  have hyphen : '-' ∈ '-' :: List.replicate k '.' ++ ['-'] := by simp
  have not_thick := isRun_of_mem (c := '=') hyphen (by decide) 2
  rw [bodyStroke?, not_thick, isDots_replicate h]
  rfl

theorem isRun_iff {c : Char} {least : Nat} {s : Text} :
    isRun c least s = true ↔ ∃ n, least ≤ n ∧ s = List.replicate n c := by
  constructor
  · intro h
    simp only [isRun, Bool.and_eq_true, decide_eq_true_eq, List.all_eq_true, beq_iff_eq] at h
    exact ⟨s.length, h.1, List.eq_replicate_iff.mpr ⟨rfl, h.2⟩⟩
  · rintro ⟨n, long, rfl⟩
    exact isRun_replicate long

theorem eq_of_isDots {opening s : Text} (h : isDots opening s = true) :
    ∃ n, 1 ≤ n ∧ s = opening ++ List.replicate n '.' ++ ['-'] := by
  unfold isDots at h
  split at h
  · cases h
  · rename_i r opened
    split at h
    · cases h
    · rename_i dots closed
      obtain ⟨n, long, rfl⟩ := isRun_iff.mp h
      refine ⟨n, long, ?_⟩
      rw [after?_eq_some_iff.mp opened, before?_eq_some_iff.mp closed, List.append_assoc]

/-- What draws a line is a run of one character, or dots between two hyphens. -/
theorem eq_of_bodyStroke? {b : Text} {stroke : Stroke} (h : bodyStroke? b = some stroke) :
    (stroke = .normal ∨ stroke = .thick) ∧ (∃ n, 2 ≤ n ∧ b = List.replicate n stroke.char) ∨
      stroke = .dotted ∧ ∃ n, 1 ≤ n ∧ b = '-' :: List.replicate n '.' ++ ['-'] := by
  unfold bodyStroke? at h
  split at h
  · rename_i thick
    obtain rfl := Option.some.inj h
    exact Or.inl ⟨Or.inr rfl, isRun_iff.mp thick⟩
  · split at h
    · rename_i dotted
      obtain rfl := Option.some.inj h
      exact Or.inr ⟨rfl, eq_of_isDots dotted⟩
    · split at h
      · rename_i normal
        obtain rfl := Option.some.inj h
        exact Or.inl ⟨Or.inl rfl, isRun_iff.mp normal⟩
      · cases h

/-- What draws a line begins and ends with one character, which is no mark of a tip. -/
theorem ends_of_bodyStroke? {b : Text} {stroke : Stroke} (h : bodyStroke? b = some stroke) :
    ∃ c, (c = '-' ∨ c = '=') ∧ (∃ s, b = c :: s) ∧ ∃ s, b = s ++ [c] := by
  rcases eq_of_bodyStroke? h with ⟨run, n, two, rfl⟩ | ⟨_, n, _, rfl⟩
  · obtain ⟨k, rfl⟩ : ∃ k, n = k + 1 := ⟨n - 1, by omega⟩
    refine ⟨stroke.char, ?_, ⟨_, List.replicate_succ⟩, ⟨_, List.replicate_succ'⟩⟩
    rcases run with rfl | rfl
    · exact Or.inl rfl
    · exact Or.inr rfl
  · exact ⟨'-', Or.inl rfl, ⟨_, rfl⟩, ⟨_, rfl⟩⟩

/-! ### Operators -/

/-- The body of an operator between its tips. -/
def body (stroke : Stroke) (target : Tip) (length : Int) : Text :=
  let run := List.replicate (repeats stroke target length).toNat stroke.char
  match stroke with
  | .dotted => '-' :: run ++ ['-']
  | _ => run

theorem two_le_repeats {stroke : Stroke} {target : Tip} (h : stroke = .normal ∨ stroke = .thick)
    (length : Int) : 2 ≤ (repeats stroke target length).toNat := by
  rcases h with rfl | rfl <;> simp only [repeats] <;> split <;> omega

theorem one_le_repeats (stroke : Stroke) (target : Tip) (length : Int) :
    1 ≤ (repeats stroke target length).toNat := by
  unfold repeats
  cases stroke <;> simp only <;> try split
  all_goals omega

theorem write_eq {stroke : Stroke} (visible : stroke ≠ .invisible) (source target : Tip)
    (length : Int) : write stroke source target length =
      source.startMark ++ (body stroke target length ++ target.endMark) := by
  cases stroke with
  | invisible => exact absurd rfl visible
  | _ => simp [write, body]

theorem write_invisible (source target : Tip) (length : Int) :
    write .invisible source target length =
      List.replicate (repeats .invisible target length).toNat '~' := rfl

theorem bodyStroke?_body {stroke : Stroke} (visible : stroke ≠ .invisible) (target : Tip)
    (length : Int) : bodyStroke? (body stroke target length) = some stroke := by
  cases stroke with
  | invisible => exact absurd rfl visible
  | dotted => exact bodyStroke?_dotted (one_le_repeats _ _ _)
  | normal => exact bodyStroke?_normal (two_le_repeats (Or.inl rfl) length)
  | thick => exact bodyStroke?_thick (two_le_repeats (Or.inr rfl) length)

theorem body_ends {stroke : Stroke} (visible : stroke ≠ .invisible) (target : Tip)
    (length : Int) : ∃ c, (c = '-' ∨ c = '=') ∧ (∃ s, body stroke target length = c :: s) ∧
      ∃ s, body stroke target length = s ++ [c] :=
  ends_of_bodyStroke? (bodyStroke?_body visible target length)

/-- Whatever the marks, a line between two tips is an operator. -/
theorem plain?_drawn {b : Text} {stroke : Stroke} (h : bodyStroke? b = some stroke)
    (source target : Tip) :
    plain? (source.startMark ++ (b ++ target.endMark)) = some (stroke, source, target) := by
  obtain ⟨c, hc, ⟨s, first⟩, t, last⟩ := ends_of_bodyStroke? h
  have no_run : isRun '~' 3 (source.startMark ++ (b ++ target.endMark)) = false := by
    have here : c ∈ source.startMark ++ (b ++ target.endMark) := by
      rw [first]
      simp
    exact isRun_of_mem here (by rcases hc with rfl | rfl <;> decide) 3
  have start : takeStart (source.startMark ++ (b ++ target.endMark)) =
      (source, b ++ target.endMark) := by
    refine takeStart_mark source ?_
    rw [first, List.cons_append]
    exact takeStart_of_head hc _
  have finish : takeEnd (b ++ target.endMark) = (target, b) := by
    refine takeEnd_mark target ?_
    rw [last]
    exact takeEnd_of_last hc t
  rw [plain?, no_run]
  simp only [start, finish, h, Bool.false_eq_true, if_false]
  rfl

theorem plain?_tildes {n : Nat} (three : 3 ≤ n) :
    plain? (List.replicate n '~') = some (.invisible, .none, .none) := by
  rw [plain?, if_pos (isRun_replicate three)]

/-- An operator without a label is a run of tildes, or a line between two tips. -/
theorem eq_of_plain? {s : Text} {stroke : Stroke} {source target : Tip}
    (h : plain? s = some (stroke, source, target)) :
    (stroke = .invisible ∧ source = .none ∧ target = .none ∧
      ∃ n, 3 ≤ n ∧ s = List.replicate n '~') ∨
    ∃ b, bodyStroke? b = some stroke ∧ s = source.startMark ++ (b ++ target.endMark) := by
  rcases start : takeStart s with ⟨source', r⟩
  rcases finish : takeEnd r with ⟨target', b⟩
  simp only [plain?, start, finish] at h
  split at h
  · rename_i invisible
    obtain ⟨rfl, rfl, rfl⟩ := by simpa using h
    exact Or.inl ⟨rfl, rfl, rfl, isRun_iff.mp invisible⟩
  · obtain ⟨stroke', drawn, same⟩ := Option.map_eq_some_iff.mp h
    obtain ⟨rfl, rfl, rfl⟩ := by simpa using same
    refine Or.inr ⟨b, drawn, ?_⟩
    rw [← append_endMark_of_takeEnd finish, ← startMark_append_of_takeStart start]

theorem plain?_write {stroke : Stroke} {source target : Tip}
    (tips : stroke = .invisible → source = .none ∧ target = .none) (length : Int) :
    plain? (write stroke source target length) = some (stroke, source, target) := by
  by_cases visible : stroke = .invisible
  · subst visible
    obtain ⟨rfl, rfl⟩ := tips rfl
    have long : 3 ≤ (repeats .invisible .none length).toNat := by
      simp only [repeats]
      omega
    rw [write_invisible, plain?_tildes long]
  · rw [write_eq visible, plain?_drawn (bodyStroke?_body visible target length)]

/-- The last run of a written operator is the one that shows its length. -/
theorem lastRun_write {stroke : Stroke} {source target : Tip}
    (tips : stroke = .invisible → source = .none ∧ target = .none) (length : Int) :
    lastRunFrom stroke.char 0 0 (write stroke source target length) =
      (repeats stroke target length).toNat := by
  have run := one_le_repeats stroke target length
  have no_start : ∀ c ∈ ['-', '=', '.'], c ∉ source.startMark := by cases source <;> decide
  have no_end : ∀ c ∈ ['-', '=', '.'], c ∉ target.endMark := by cases target <;> decide
  cases stroke with
  | invisible =>
    have only := lastRunFrom_only (c := '~') (b := []) (a := []) (by simp) (by simp) run
    rwa [List.nil_append, List.append_nil] at only
  | dotted =>
    have before : '.' ∉ source.startMark ++ ['-'] := by simpa using no_start '.' (by simp)
    have after : '.' ∉ '-' :: target.endMark := by simpa using no_end '.' (by simp)
    have whole : write .dotted source target length = source.startMark ++ ['-'] ++
        (List.replicate (repeats .dotted target length).toNat '.' ++ '-' :: target.endMark) := by
      simp [write, Stroke.char]
    rw [whole]
    exact lastRunFrom_only before after run
  | normal =>
    rw [write_eq (by simp)]
    exact lastRunFrom_only (no_start '-' (by simp)) (no_end '-' (by simp)) run
  | thick =>
    rw [write_eq (by simp)]
    exact lastRunFrom_only (no_start '=' (by simp)) (no_end '=' (by simp)) run

/-- An operator shows the length that its last run was drawn for. -/
theorem lengthOf_of_lastRun {stroke : Stroke} {target : Tip} {length : Int} {s : Text}
    (tip : stroke = .invisible → target = .none)
    (run : lastRunFrom stroke.char 0 0 s = (repeats stroke target length).toNat) :
    lengthOf s stroke target = (max 1 length).toNat := by
  unfold lengthOf
  rw [run]
  cases stroke with
  | invisible =>
    obtain rfl := tip rfl
    simp only [repeats, if_true]
    omega
  | dotted =>
    simp only [repeats]
    omega
  | normal =>
    simp only [repeats]
    split <;> omega
  | thick =>
    simp only [repeats]
    split <;> omega

theorem lengthOf_write {stroke : Stroke} {source target : Tip}
    (tips : stroke = .invisible → source = .none ∧ target = .none) (length : Int) :
    lengthOf (write stroke source target length) stroke target = (max 1 length).toNat :=
  lengthOf_of_lastRun (fun hidden => (tips hidden).2) (lastRun_write tips length)

/-- Characters that operators are made of. -/
def isSymbol (c : Char) : Bool := c ∈ ("<>ox-=.~" : String).toList

theorem isSymbol_of_plain? {s : Text} {stroke : Stroke} {source target : Tip}
    (h : plain? s = some (stroke, source, target)) : ∀ c ∈ s, isSymbol c = true := by
  have start : ∀ c ∈ source.startMark, isSymbol c = true := by cases source <;> decide
  have finish : ∀ c ∈ target.endMark, isSymbol c = true := by cases target <;> decide
  have strokes : isSymbol stroke.char = true := by cases stroke <;> decide
  have hyphen : isSymbol '-' = true := by decide
  have dot : isSymbol '.' = true := by decide
  rcases eq_of_plain? h with ⟨rfl, _, _, n, _, rfl⟩ | ⟨b, drawn, rfl⟩
  · intro c hc
    rwa [(List.mem_replicate.mp hc).2]
  · have line : ∀ c ∈ b, isSymbol c = true := by
      intro c hc
      rcases eq_of_bodyStroke? drawn with ⟨_, n, _, rfl⟩ | ⟨_, n, _, rfl⟩
      · rwa [(List.mem_replicate.mp hc).2]
      · simp only [List.cons_append, List.mem_cons, List.mem_append, List.mem_replicate,
          List.not_mem_nil, or_false] at hc
        rcases hc with rfl | ⟨_, rfl⟩ | rfl
        · exact hyphen
        · exact dot
        · exact hyphen
    intro c hc
    rcases List.mem_append.mp hc with hc | hc
    · exact start c hc
    · rcases List.mem_append.mp hc with hc | hc
      · exact line c hc
      · exact finish c hc

theorem isSymbol_write (stroke : Stroke) (source target : Tip) (length : Int) :
    ∀ c ∈ write stroke source target length, isSymbol c = true := by
  by_cases visible : stroke = .invisible
  · subst visible
    intro c hc
    rw [write_invisible] at hc
    rw [(List.mem_replicate.mp hc).2]
    decide
  · rw [write_eq visible]
    exact isSymbol_of_plain? (plain?_drawn (bodyStroke?_body visible target length) source target)

theorem isBlank_of_isSymbol {c : Char} (h : isSymbol c = true) : isBlank c = false := by
  have symbols : ∀ d ∈ ("<>ox-=.~" : String).toList, isBlank d = false := by decide
  exact symbols c (by simpa only [isSymbol, decide_eq_true_eq] using h)

/-- An operator without a label is read as it stands. -/
theorem read?_of_plain? {s : Text} {stroke : Stroke} {source target : Tip}
    (h : plain? s = some (stroke, source, target)) : read? s = some
      { symbols := s, stroke, source, target, label := none
        length := lengthOf s stroke target } := by
  have tight : Text.trim s = s :=
    trim_tight (tight_of_stops fun c hc => isBlank_of_isSymbol (isSymbol_of_plain? h c hc))
  rw [read?]
  simp only [tight, h]

/-- A written operator is read as what it was written for. -/
theorem read?_write {stroke : Stroke} {source target : Tip}
    (tips : stroke = .invisible → source = .none ∧ target = .none) (length : Int) :
    read? (write stroke source target length) = some
      { symbols := write stroke source target length, stroke, source, target, label := none
        length := (max 1 length).toNat } := by
  rw [read?_of_plain? (plain?_write tips length), lengthOf_write tips]

/-! ### Operators that are built -/

theorem checkRun_ok {n : Int} (room : n < roomLimit) : checkRun n = .ok () := by
  have limits : roomLimit ≤ countLimit := by decide
  rw [checkRun, if_neg (by omega), if_neg (by omega)]

theorem room_of_checkRun {n : Int} (ok : (checkRun n).isOk) : n < roomLimit := by
  by_contra no_room
  rw [checkRun] at ok
  split at ok
  · cases ok
  · rw [if_pos (by omega)] at ok
    cases ok

theorem room_of_build {stroke : Stroke} {source target : Tip} {length : Int}
    (ok : (build stroke source target length).isOk) : repeats stroke target length < roomLimit := by
  refine room_of_checkRun ?_
  cases room : checkRun (repeats stroke target length) with
  | ok _ => rfl
  | error _ =>
    rw [build, room] at ok
    cases ok

theorem build_ok {stroke : Stroke} {source target : Tip} {length : Int}
    (room : repeats stroke target length < roomLimit) :
    build stroke source target length = .ok (write stroke source target length) := by
  rw [build, checkRun_ok room]
  rfl

theorem eq_write_of_build {stroke : Stroke} {source target : Tip} {length : Int} {op : Text}
    (built : build stroke source target length = .ok op) :
    op = write stroke source target length := by
  have room : repeats stroke target length < roomLimit := by
    apply room_of_build
    rw [built]
    rfl
  rw [build_ok room] at built
  exact (Except.ok.inj built).symm

theorem build_error {stroke : Stroke} {source target : Tip} {length : Int}
    (no_room : roomLimit ≤ repeats stroke target length) :
    build stroke source target length = .error .noRoom ∨
      build stroke source target length = .error .uncountable := by
  rw [build, checkRun]
  split
  · exact Or.inr rfl
  · exact Or.inl rfl

/-- An operator that there is room for is built, and it is read as what it was built for. -/
theorem built_operator_reads_back {stroke : Stroke} {source target : Tip}
    (tips : stroke = .invisible → source = .none ∧ target = .none) (length : Int) :
    (repeats stroke target length < roomLimit → ∃ op,
      build stroke source target length = .ok op ∧ read? op = some
        { symbols := op, stroke, source, target, label := none
          length := (max 1 length).toNat }) ∧
    (roomLimit ≤ repeats stroke target length →
      build stroke source target length = .error .noRoom ∨
        build stroke source target length = .error .uncountable) ∧
    read? (write stroke source target length) = some
      { symbols := write stroke source target length, stroke, source, target, label := none
        length := (max 1 length).toNat } := by
  have read := read?_write tips length
  refine ⟨?room, build_error, read⟩
  intro room
  exact ⟨write stroke source target length, build_ok room, read⟩

theorem tildes_read_back :
    (Stroke.invisible = .invisible → Tip.none = .none ∧ Tip.none = .none) ∧
    ∃ op, build .invisible .none .none (-2) = .ok op ∧ read? op = some
      { symbols := op, stroke := .invisible, source := .none, target := .none, label := none
        length := 1 } := by
  have tips : Stroke.invisible = .invisible → Tip.none = .none ∧ Tip.none = .none :=
    fun _ => ⟨rfl, rfl⟩
  exact ⟨tips, (built_operator_reads_back tips (-2)).1 (by decide)⟩

/-- An operator is not built if its run cannot be counted. -/
theorem endless_operator_is_not_built : ¬ ∃ op,
    build .normal .none .arrow 9223372036854775808 = .ok op ∧ read? op = some
      { symbols := op, stroke := .normal, source := .none, target := .arrow, label := none
        length := 9223372036854775808 } := by
  rintro ⟨op, built, _⟩
  have no_room : roomLimit ≤ repeats .normal .arrow 9223372036854775808 := by decide
  rcases build_error no_room with refused | refused
  all_goals
    rw [refused] at built
    cases built

/-! ### Operators that are written as they were read -/

/-- Operators that draw a line too short to be written: they are read, but written with a longer
run. -/
def stubs : List Text := ["--", "==", "<--", "<==", "o--", "o==", "x--", "x=="]

/-- A run draws the line of some length, but for two characters without a mark. -/
theorem replicate_eq_body {stroke : Stroke} (h : stroke = .normal ∨ stroke = .thick) (target : Tip)
    {n : Nat} (two : 2 ≤ n) :
    (∃ k : Int, 1 ≤ k ∧ List.replicate n stroke.char = body stroke target k) ∨
      target = .none ∧ n = 2 := by
  have drawn (k : Int) :
      body stroke target k = List.replicate (repeats stroke target k).toNat stroke.char := by
    rcases h with rfl | rfl <;> rfl
  by_cases bare : target = .none
  · by_cases shortest : n = 2
    · exact Or.inr ⟨bare, shortest⟩
    · have same : (repeats stroke target (n - 2)).toNat = n := by
        rcases h with rfl | rfl <;> simp only [repeats, if_pos bare] <;> omega
      exact Or.inl ⟨n - 2, by omega, by rw [drawn, same]⟩
  · have same : (repeats stroke target (n - 1)).toNat = n := by
      rcases h with rfl | rfl <;> simp only [repeats, if_neg bare] <;> omega
    exact Or.inl ⟨n - 1, by omega, by rw [drawn, same]⟩

/-- What draws a line is the body of an operator, unless it is too short. -/
theorem eq_body_of_bodyStroke? {s : Text} {stroke : Stroke} (h : bodyStroke? s = some stroke)
    (target : Tip) : stroke ≠ .invisible ∧ ((∃ k : Int, 1 ≤ k ∧ s = body stroke target k) ∨
      target = .none ∧ s ∈ ["--".toList, "=="]) := by
  rcases eq_of_bodyStroke? h with ⟨run, n, two, rfl⟩ | ⟨rfl, n, some_dot, rfl⟩
  · have visible : stroke ≠ .invisible := by rcases run with rfl | rfl <;> decide
    refine ⟨visible, (replicate_eq_body run target two).imp_right ?_⟩
    rintro ⟨bare, rfl⟩
    exact ⟨bare, by rcases run with rfl | rfl <;> decide⟩
  · have same : (repeats .dotted target n).toNat = n := by
      simp only [repeats]
      omega
    refine ⟨by decide, Or.inl ⟨n, by omega, ?_⟩⟩
    rw [body, same]
    rfl

/-- An operator without a label is written as it is read, unless it is too short. -/
theorem eq_write_of_plain? {s : Text} {stroke : Stroke} {source target : Tip}
    (h : plain? s = some (stroke, source, target)) (long : s ∉ stubs) :
    (stroke = .invisible → source = .none ∧ target = .none) ∧
      ∃ k : Int, 1 ≤ k ∧ s = write stroke source target k := by
  rcases eq_of_plain? h with ⟨rfl, rfl, rfl, n, three, rfl⟩ | ⟨b, drawn, rfl⟩
  · refine ⟨fun _ => ⟨rfl, rfl⟩, n - 2, by omega, ?_⟩
    have same : (repeats .invisible .none (n - 2)).toNat = n := by
      simp only [repeats]
      omega
    rw [write_invisible, same]
  · obtain ⟨visible, ⟨k, some_length, rfl⟩ | ⟨rfl, raw⟩⟩ := eq_body_of_bodyStroke? drawn target
    · exact ⟨fun hidden => absurd hidden visible, k, some_length, (write_eq visible ..).symm⟩
    · -- without a mark at its end, the text is a mark and two characters
      have marks : ∀ tip : Tip, ∀ t ∈ ["--".toList, "=="], tip.startMark ++ t ∈ stubs := by
        intro tip
        cases tip <;> decide
      rw [Tip.endMark, List.append_nil] at long
      exact absurd (marks source b raw) long

theorem write_max_one (stroke : Stroke) (source target : Tip) (length : Int) :
    write stroke source target (max 1 length) = write stroke source target length := by
  have same : max 1 (max 1 length) = max 1 length := by omega
  simp only [write, repeats, same]

/-- The symbols of an operator that is read are what it is written with, unless what is read is too
short. -/
theorem symbols_of_read? {s : Text} {op : Operator} (h : read? s = some op)
    (long : s.trim ∉ stubs) : op.symbols = write op.stroke op.source op.target op.length := by
  unfold read? at h
  dsimp only at h
  split at h
  · rename_i stroke source target plain
    obtain rfl := Option.some.inj h
    obtain ⟨tips, k, some_length, whole⟩ := eq_write_of_plain? plain long
    have length : ((max 1 k).toNat : Int) = k := by omega
    change s.trim = write stroke source target (lengthOf s.trim stroke target)
    rw [whole, lengthOf_write tips, length]
  · obtain ⟨_, _, rfl⟩ := Option.map_eq_some_iff.mp h
    rfl

end Flowchart.Operator
