import Flowchart.Proofs.Timeline

/-! The room of a history. Both stacks of a history share the room for as many states as its limit
says: a step takes a state from the one stack and puts one on the other, and an edit empties the
stack of what would be redone. So only an edit ever drops a state, and steps back can be taken back
by as many steps forward. -/
namespace Flowchart.History
variable {α : Type} {h : History α}

/-- What a history is asked for. -/
inductive Call (α : Type) where
  | record (state : α)
  | back (present : α)
  | forth (present : α)

/-- The history after a call. It stays as it is where there is no step to be made. -/
def after (h : History α) : Call α → History α
  | .record state => h.record state
  | .back present => ((h.back? present).map (·.2)).getD h
  | .forth present => ((h.forth? present).map (·.2)).getD h

/-- So many steps one after another, each from the state that the step before it has led to. The
answer is the states that they lead to, and the history after them, if there are so many. -/
def steps? (step : History α → α → Option (α × History α)) :
    Nat → History α → α → Option (List α × History α)
  | 0, h, _ => some ([], h)
  | more + 1, h, present => do
    let (state, h) ← step h present
    let (states, h) ← steps? step more h state
    return (state :: states, h)

/-- The stacks together hold no more states than the limit says. -/
def Roomy (h : History α) : Prop := h.past.length + h.future.length ≤ h.limit

/-! ### Single calls -/

/-- Only where as many states are held as there is room for, an edit drops one: the oldest. -/
theorem record_eq (bounded : h.past.length ≤ h.limit) (state : α) :
    h.record state = { h with
      past := state :: if h.past.length = h.limit then h.past.dropLast else h.past
      future := [] } := by
  obtain ⟨room, limit⟩ := Nat.exists_eq_succ_of_ne_zero (Nat.ne_of_gt h.limit_pos)
  have top : h.push state h.past = state :: h.past.take room := by
    rw [push, limit, List.take_succ_cons]
  have kept : h.past.take room =
      if h.past.length = h.limit then h.past.dropLast else h.past := by
    split
    · rename_i full
      rw [List.dropLast_eq_take, full, limit]
      rfl
    · rename_i free
      exact List.take_of_length_le (by omega)
  rw [record, top, kept]

theorem back?_eq (roomy : h.Roomy) {state : α} {past : List α} (top : h.past = state :: past)
    (present : α) :
    h.back? present = some (state, { h with past, future := present :: h.future }) := by
  have room : h.future.length < h.limit := by
    rw [Roomy, top, List.length_cons] at roomy
    omega
  rw [back?, top]
  simp only [push_eq room]

theorem forth?_eq (roomy : h.Roomy) {state : α} {future : List α} (top : h.future = state :: future)
    (present : α) :
    h.forth? present = some (state, { h with past := present :: h.past, future }) := by
  have room : h.past.length < h.limit := by
    rw [Roomy, top, List.length_cons] at roomy
    omega
  rw [forth?, top]
  simp only [push_eq room]

/-- What a call leaves has the same limit and keeps to it. -/
theorem Roomy.after (roomy : h.Roomy) (call : Call α) :
    (h.after call).Roomy ∧ (h.after call).limit = h.limit := by
  have same : h.Roomy ∧ h.limit = h.limit := ⟨roomy, rfl⟩
  cases call with
  | record state => exact ⟨h.length_push_le state h.past, rfl⟩
  | back present =>
    rw [History.after]
    cases top : h.past with
    | nil => rwa [back?_eq_none_iff.mpr top]
    | cons state past =>
      rw [back?_eq roomy top]
      refine ⟨?_, rfl⟩
      simp only [Roomy, top, List.length_cons, Option.map_some, Option.getD_some] at roomy ⊢
      omega
  | forth present =>
    rw [History.after]
    cases top : h.future with
    | nil => rwa [forth?_eq_none_iff.mpr top]
    | cons state future =>
      rw [forth?_eq roomy top]
      refine ⟨?_, rfl⟩
      simp only [Roomy, top, List.length_cons, Option.map_some, Option.getD_some] at roomy ⊢
      omega

theorem Roomy.run (roomy : h.Roomy) (calls : List (Call α)) :
    (calls.foldl History.after h).Roomy ∧ (calls.foldl History.after h).limit = h.limit := by
  induction calls generalizing h with
  | nil => exact ⟨roomy, rfl⟩
  | cons call calls ih =>
    obtain ⟨roomy, limit⟩ := roomy.after call
    exact (ih roomy).imp_right fun same => same.trans limit

/-! ### Steps back and forward -/

/-- One step more comes after all others. -/
theorem steps?_succ {step : History α → α → Option (α × History α)} {k : Nat} {present : α}
    {states : List α} {there : History α} (first : steps? step k h present = some (states, there)) :
    steps? step (k + 1) h present = (step there (states.getLastD present)).map fun last =>
      (states ++ [last.1], last.2) := by
  induction k generalizing h present states with
  | zero =>
    cases first
    cases last : step there present <;> simp [steps?, last]
  | succ k ih =>
    rw [steps?] at first ⊢
    obtain ⟨⟨state, next⟩, stepped, first⟩ := Option.bind_eq_some_iff.mp first
    obtain ⟨⟨later, last⟩, first, same⟩ := Option.bind_eq_some_iff.mp first
    cases same
    rw [stepped]
    change (steps? step (k + 1) next state >>= fun p => some (state :: p.1, p.2)) = _
    rw [ih first, List.getLastD_cons]
    cases step there (later.getLastD state) <;> rfl

theorem steps?_back_none {k : Nat} (few : h.past.length < k) (roomy : h.Roomy) (present : α) :
    steps? back? k h present = none := by
  induction k generalizing h present with
  | zero => exact absurd few (Nat.not_lt_zero _)
  | succ k ih =>
    rw [steps?]
    cases top : h.past with
    | nil => rw [back?_eq_none_iff.mpr top]; rfl
    | cons state past =>
      rw [top, List.length_cons] at few
      have less := ih (h := { h with past, future := present :: h.future }) (by simpa using few)
        (by simp only [Roomy, top, List.length_cons] at roomy ⊢; omega) state
      rw [back?_eq roomy top]
      change (steps? back? k _ state >>= _) = none
      rw [less]
      rfl

/-- Steps back lead through what the history holds, and as many steps forward from where they end
lead the same way back. -/
theorem steps?_back_forth {k : Nat} (enough : k ≤ h.past.length) (roomy : h.Roomy) (present : α) :
    ∃ there, steps? back? k h present = some (h.past.take k, there) ∧
      steps? forth? k there ((h.past.take k).getLastD present) =
        some ((present :: h.past.take k).dropLast.reverse, h) := by
  induction k generalizing h present with
  | zero => exact ⟨h, rfl, rfl⟩
  | succ k ih =>
    obtain ⟨state, past, top⟩ : ∃ state past, h.past = state :: past :=
      List.exists_cons_of_length_pos (by omega)
    have back := back?_eq roomy top present
    -- the history after the first step back, and the step forward from it
    generalize next_eq : ({ h with past, future := present :: h.future } : History α) = next at back
    have held : next.past = past := by rw [← next_eq]
    have future : next.future = present :: h.future := by rw [← next_eq]
    have roomy' : next.Roomy := by
      simp only [Roomy, ← next_eq, top, List.length_cons] at roomy ⊢
      omega
    have forth : next.forth? state = some (present, h) := by
      rw [forth?_eq roomy' future, held, ← top, ← next_eq]
    rw [top, List.length_cons] at enough
    have further := ih (h := next) (by rw [held]; omega) roomy' state
    rw [held] at further
    obtain ⟨there, backs, forths⟩ := further
    have arrived : (state :: past.take k).dropLast.reverse.getLastD
        ((past.take k).getLastD state) = state := by
      cases past.take k <;> simp
    refine ⟨there, ?_, ?_⟩
    · rw [steps?, back, top]
      change (steps? back? k next state >>= _) = _
      rw [backs]
      rfl
    · rw [top, List.take_succ_cons, List.getLastD_cons, steps?_succ forths, arrived, forth]
      simp

/-- However a new history is asked for edits and steps, its stacks share the room that there is.
Only an edit drops a state, and only the oldest one where as many are held as the limit says. Steps
back and as many steps forward, each from the state that the one before it has led to, lead through
the same states and back to the same history. -/
theorem stacks_share_room {L : Int} (some_room : 1 ≤ L) :
    ((∃ new : History α, ofLimit L = .ok new) ↔ L < countLimit) ∧
    ∀ new : History α, ofLimit L = .ok new → ∀ calls : List (Call α),
      let h := calls.foldl after new
      (h.past.length + h.future.length : Int) ≤ L ∧
      (∀ state, h.record state = { h with
        past := state :: if (h.past.length : Int) = L then h.past.dropLast else h.past
        future := [] }) ∧
      (∀ present, h.past = [] → h.back? present = none) ∧
      (∀ present state past, h.past = state :: past →
        h.back? present = some (state, { h with past, future := present :: h.future })) ∧
      (∀ present, h.future = [] → h.forth? present = none) ∧
      (∀ present state future, h.future = state :: future →
        h.forth? present = some (state, { h with past := present :: h.past, future })) ∧
      ∀ (present : α) (k : Nat), (h.past.length < k → steps? back? k h present = none) ∧
        (k ≤ h.past.length → ∃ there, steps? back? k h present = some (h.past.take k, there) ∧
          steps? forth? k there ((h.past.take k).getLastD present) =
            some ((present :: h.past.take k).dropLast.reverse, h)) := by
  have made : (ofLimit L : Except Error (History α)) = if huge : L ≥ countLimit then
      .error .hugeHistory else .ok { limit := L.toNat, limit_pos := by omega } := by
    rw [ofLimit, if_neg (by omega)]
    split
    · rfl
    · rw [dif_pos (by omega)]
  refine ⟨?_, fun new new_eq calls => ?_⟩
  · rw [made]
    split <;> simp <;> omega
  · rw [made] at new_eq
    split at new_eq
    · cases new_eq
    · cases new_eq
      obtain ⟨roomy, limit⟩ := Roomy.run (h := { limit := L.toNat, limit_pos := by omega })
        (Nat.zero_le _) calls
      dsimp only
      generalize calls.foldl after _ = h at roomy limit ⊢
      have whole : (h.limit : Int) = L := by rw [limit]; exact Int.toNat_of_nonneg (by omega)
      have bounded : h.past.length ≤ h.limit := Nat.le_trans (Nat.le_add_right _ _) roomy
      refine ⟨?_, fun state => ?_, fun _ => back?_eq_none_iff.mpr,
        fun present _ _ top => back?_eq roomy top present, fun _ => forth?_eq_none_iff.mpr,
        fun present _ _ top => forth?_eq roomy top present, fun present k =>
        ⟨fun few => steps?_back_none few roomy present,
          fun enough => steps?_back_forth enough roomy present⟩⟩
      · rw [← whole]
        exact_mod_cast roomy
      · rw [record_eq bounded]
        simp only [← whole, Int.ofNat_inj]

/-- A history that has room for two states, after three edits. -/
def crowded : History Nat :=
  [.record 1, .record 2, .record 3].foldl after { limit := 2, limit_pos := Nat.zero_lt_two }

theorem crowded_stacks_share_room :
    ofLimit 2 = .ok { limit := 2, limit_pos := Nat.zero_lt_two : History Nat } ∧
    crowded.past = [3, 2] ∧ (crowded.record 4).past = [4, 3] ∧
    ∃ there, steps? back? 2 crowded 4 = some ([3, 2], there) ∧
      steps? forth? 2 there 2 = some ([3, 4], crowded) := by
  have made : ofLimit 2 = .ok { limit := 2, limit_pos := Nat.zero_lt_two : History Nat } := rfl
  obtain ⟨_, recorded, _, _, _, _, steps⟩ := (stacks_share_room (by decide)).2 _ made
    [.record 1, .record 2, .record 3]
  exact ⟨made, rfl, congrArg History.past (recorded 4), (steps 4 2).2 (by decide)⟩

end Flowchart.History
