import Flowchart.History

/-! Timelines: what a history with its present state stands for. A timeline has the states in the
order in which they were reached and a cursor on the present one. Undo and redo only move the
cursor; an edit drops what comes after it. The two stacks of a history are the two sides of the
cursor, and their bounds are such that moving the cursor never loses a state. -/
namespace Flowchart

/-- States in the order in which they were reached, one of which is the present one. -/
structure Timeline (α : Type) where
  states : List α
  cursor : Nat
  inside : cursor < states.length

namespace Timeline
variable {α : Type}

/-- The timeline of a first state. -/
def start (a : α) : Timeline α := ⟨[a], 0, Nat.zero_lt_one⟩

/-- The state at the cursor. -/
def present (t : Timeline α) : α := t.states.get ⟨t.cursor, t.inside⟩

/-- A new state after the present one. What came after that is dropped, and of the states before
the new one only the latest are kept, as many as the limit says. -/
def record (limit : Nat) (a : α) (t : Timeline α) : Timeline α :=
  let reached := t.states.take (t.cursor + 1)
  let kept := reached.drop (reached.length - limit)
  { states := kept ++ [a], cursor := kept.length, inside := by simp }

/-- The cursor one state back, if there is one. -/
def back (t : Timeline α) : Timeline α :=
  { t with cursor := t.cursor - 1, inside := Nat.lt_of_le_of_lt (Nat.sub_le ..) t.inside }

/-- The cursor one state on, if there is one. -/
def forth (t : Timeline α) : Timeline α :=
  if h : t.cursor + 1 < t.states.length then { t with cursor := t.cursor + 1, inside := h } else t

@[simp] theorem states_back (t : Timeline α) : t.back.states = t.states := rfl

@[simp] theorem cursor_back (t : Timeline α) : t.back.cursor = t.cursor - 1 := rfl

@[simp] theorem states_forth (t : Timeline α) : t.forth.states = t.states := by
  unfold forth
  split <;> rfl

theorem cursor_forth {t : Timeline α} (sooner : t.cursor + 1 < t.states.length) :
    t.forth.cursor = t.cursor + 1 := by
  rw [forth, dif_pos sooner]

theorem back_first {t : Timeline α} (first : t.cursor = 0) : t.back = t := by
  cases t
  simp_all [back]

theorem forth_last {t : Timeline α} (last : t.cursor + 1 = t.states.length) : t.forth = t := by
  rw [forth, dif_neg (Nat.not_lt.mpr (Nat.le_of_eq last.symm))]

theorem forth_back {t : Timeline α} (later : 0 < t.cursor) : t.back.forth = t := by
  have inside : t.back.cursor + 1 < t.back.states.length := by
    rw [cursor_back, Nat.sub_add_cancel later]
    exact t.inside
  rw [forth, dif_pos inside]
  simp [back, Nat.sub_add_cancel later]

end Timeline

namespace History
variable {α : Type} {h : History α} {now : α} {t : Timeline α}

/-- A history that has just been made holds nothing. -/
theorem ofData_fresh {limit : Value} (made : ofData limit = .ok h) :
    h.past = [] ∧ h.future = [] := by
  simp only [ofData, ofLimit] at made
  repeat' split at made
  all_goals cases made
  all_goals exact ⟨rfl, rfl⟩

/-- One step back from an edit of a state leads to the state. -/
theorem back?_record (h : History α) (state present : α) :
    ∃ h', (h.record state).back? present = some (state, h') := by
  obtain ⟨rest, pushed⟩ : ∃ rest, h.push state h.past = state :: rest :=
    List.head?_eq_some_iff.mp (h.head?_push state h.past)
  rw [back?, record, pushed]
  exact ⟨_, rfl⟩

/-- The history and the present state are the timeline, seen from its cursor. -/
structure Mirrors (h : History α) (now : α) (t : Timeline α) : Prop where
  states : t.states = h.past.reverse ++ now :: h.future
  cursor : t.cursor = h.past.length
  bounded : t.states.length ≤ h.limit + 1

theorem Mirrors.present (m : Mirrors h now t) : t.present = now := by
  simp [Timeline.present, m.states, m.cursor]

theorem mirrors_start (past : h.past = []) (future : h.future = []) :
    Mirrors h now (.start now) := by
  refine ⟨?_, ?_, ?_⟩
  · simp [Timeline.start, past, future]
  · simp [Timeline.start, past]
  · simp [Timeline.start]

/-- An edit of the present state. -/
theorem Mirrors.record (m : Mirrors h now t) (a : α) :
    Mirrors (h.record now) a (t.record h.limit a) := by
  have reached : t.states.take (t.cursor + 1) = (now :: h.past).reverse := by
    have split : t.states = (now :: h.past).reverse ++ h.future := by simp [m.states]
    rw [split, m.cursor]
    exact List.take_left' (by simp)
  have kept : (t.record h.limit a).states = (h.push now h.past).reverse ++ [a] := by
    simp only [Timeline.record, reached, push, List.reverse_take, List.length_reverse]
  refine ⟨kept, ?_, ?_⟩
  · simp only [Timeline.record, reached, History.record, push, List.length_drop,
      List.length_reverse, List.length_cons, List.length_take]
    omega
  · rw [kept, List.length_append, List.length_reverse]
    exact Nat.add_le_add_right (h.length_push_le now h.past) 1

theorem push_eq {state : α} {stack : List α} (room : stack.length < h.limit) :
    h.push state stack = state :: stack := List.take_of_length_le room

theorem Mirrors.back_none (m : Mirrors h now t) (first : t.cursor = 0) : h.back? now = none :=
  back?_eq_none_iff.mpr (List.length_eq_zero_iff.mp (m.cursor.symm.trans first))

theorem Mirrors.forth_none (m : Mirrors h now t) (last : t.cursor + 1 = t.states.length) :
    h.forth? now = none := by
  refine forth?_eq_none_iff.mpr (List.length_eq_zero_iff.mp ?_)
  have length := congrArg List.length m.states
  simp only [List.length_append, List.length_reverse, List.length_cons] at length
  have cursor := m.cursor
  omega

theorem Mirrors.back (m : Mirrors h now t) (later : 0 < t.cursor) :
    ∃ h', h.back? now = some (t.back.present, h') ∧ Mirrors h' t.back.present t.back ∧
      h'.limit = h.limit := by
  obtain ⟨a, past, split⟩ : ∃ a past, h.past = a :: past :=
    List.exists_cons_of_length_pos (m.cursor ▸ later)
  have length := m.bounded
  rw [m.states, split] at length
  have room : h.future.length < h.limit := by
    simp only [List.length_append, List.length_reverse, List.length_cons] at length
    omega
  have mirrors : Mirrors { h with past, future := h.push now h.future } a t.back := by
    refine ⟨?_, ?_, m.bounded⟩
    · simp [m.states, split, push_eq room]
    · simp [m.cursor, split]
  rw [mirrors.present]
  exact ⟨_, by rw [back?, split], mirrors, rfl⟩

theorem Mirrors.forth (m : Mirrors h now t) (sooner : t.cursor + 1 < t.states.length) :
    ∃ h', h.forth? now = some (t.forth.present, h') ∧ Mirrors h' t.forth.present t.forth ∧
      h'.limit = h.limit := by
  obtain ⟨a, future, split⟩ : ∃ a future, h.future = a :: future := by
    refine List.exists_cons_of_length_pos ?_
    have length := congrArg List.length m.states
    simp only [List.length_append, List.length_reverse, List.length_cons] at length
    have cursor := m.cursor
    omega
  have length := m.bounded
  rw [m.states, split] at length
  have room : h.past.length < h.limit := by
    simp only [List.length_append, List.length_reverse, List.length_cons] at length
    omega
  have mirrors : Mirrors { h with past := h.push now h.past, future } a t.forth := by
    refine ⟨?_, ?_, ?_⟩
    · simp [m.states, split, push_eq room]
    · simp [Timeline.cursor_forth sooner, m.cursor, push_eq room]
    · simpa using m.bounded
  rw [mirrors.present]
  exact ⟨_, by rw [forth?, split], mirrors, rfl⟩

theorem Mirrors.back_record (m : Mirrors h now t) (a : α) :
    0 < (t.record h.limit a).cursor ∧ (t.record h.limit a).back.present = now := by
  obtain ⟨rest, pushed⟩ : ∃ rest, h.push now h.past = now :: rest :=
    List.head?_eq_some_iff.mp (h.head?_push now h.past)
  have recorded := m.record a
  have later : 0 < (t.record h.limit a).cursor := by
    rw [recorded.cursor, History.record, pushed]
    exact Nat.succ_pos _
  obtain ⟨h', back, _, _⟩ := recorded.back later
  rw [back?, History.record, pushed] at back
  exact ⟨later, (congrArg Prod.fst (Option.some.inj back)).symm⟩

end History
end Flowchart
