import Flowchart.Text.Run
import Flowchart.Value

/-! Histories of states: what an undo goes back to and what a redo goes forward to. Both are
stacks with the latest state first. A history is bounded: it holds a limited number of states
of each kind and forgets the oldest. -/
namespace Flowchart

/-- A bounded history of states. -/
structure History (α : Type) where
  limit : Nat
  /-- The states before the present one, the latest first. -/
  past : List α := []
  /-- The states after the present one, the next first. -/
  future : List α := []
  limit_pos : 0 < limit

namespace History
variable {α : Type}

/-- An empty history. It must be able to hold something, and not more than a machine could
address. -/
def ofLimit (limit : Int) : Except Error (History α) :=
  if limit < 1 then .error (.historyLimit (Text.ofInt limit))
  else if limit ≥ countLimit then .error .hugeHistory
  else if h : 0 < limit.toNat then .ok { limit := limit.toNat, limit_pos := h }
  else .error (.historyLimit (Text.ofInt limit))

/-- An empty history by a limit in plain data. A truth value counts as zero or one, and a
fraction is never a limit. -/
def ofData (limit : Value) : Except Error (History α) :=
  match limit with
  | .number (.int n) => ofLimit n
  | .bool true => ofLimit 1
  | .bool false => .error (.historyLimit limit.shown)
  | .number (.binary b) =>
    if b.negative || b.quotient.1 < b.quotient.2 then .error (.historyLimit limit.shown)
    else .error .wrongForm
  | _ => .error .wrongForm

/-- A stack with one more state on top, and without the oldest one if it grows too high. -/
def push (h : History α) (state : α) (stack : List α) : List α :=
  (state :: stack).take h.limit

/-- The history after an edit of a state. There is nothing to redo. -/
def record (h : History α) (state : α) : History α :=
  { h with past := h.push state h.past, future := [] }

/-- One step back from the present state, if there is one. -/
def back? (h : History α) (present : α) : Option (α × History α) :=
  match h.past with
  | [] => none
  | state :: past => some (state, { h with past, future := h.push present h.future })

/-- One step forward from the present state, if there is one. -/
def forth? (h : History α) (present : α) : Option (α × History α) :=
  match h.future with
  | [] => none
  | state :: future => some (state, { h with past := h.push present h.past, future })

/-- The history with nothing in it. -/
def cleared (h : History α) : History α := { h with past := [], future := [] }

theorem length_push_le (h : History α) (state : α) (stack : List α) :
    (h.push state stack).length ≤ h.limit := List.length_take_le ..

/-- A state that is pushed is on top, since the history can hold something. -/
theorem head?_push (h : History α) (state : α) (stack : List α) :
    (h.push state stack).head? = some state := by
  obtain ⟨n, hn⟩ := Nat.exists_eq_succ_of_ne_zero (Nat.ne_of_gt h.limit_pos)
  simp [push, hn]

theorem back?_eq_none_iff {h : History α} {present : α} :
    h.back? present = none ↔ h.past = [] := by
  cases hp : h.past <;> simp [back?, hp]

theorem forth?_eq_none_iff {h : History α} {present : α} :
    h.forth? present = none ↔ h.future = [] := by
  cases hf : h.future <;> simp [forth?, hf]

end History
end Flowchart
