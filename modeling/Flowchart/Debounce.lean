import Flowchart.Emitter
import Flowchart.Note

/-! Work that waits for a pause. Asking for it starts a timer, and asking again starts a new
one in its place; the work is done when a timer runs out or when someone has no patience.
Every timer has a number of its own, so one that runs out after its time is known by it. -/
namespace Flowchart

/-- A timer: the number of the one that runs, and how many were started. -/
structure Timer where
  running : Option Nat := none
  started : Nat := 0
  deriving DecidableEq, Repr

namespace Timer

/-- A new timer in place of the running one. -/
def restart (t : Timer) : Timer := ⟨some t.started, t.started + 1⟩

/-- The timer stopped. -/
def stop (t : Timer) : Timer := { t with running := none }

/-- Does a timer run? -/
def isRunning (t : Timer) : Bool := t.running.isSome

end Timer

/-- A state with a timer and a place for notes. -/
class Debounced (σ : Type) where
  timer : σ → Timer
  setTimer : Timer → σ → σ
  addNote : Note → σ → σ

namespace Debounced
variable {σ : Type} [Debounced σ]

/-- Asks for the work. -/
def schedule : Action σ Unit := modify fun s => setTimer (timer s).restart s

/-- Gives the work up. Was it waiting? -/
def cancel : Action σ Bool := do
  let waiting := (timer (← get)).isRunning
  modify fun s => setTimer (timer s).stop s
  return waiting

/-- Does the work now if it is waiting. A failure of the work is the caller's. -/
def flush (work : Action σ Unit) : Action σ Bool := do
  if ← cancel then
    work
    return true
  else return false

/-- A timer runs out. Only the running one has the work done, and then nobody is there who
could hear of a failure, so it is noted. -/
def runOut (work : Action σ Unit) (number : Nat) : Action σ Unit := do
  if (timer (← get)).running = some number then
    let _ ← cancel
    tryCatch work fun _ => modify fun s => addNote .delayedFailure s

/-- The pause is over. Did a timer run? -/
def elapse (work : Action σ Unit) : Action σ Bool := do
  match (timer (← get)).running with
  | none => return false
  | some number =>
    runOut work number
    return true

end Debounced
end Flowchart
