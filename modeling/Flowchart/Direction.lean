import Flowchart.Text

/-! The direction in which a diagram or a subgraph grows. -/
namespace Flowchart

/-- From the first letter's side to the second's: top, bottom, left, right. -/
inductive Direction where
  | tb | bt | lr | rl
  deriving DecidableEq, Repr

namespace Direction

/-- The spelling of a direction. -/
def name : Direction → Text
  | .tb => "TB"
  | .bt => "BT"
  | .lr => "LR"
  | .rl => "RL"

/-- All directions. -/
def all : List Direction := [.tb, .bt, .lr, .rl]

/-- The direction with exactly this spelling. -/
def ofName? (s : Text) : Option Direction := all.find? fun d => d.name == s

/-- The direction that a word of the notation names, in upper or lower case. `TD`, top down,
is another word for `TB`. -/
def ofToken? (s : Text) : Option Direction :=
  let key := s.map Char.toUpper
  if key = ['T', 'D'] then some .tb else ofName? key

theorem ofName?_name (d : Direction) : ofName? d.name = some d := by cases d <;> rfl

theorem ofToken?_name (d : Direction) : ofToken? d.name = some d := by cases d <;> rfl

end Direction
end Flowchart
