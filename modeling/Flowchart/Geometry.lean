import Flowchart.Value

/-! Places and extents on the drawing plane. They are set from outside and never written
into the notation. Their coordinates are kept as they come; only the middle of two places has
to be computed, and only numbers have a middle. -/
namespace Flowchart

/-- A place on the plane. -/
structure Position where
  x : Value
  y : Value
  deriving DecidableEq, Repr

/-- An extent on the plane. -/
structure Size where
  width : Value
  height : Value
  deriving DecidableEq, Repr

/-- The place in plain data. -/
def Position.toData (p : Position) : Value := .record [("x", p.x), ("y", p.y)]

/-- A place from plain data; null is no place. -/
def Position.ofData? : Value → Except Error (Option Position)
  | .null => .ok none
  | v => do
    let fs ← v.fields
    return some ⟨← fs.require "x", ← fs.require "y"⟩

/-- The value halfway between two numbers. -/
def Value.middle (v w : Value) : Except Error Value := do
  return .number (← (← v.asNumber).middle (← w.asNumber))

/-- The place halfway between two places. -/
def Position.middle (p q : Position) : Except Error Position := do
  return ⟨← p.x.middle q.x, ← p.y.middle q.y⟩

/-- The extent in plain data. -/
def Size.toData (s : Size) : Value := .record [("width", s.width), ("height", s.height)]

/-- An extent from plain data; null is no extent. -/
def Size.ofData? : Value → Except Error (Option Size)
  | .null => .ok none
  | v => do
    let fs ← v.fields
    return some ⟨← fs.require "width", ← fs.require "height"⟩

end Flowchart
