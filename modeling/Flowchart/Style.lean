import Flowchart.Value

/-! Styles of nodes and edges: colours and a line width, each of which may be left open by
the null value. A style that leaves everything open is still a style, but nothing is written
for it. -/
namespace Flowchart

/-- The style of a node. -/
structure NodeStyle where
  fill : Value := .null
  stroke : Value := .null
  strokeWidth : Value := .null
  color : Value := .null
  deriving DecidableEq, Repr

/-- The style of an edge. -/
structure EdgeStyle where
  stroke : Value := .null
  strokeWidth : Value := .null
  deriving DecidableEq, Repr

/-- The fields of plain data that are set. -/
def setFields (fields : Fields) : Fields := fields.filter fun f => f.2.isSome

/-- The fields of plain data, refused if one is not among the given names. -/
def onlyFields (names : List Text) (v : Value) : Except Error Fields := do
  let fs ← v.fields
  match fs.find? fun f => !names.contains f.1 with
  | some f => .error (.unknownStyle f.1)
  | none => .ok fs

namespace NodeStyle

/-- The style that leaves everything open. -/
def plain : NodeStyle := {}

/-- Does the style leave everything open? -/
def isPlain (s : NodeStyle) : Bool := s == plain

/-- The style in plain data: what it leaves open does not occur. -/
def toData (s : NodeStyle) : Value := .record <| setFields [
  ("fill", s.fill), ("stroke", s.stroke), ("stroke_width", s.strokeWidth), ("color", s.color)]

/-- A style from plain data; null is no style. -/
def ofData? : Value → Except Error (Option NodeStyle)
  | .null => .ok none
  | v => do
    let fs ← onlyFields ["fill", "stroke", "stroke_width", "color"] v
    return some {
      fill := fs.get "fill", stroke := fs.get "stroke"
      strokeWidth := fs.get "stroke_width", color := fs.get "color" }

end NodeStyle

namespace EdgeStyle

/-- The style that leaves everything open. -/
def plain : EdgeStyle := {}

/-- Does the style leave everything open? -/
def isPlain (s : EdgeStyle) : Bool := s == plain

/-- The style in plain data: what it leaves open does not occur. -/
def toData (s : EdgeStyle) : Value := .record <| setFields [
  ("stroke", s.stroke), ("stroke_width", s.strokeWidth)]

/-- A style from plain data; null is no style. -/
def ofData? : Value → Except Error (Option EdgeStyle)
  | .null => .ok none
  | v => do
    let fs ← onlyFields ["stroke", "stroke_width"] v
    return some { stroke := fs.get "stroke", strokeWidth := fs.get "stroke_width" }

end EdgeStyle
end Flowchart
