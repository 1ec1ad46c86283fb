import Flowchart.Geometry
import Flowchart.Shape
import Flowchart.Style

/-! Nodes, and nodes as plain data. What plain data says of a node is kept as it comes, but
for its shape, its style, its place and its extent, which have to make sense. The null value
stands for what is absent. Whether the rest makes sense shows when the node is written. -/
namespace Flowchart

/-- A node of a diagram. Place and extent are set from outside; the fields after them are
the further properties that a node may be declared with. -/
structure Node where
  id : Value
  text : Value
  shape : Shape := .rect
  style : Option NodeStyle := none
  classes : List Value := []
  link : Value := .null
  linkTarget : Value := .null
  tooltip : Value := .null
  parent : Value := .null
  position : Option Position := none
  size : Option Size := none
  icon : Value := .null
  image : Value := .null
  form : Value := .null
  labelPosition : Value := .null
  width : Value := .null
  height : Value := .null
  deriving DecidableEq, Repr

/-- A shape by its name in plain data. -/
def Shape.ofData (v : Value) : Except Error Shape := v.asWord.map .resolve

namespace Node

instance : Keyed Node Value := ⟨Node.id⟩

/-- A rectangle that shows its id. -/
def bare (id : Value) : Node := { id, text := id }

/-- The node in plain data. -/
def toData (n : Node) : Value := .record [
  ("id", n.id), ("text", n.text), ("shape", .text n.shape.name),
  ("style", (n.style.map NodeStyle.toData).getD .null), ("css_classes", .list n.classes),
  ("link", n.link), ("link_target", n.linkTarget), ("tooltip", n.tooltip),
  ("parent_id", n.parent), ("position", (n.position.map Position.toData).getD .null),
  ("size", (n.size.map Size.toData).getD .null), ("icon", n.icon), ("img", n.image),
  ("form", n.form), ("label_pos", n.labelPosition), ("width", n.width), ("height", n.height)]

/-- A node from plain data. Without a text it shows its id, and without a shape it is a
rectangle. -/
def ofData (v : Value) : Except Error Node := do
  let fs ← v.fields
  let id ← fs.require "id"
  return {
    id
    text := (fs.get? "text").getD id
    shape := ← if (fs.get "shape").holds then Shape.ofData (fs.get "shape") else .ok .rect
    style := ← NodeStyle.ofData? (fs.get "style")
    classes := ← (fs.get "css_classes").partsIfAny
    link := fs.get "link"
    linkTarget := fs.get "link_target"
    tooltip := fs.get "tooltip"
    parent := fs.get "parent_id"
    position := ← Position.ofData? (fs.get "position")
    size := ← Size.ofData? (fs.get "size")
    icon := fs.get "icon"
    image := fs.get "img"
    form := fs.get "form"
    labelPosition := fs.get "label_pos"
    width := fs.get "width"
    height := fs.get "height" }

/-- What each field of plain data changes in a node. The id is never changed. -/
def setters : List (Text × (Value → Except Error (Node → Node))) := [
  ("id", fun _ => .ok fun x => x),
  ("text", fun v => .ok fun n => { n with text := v }),
  ("shape", fun v => (Shape.ofData v).map fun s n => { n with shape := s }),
  ("style", fun v => (NodeStyle.ofData? v).map fun s n => { n with style := s }),
  ("css_classes", fun v => v.partsIfAny.map fun cs n => { n with classes := cs }),
  ("link", fun v => .ok fun n => { n with link := v }),
  ("link_target", fun v => .ok fun n => { n with linkTarget := v }),
  ("tooltip", fun v => .ok fun n => { n with tooltip := v }),
  ("parent_id", fun v => .ok fun n => { n with parent := v }),
  ("position", fun v => (Position.ofData? v).map fun p n => { n with position := p }),
  ("size", fun v => (Size.ofData? v).map fun s n => { n with size := s }),
  ("icon", fun v => .ok fun n => { n with icon := v }),
  ("img", fun v => .ok fun n => { n with image := v }),
  ("form", fun v => .ok fun n => { n with form := v }),
  ("label_pos", fun v => .ok fun n => { n with labelPosition := v }),
  ("width", fun v => .ok fun n => { n with width := v }),
  ("height", fun v => .ok fun n => { n with height := v })]

end Node
end Flowchart
