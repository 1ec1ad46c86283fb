import Flowchart.Operator
import Flowchart.Style

/-! Edges, and edges as plain data. What plain data says of an edge is kept as it comes, but
for its stroke, its tips and its style, which have to make sense. The null value stands for
what is absent. Whether the rest makes sense shows when the edge is written. -/
namespace Flowchart

/-- An edge of a diagram. -/
structure Edge where
  id : Value
  source : Value
  target : Value
  text : Value := .null
  stroke : Stroke := .normal
  sourceTip : Tip := .none
  targetTip : Tip := .arrow
  length : Value := .number (.int 1)
  style : Option EdgeStyle := none
  classes : List Value := []
  animate : Value := .bool false
  animation : Value := .null
  /-- Was the id given by the author, and not generated? -/
  named : Value := .bool false
  deriving DecidableEq, Repr

/-- A stroke by its name in plain data. -/
def Stroke.ofData (v : Value) : Except Error Stroke :=
  match v with
  | .text t => match Stroke.ofName? t with
    | some s => .ok s
    | none => .error (.notAmong v.literal .stroke)
  | v => .error (.notAmong v.literal .stroke)

/-- A tip by its name in plain data. -/
def Tip.ofData (v : Value) : Except Error Tip :=
  match v with
  | .text t => match Tip.ofName? t with
    | some s => .ok s
    | .none => .error (.notAmong v.literal .tip)
  | v => .error (.notAmong v.literal .tip)

/-- The length that an operator is drawn with by a length in plain data. Whatever is not more
than one counts as one; more than that has to be an integer. -/
def Operator.lengthOfData : Value → Except Error Int
  | .number (.int n) => .ok (max 1 n)
  | .bool _ => .ok 1
  | .number (.binary b) =>
    if b.negative || b.quotient.1 ≤ b.quotient.2 then .ok 1 else .error .wrongForm
  | _ => .error .wrongForm

namespace Edge

instance : Keyed Edge Value := ⟨Edge.id⟩

/-- Does the edge carry something at both ends? -/
def isBidirectional (e : Edge) : Bool := e.sourceTip != .none && e.targetTip != .none

/-- Does the edge begin or end at a node? -/
def touches (e : Edge) (node : Value) : Bool := e.source == node || e.target == node

/-- The operator that the edge is written with. -/
def operator (e : Edge) : Except Error Text := do
  Operator.build e.stroke e.sourceTip e.targetTip (← Operator.lengthOfData e.length)

/-- The edge in plain data. -/
def toData (e : Edge) : Value := .record [
  ("id", e.id), ("source", e.source), ("target", e.target), ("text", e.text),
  ("stroke", .text e.stroke.name), ("arrow_start", .text e.sourceTip.name),
  ("arrow_end", .text e.targetTip.name), ("length", e.length),
  ("style", (e.style.map EdgeStyle.toData).getD .null), ("css_classes", .list e.classes),
  ("animate", e.animate), ("animation", e.animation), ("user_defined_id", e.named)]

/-- An edge from plain data. An absent stroke, tip or length is the usual one; a null one is
not. What is said of animation and of the author's id is a truth value afterwards. -/
def ofData (v : Value) : Except Error Edge := do
  let fs ← v.fields
  return {
    id := ← fs.require "id"
    source := ← fs.require "source"
    target := ← fs.require "target"
    text := fs.get "text"
    stroke := ← ((fs.get? "stroke").map Stroke.ofData).getD (.ok .normal)
    sourceTip := ← ((fs.get? "arrow_start").map Tip.ofData).getD (.ok .none)
    targetTip := ← ((fs.get? "arrow_end").map Tip.ofData).getD (.ok .arrow)
    length := (fs.get? "length").getD (.number (.int 1))
    style := ← EdgeStyle.ofData? (fs.get "style")
    classes := ← (fs.get "css_classes").partsIfAny
    animate := .bool (fs.get "animate").holds
    animation := fs.get "animation"
    named := .bool (fs.get "user_defined_id").holds }

/-- An edge from plain data that may leave the id open. -/
def ofDraft (v : Value) : Except Error Edge := do
  ofData (.record ((← v.fields).otherwise [("id", .text [])]))

/-- What each field of plain data changes in an edge. The id is never changed. -/
def setters : List (Text × (Value → Except Error (Edge → Edge))) := [
  ("id", fun _ => .ok fun x => x),
  ("source", fun v => .ok fun e => { e with source := v }),
  ("target", fun v => .ok fun e => { e with target := v }),
  ("text", fun v => .ok fun e => { e with text := v }),
  ("stroke", fun v => (Stroke.ofData v).map fun s e => { e with stroke := s }),
  ("arrow_start", fun v => (Tip.ofData v).map fun t e => { e with sourceTip := t }),
  ("arrow_end", fun v => (Tip.ofData v).map fun t e => { e with targetTip := t }),
  ("length", fun v => .ok fun e => { e with length := v }),
  ("style", fun v => (EdgeStyle.ofData? v).map fun s e => { e with style := s }),
  ("css_classes", fun v => v.partsIfAny.map fun cs e => { e with classes := cs }),
  ("animate", fun v => .ok fun e => { e with animate := v }),
  ("animation", fun v => .ok fun e => { e with animation := v }),
  ("user_defined_id", fun v => .ok fun e => { e with named := v })]

end Edge
end Flowchart
