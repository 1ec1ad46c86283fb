import Flowchart.Diagram
import Flowchart.Proofs.Setters

/-! Entities in plain data, field by field: a record is read into an entity just if each field of
the entity is what the record says, or what stands for a field that the record leaves out. -/
namespace Flowchart

namespace Fields
variable {fields further : Fields} {name : Text}

theorem get?_append : get? (fields ++ further) name = (fields.get? name).or (further.get? name) := by
  induction fields with
  | nil => rfl
  | cons c fields ih =>
    rw [List.cons_append, get?_cons, get?_cons, ih]
    split <;> rfl

theorem get?_remove_of_ne {other : Text} (different : other ≠ name) :
    get? (Keyed.remove other fields) name = fields.get? name := by
  rw [get?, Keyed.find?_remove_of_ne different]
  rfl

theorem require_eq_ok {v : Value} : fields.require name = .ok v ↔ fields.get? name = some v := by
  unfold require
  split <;> simp_all

end Fields

/-- The fields of a record say this of a node. -/
structure Node.Reads (fs : Fields) (n : Node) : Prop where
  id : fs.get? "id" = some n.id
  text : (fs.get? "text").getD n.id = n.text
  shape : (if (fs.get "shape").holds then Shape.ofData (fs.get "shape") else .ok .rect) = .ok n.shape
  style : NodeStyle.ofData? (fs.get "style") = .ok n.style
  classes : (fs.get "css_classes").partsIfAny = .ok n.classes
  link : fs.get "link" = n.link
  linkTarget : fs.get "link_target" = n.linkTarget
  tooltip : fs.get "tooltip" = n.tooltip
  parent : fs.get "parent_id" = n.parent
  position : Position.ofData? (fs.get "position") = .ok n.position
  size : Size.ofData? (fs.get "size") = .ok n.size
  icon : fs.get "icon" = n.icon
  image : fs.get "img" = n.image
  form : fs.get "form" = n.form
  labelPosition : fs.get "label_pos" = n.labelPosition
  width : fs.get "width" = n.width
  height : fs.get "height" = n.height

theorem Node.ofData_eq_ok {fs : Fields} {n : Node} : ofData (.record fs) = .ok n ↔ Reads fs n := by
  have steps : ofData (.record fs) = .ok n ↔ ∃ id, fs.get? "id" = some id ∧ ∃ shape,
      (if (fs.get "shape").holds then Shape.ofData (fs.get "shape") else .ok .rect) = .ok shape ∧
      ∃ style, NodeStyle.ofData? (fs.get "style") = .ok style ∧
      ∃ classes, (fs.get "css_classes").partsIfAny = .ok classes ∧
      ∃ position, Position.ofData? (fs.get "position") = .ok position ∧
      ∃ size, Size.ofData? (fs.get "size") = .ok size ∧
        { id, text := (fs.get? "text").getD id, shape, style, classes, link := fs.get "link"
          linkTarget := fs.get "link_target", tooltip := fs.get "tooltip"
          parent := fs.get "parent_id", position, size, icon := fs.get "icon"
          image := fs.get "img", form := fs.get "form", labelPosition := fs.get "label_pos"
          width := fs.get "width", height := fs.get "height" } = n := by
    simp only [ofData, Value.fields, bind_eq_ok, Fields.require_eq_ok, Except.ok.injEq,
      exists_eq_left']
    split <;> simp only [bind_eq_ok, pure_eq_ok]
  rw [steps]
  constructor
  · rintro ⟨id, given, shape, hshape, style, hstyle, classes, hclasses, position, hposition, size,
      hsize, rfl⟩
    exact ⟨given, rfl, hshape, hstyle, hclasses, rfl, rfl, rfl, rfl, hposition, hsize, rfl, rfl,
      rfl, rfl, rfl, rfl⟩
  · intro h
    refine ⟨n.id, h.id, n.shape, h.shape, n.style, h.style, n.classes, h.classes,
      n.position, h.position, n.size, h.size, ?_⟩
    rw [h.text, h.link, h.linkTarget, h.tooltip, h.parent, h.icon, h.image, h.form,
      h.labelPosition, h.width, h.height]

/-- The fields of a record say this of an edge. -/
structure Edge.Reads (fs : Fields) (e : Edge) : Prop where
  id : fs.get? "id" = some e.id
  source : fs.get? "source" = some e.source
  target : fs.get? "target" = some e.target
  text : fs.get "text" = e.text
  stroke : ((fs.get? "stroke").map Stroke.ofData).getD (.ok .normal) = .ok e.stroke
  sourceTip : ((fs.get? "arrow_start").map Tip.ofData).getD (.ok .none) = .ok e.sourceTip
  targetTip : ((fs.get? "arrow_end").map Tip.ofData).getD (.ok .arrow) = .ok e.targetTip
  length : (fs.get? "length").getD (.number (.int 1)) = e.length
  style : EdgeStyle.ofData? (fs.get "style") = .ok e.style
  classes : (fs.get "css_classes").partsIfAny = .ok e.classes
  animate : .bool (fs.get "animate").holds = e.animate
  animation : fs.get "animation" = e.animation
  named : .bool (fs.get "user_defined_id").holds = e.named

theorem Edge.ofData_eq_ok {fs : Fields} {e : Edge} : ofData (.record fs) = .ok e ↔ Reads fs e := by
  simp only [ofData, bind_eq_ok, pure_eq_ok, Fields.require_eq_ok]
  constructor
  · rintro ⟨_, ⟨⟩, id, hid, source, hsource, target, htarget, stroke, hstroke, sourceTip, hsourceTip,
      targetTip, htargetTip, style, hstyle, classes, hclasses, rfl⟩
    exact ⟨hid, hsource, htarget, rfl, hstroke, hsourceTip, htargetTip, rfl, hstyle, hclasses, rfl,
      rfl, rfl⟩
  · intro h
    refine ⟨fs, rfl, e.id, h.id, e.source, h.source, e.target, h.target, e.stroke, h.stroke,
      e.sourceTip, h.sourceTip, e.targetTip, h.targetTip, e.style, h.style, e.classes, h.classes, ?_⟩
    rw [h.text, h.length, h.animate, h.animation, h.named]

/-- The fields of a record say this of a subgraph. -/
structure Subgraph.Reads (fs : Fields) (g : Subgraph) : Prop where
  id : fs.get? "id" = some g.id
  title : (fs.get "title").orElse g.id = g.title
  members : (fs.get "node_ids").partsIfAny = .ok g.members
  parent : fs.get "parent_id" = g.parent
  direction : (if (fs.get "direction").holds then (Direction.ofData (fs.get "direction")).map some
    else .ok none) = .ok g.direction
  classes : (fs.get "css_classes").partsIfAny = .ok g.classes

theorem Subgraph.ofData_eq_ok {fs : Fields} {g : Subgraph} :
    ofData (.record fs) = .ok g ↔ Reads fs g := by
  have steps : ofData (.record fs) = .ok g ↔ ∃ id, fs.get? "id" = some id ∧
      ∃ members, (fs.get "node_ids").partsIfAny = .ok members ∧
      ∃ direction, (if (fs.get "direction").holds
        then (Direction.ofData (fs.get "direction")).map some else .ok none) = .ok direction ∧
      ∃ classes, (fs.get "css_classes").partsIfAny = .ok classes ∧
        { id, title := (fs.get "title").orElse id, members, parent := fs.get "parent_id", direction
          classes } = g := by
    simp only [ofData, Value.asRecord, bind_eq_ok, Fields.require_eq_ok, Except.ok.injEq,
      exists_eq_left']
    split <;> simp only [bind_eq_ok, pure_eq_ok]
  rw [steps]
  constructor
  · rintro ⟨id, given, members, hmembers, direction, hdirection, classes, hclasses, rfl⟩
    exact ⟨given, rfl, hmembers, rfl, hdirection, hclasses⟩
  · intro h
    refine ⟨g.id, h.id, g.members, h.members, g.direction, h.direction, g.classes, h.classes, ?_⟩
    rw [h.title, h.parent]

end Flowchart
