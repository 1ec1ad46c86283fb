import Flowchart.Diagram
import Flowchart.Shape.Bracketed

/-! Writing a diagram. A diagram is laid out as statements, each at a depth, and every
statement is one line. The declaration comes first; then the nodes outside subgraphs, the
subgraphs with what they enclose, the edges, the properties of edges, and the styling. What
has to be quoted or escaped in a statement must be a text, and an edge must not be too long;
otherwise the statement has no line and writing fails. -/
namespace Flowchart

/-- What is written, and how it is indented. -/
structure Layout where
  indent : Text := "    "
  styles : Bool := true
  classes : Bool := true
  deriving DecidableEq, Repr

/-- A statement of a laid out diagram. -/
inductive Written where
  | declaration (direction : Direction)
  | node (n : Node)
  | subgraph (g : Subgraph)
  | direction (direction : Direction)
  | close
  | edge (e : Edge)
  | properties (e : Edge)
  | define (c : StyleClass)
  | assign (ids : List Value) (name : Value)
  | style (id : Value) (s : NodeStyle)
  | linkStyle (place : Nat) (s : EdgeStyle)
  | click (id link tooltip target : Value)
  deriving DecidableEq, Repr

namespace Writing

/-- Is the tooltip written as a property? With a link it is written with the link. -/
def hasOwnTooltip (n : Node) : Bool := n.tooltip.isSome && !n.link.isSome

/-- Must the node be declared with properties? -/
def needsProperties (n : Node) : Bool :=
  !n.shape.isBracketed || n.icon.isSome || n.image.isSome || n.form.isSome ||
  n.labelPosition.isSome || n.width.isSome || n.height.isSome || hasOwnTooltip n

/-- A property with a quoted value. -/
def quotedProperty (key : Text) (value : Value) : Except Error Text := do
  return key ++ ": ".toList ++ Quoted.inQuotes (← value.asText)

/-- A property with a plain value. -/
def plainProperty (key value : Text) : Text := key ++ ": ".toList ++ value

/-- Properties in braces after an at sign. -/
def braced (id : Text) (properties : List Text) : Text :=
  id ++ "@\x7b ".toList ++ Text.join ", " properties ++ " \x7d".toList

/-- The properties of a node with quoted values that are written if the values hold. -/
def pictures (n : Node) : Fields := [("icon", n.icon), ("img", n.image)]

/-- The properties of a node with plain values that are written if the values hold. -/
def placements (n : Node) : Fields := [("form", n.form), ("pos", n.labelPosition)]

/-- The properties of a node with plain values that are written if there are any. -/
def extents (n : Node) : Fields := [("w", n.width), ("h", n.height)]

/-- The properties of a node. -/
def nodeProperties (n : Node) : Except Error (List Text) := do
  let label ← quotedProperty "label" n.text
  let quoted ← ((pictures n).filter fun f => f.2.holds).mapM fun f => quotedProperty f.1 f.2
  let plain := (placements n).filter (fun f => f.2.holds) ++ setFields (extents n)
  let tooltip ← (if hasOwnTooltip n then [n.tooltip] else []).mapM (quotedProperty "tooltip")
  return [plainProperty "shape" n.shape.name, label] ++ quoted ++
    plain.map (fun f => plainProperty f.1 f.2.shown) ++ tooltip

/-- The declaration of a node: with properties if it needs any, as its id if that says all,
and otherwise with brackets. An id by itself is the value it is. -/
def declaration (n : Node) : Except Error Value := do
  if needsProperties n then return braced n.id.shown (← nodeProperties n)
  else if n.text = n.id && n.shape = .rect then return n.id
  else
    let text ← n.text.asText
    let b := n.shape.brackets?.getD ⟨[], [], n.shape⟩
    return n.id.shown ++ b.opening ++ writeBracketed n.shape text ++ b.closing

/-- The line that declares a node. -/
def node (n : Node) : Except Error Text := do (← declaration n).asText

/-- The line that opens a subgraph. -/
def subgraph (g : Subgraph) : Except Error Text := do
  if g.title = g.id then
    let id ← g.id.asWord
    return "subgraph ".toList ++ if Quoted.needed [] id then Quoted.inQuotes id else id
  else
    let id ← g.id.asText
    let title ← g.title.asText
    return "subgraph ".toList ++
      (if !isBareId id || Quoted.needed [] id then Quoted.inQuotes id else id) ++
      '[' :: Quoted.quote [] title ++ [']']

/-- Must the edge carry its id, so that other statements can name it? -/
def needsId (e : Edge) : Bool :=
  e.named.holds || e.animate.holds || e.animation.isSome || !e.classes.isEmpty

/-- The statement of an edge. -/
def edge (e : Edge) : Except Error Text := do
  let symbols ← e.operator
  let label ← if e.text.holds then e.text.asText.map fun t => '|' :: Quoted.label t ++ ['|']
    else .ok []
  let id := if needsId e then e.id.shown ++ ['@'] else []
  return e.source.shown ++ ' ' :: id ++ symbols ++ label ++ ' ' :: e.target.shown

/-- The properties of an edge that are set. -/
def edgeProperties (e : Edge) : List Text :=
  (if e.animate.holds then [plainProperty "animate" "true"] else []) ++
  (e.animation.ifHolds.map fun v => plainProperty "animation" v.shown).toList

/-- The statement for the properties of an edge, if it has any. -/
def edgeStatement? (e : Edge) : Option Text :=
  if (edgeProperties e).isEmpty then none else some (braced e.id.shown (edgeProperties e))

/-- The declarations of a style that are set, with a line width in pixels. -/
def declarations (fields : Fields) : List Text :=
  (setFields fields).map fun f =>
    f.1 ++ ':' :: f.2.shown ++ if f.1 = "stroke-width".toList then ['p', 'x'] else []

/-- The declarations of the style of a node. -/
def nodeStyle (s : NodeStyle) : List Text := declarations [
  ("fill", s.fill), ("stroke", s.stroke), ("stroke-width", s.strokeWidth), ("color", s.color)]

/-- The declarations of the style of an edge. -/
def edgeStyle (s : EdgeStyle) : List Text := declarations [
  ("stroke", s.stroke), ("stroke-width", s.strokeWidth)]

/-- A text in quotes with every double quote in it replaced. -/
def withoutQuotes (mark s : Text) : Text :=
  '"' :: s.flatMap (fun c => if c = '"' then mark else [c]) ++ ['"']

/-- A link of a node with its tooltip and its target. -/
def click (id link tooltip target : Value) : Except Error Text := do
  let link ← link.asWord
  let tooltip ← if tooltip.isSome then tooltip.asWord.map fun t => ' ' :: withoutQuotes "#quot;" t
    else .ok []
  let target := if target.holds then ' ' :: target.shown else []
  return "click ".toList ++ id.shown ++ ' ' :: withoutQuotes "%22" link ++ tooltip ++ target

/-- Refuses values if nothing can be looked up by one of them. -/
def checkIds (ids : List Value) : Except Error Unit :=
  ids.forM fun id => (fun _ => ()) <$> id.simple

end Writing

namespace Written

/-- The line of a statement, without its indentation. What an entity is in and what it
contains is looked up on the way. -/
def line : Written → Except Error Text
  | .declaration d => .ok ("flowchart ".toList ++ d.name)
  | .node n => do
    Writing.checkIds [n.parent]
    Writing.node n
  | .subgraph g => do
    Writing.checkIds [g.parent]
    let header ← Writing.subgraph g
    Writing.checkIds g.members
    return header
  | .direction d => .ok ("direction ".toList ++ d.name)
  | .close => .ok "end"
  | .edge e => Writing.edge e
  | .properties e => .ok (Writing.braced e.id.shown (Writing.edgeProperties e))
  | .define c => do
    return "classDef ".toList ++ c.1 ++ ' ' :: Text.join "," (← c.2.mapM Value.asText)
  | .assign ids name => do
    Writing.checkIds [name]
    return "class ".toList ++ Text.join "," (← ids.mapM Value.asText) ++ ' ' :: name.shown
  | .style id s =>
    .ok ("style ".toList ++ id.shown ++ ' ' :: Text.join "," (Writing.nodeStyle s))
  | .linkStyle place s =>
    .ok ("linkStyle ".toList ++ Text.ofNat place ++ ' ' :: Text.join "," (Writing.edgeStyle s))
  | .click id link tooltip target => Writing.click id link tooltip target

end Written

namespace Diagram

/-- Is the entity inside no subgraph of the diagram? -/
def isOutside (d : Diagram) (parent : Value) : Bool :=
  parent == .null || !d.hasSubgraph parent

/-- The nodes of a subgraph: first those that it lists, then any other that names it. -/
def nodesOf (d : Diagram) (g : Subgraph) : List Node :=
  g.members.filterMap (fun id => (d.node? id).filter fun n => n.parent == g.id) ++
  d.nodes.filter fun n => n.parent == g.id && !g.lists n.id

/-- The subgraphs directly inside a subgraph. -/
def childrenOf (d : Diagram) (id : Value) : List Subgraph :=
  d.subgraphs.filter fun g => g.parent == id

/-- A subgraph with all that it encloses, at a depth. The first number bounds how deep
subgraphs can enclose each other. -/
def blockOf (d : Diagram) : Nat → Nat → Subgraph → List (Nat × Written)
  | 0, _, _ => []
  | levels + 1, depth, g =>
    [(depth, .subgraph g)] ++ (g.direction.map fun dir => (depth + 1, .direction dir)).toList ++
    (d.nodesOf g).map (fun n => (depth + 1, .node n)) ++
    (d.childrenOf g.id).flatMap (d.blockOf levels (depth + 1)) ++
    [(depth, .close)]

/-- The subgraphs that no other one encloses, each with all that it encloses. One below the
other there are at most as many as there are. -/
def blocks (d : Diagram) : List (Nat × Written) :=
  (d.subgraphs.filter fun g => d.isOutside g.parent).flatMap (d.blockOf d.subgraphs.length 1)

/-- The class of every node and every edge that has one, with the id. -/
def classUses (d : Diagram) : List (Value × Value) :=
  d.nodes.flatMap (fun n => n.classes.map fun c => (c, n.id)) ++
  d.edges.flatMap (fun e => e.classes.map fun c => (c, e.id))

/-- The definitions of classes, and the classes with the ids that they are given to. -/
def classLines (d : Diagram) : List Written :=
  (d.classes.filter fun c => !c.2.isEmpty).map .define ++
  (d.classUses.map (·.1)).eraseDups.map fun c =>
    .assign ((d.classUses.filter fun u => u.1 == c).map (·.2)) c

/-- The styles of nodes and edges. -/
def styleLines (d : Diagram) : List Written :=
  d.nodes.filterMap (fun n =>
    (n.style.filter fun s => !s.isPlain).map fun s => .style n.id s) ++
  d.edges.zipIdx.filterMap fun (e, place) =>
    (e.style.filter fun s => !s.isPlain).map fun s => .linkStyle place s

/-- The links of nodes. -/
def clickLines (d : Diagram) : List Written :=
  d.nodes.filterMap fun n =>
    n.link.ifHolds.map fun l => .click n.id l n.tooltip n.linkTarget

/-- The statements of a diagram, each with its depth. -/
def layOut (layout : Layout) (d : Diagram) : List (Nat × Written) :=
  [(0, .declaration d.direction)] ++
  (d.nodes.filter fun n => d.isOutside n.parent).map (fun n => (1, .node n)) ++
  d.blocks ++
  d.edges.map (fun e => (1, .edge e)) ++
  (d.edges.filter fun e => !(Writing.edgeProperties e).isEmpty).map
    (fun e => (1, .properties e)) ++
  (if layout.classes then d.classLines.map fun w => (1, w) else []) ++
  (if layout.styles then d.styleLines.map fun w => (1, w) else []) ++
  d.clickLines.map fun w => (1, w)

/-- The diagram as text. -/
def write (layout : Layout) (d : Diagram) : Except Error Text := do
  let lines ← (d.layOut layout).mapM fun (depth, w) => do
    return (List.replicate depth layout.indent).flatten ++ (← w.line) ++ ['\n']
  return lines.flatten

end Diagram
end Flowchart
