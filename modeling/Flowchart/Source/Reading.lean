import Flowchart.Diagram
import Flowchart.Edge.Id
import Flowchart.Note
import Flowchart.Shape.Bracketed
import Flowchart.Source.Kind
import Flowchart.Source.Link
import Flowchart.Source.Statement

/-! Reading a flowchart. Statements are taken in line by line into what has been read so far:
a diagram, the subgraphs that are open, and notes. A line that fits no form is passed over.
Reading stops only at a number that cannot be one, such as the code of a character beyond
the last. -/
namespace Flowchart

/-- What has been read so far. The innermost open subgraph is first. -/
structure Reading where
  diagram : Diagram := {}
  opened : List Text := []
  notes : List Note := []
  deriving DecidableEq, Repr

namespace Reading

/-- The reading with one more note. -/
def note (r : Reading) (n : Note) : Reading := { r with notes := r.notes ++ [n] }

/-- The reading with a node set. -/
def putNode (r : Reading) (n : Node) : Reading :=
  { r with diagram.nodes := Keyed.put n r.diagram.nodes }

/-- The reading with an edge set. -/
def putEdge (r : Reading) (e : Edge) : Reading :=
  { r with diagram.edges := Keyed.put e r.diagram.edges }

/-- The reading with a subgraph set. -/
def putSubgraph (r : Reading) (g : Subgraph) : Reading :=
  { r with diagram.subgraphs := Keyed.put g r.diagram.subgraphs }

/-- The classes with further ones that they do not hold yet. -/
def addClasses (more : List Text) (classes : List Value) : List Value :=
  (more.map .text).foldl (fun cs c => if c ∈ cs then cs else cs ++ [c]) classes

/-- The nonempty pieces between commas. -/
def names (s : Text) : List Text := (Text.pieces ',' s).filter fun n => !n.isEmpty

/-- The node joins the innermost open subgraph, unless it is in one already. -/
def join (r : Reading) (n : Node) : Reading × Node :=
  match r.opened.head?, n.parent with
  | some id, .null =>
    let r := match r.diagram.subgraph? id with
      | some g => r.putSubgraph (g.enlist n.id)
      | none => r
    (r, { n with parent := id })
  | _, _ => (r, n)

/-- A node is met. Where it is new, it is as it is met here; a later meeting may change its
text, unless it only repeats the id, and its shape, unless that is a rectangle. -/
def meet (r : Reading) (id : Text) (text : Option Text) (shape : Option Shape) : Reading :=
  let n : Node := match r.diagram.node? id with
    | none =>
      let shape := shape.getD .rect
      { id, text := text.getD id
        shape := if shape.name.isEmpty then .rect else shape }
    | some n =>
      { n with
        text := match text with
          | some t => if t = id then n.text else .text t
          | none => n.text
        shape := match shape with
          | some s => if s = .rect then n.shape else s
          | none => n.shape }
  let (r, n) := r.join n
  r.putNode n

/-- The property with a key, if it is set to anything. -/
def property? (properties : List (Text × Text)) (key : Text) : Option Text :=
  ((Keyed.find? key properties).map (·.2)).filter fun v => !v.isEmpty

/-- What a text says, or else what was there before. -/
def textOr (t : Option Text) (before : Value) : Value := (t.map .text).getD before

/-- The first integer in a text, or null if the text holds none; without a text, what was
there before. -/
def integerOr (t : Option Text) (before : Value) : Except Error Value :=
  match t with
  | some t => (Statement.firstInt? t).map .ofInt?
  | none => .ok before

/-- A node with its further properties. -/
def withProperties (n : Node) (properties : List (Text × Text)) : Except Error Node := do
  let get := property? properties
  return { n with
    icon := textOr (get "icon") n.icon
    image := textOr (get "img") n.image
    form := textOr (get "form") n.form
    labelPosition := textOr (get "pos") n.labelPosition
    tooltip := textOr (get "tooltip") n.tooltip
    width := ← integerOr (get "w") n.width
    height := ← integerOr (get "h") n.height }

/-- May the character be part of an id before properties? -/
def isPropertiedChar (c : Char) : Bool :=
  !isBlank c && c ∉ ("@[]()\x7b\x7d" : String).toList

/-- An id with properties in braces after an at sign. -/
def propertied? (s : Text) : Option (Text × Text) := do
  let id := s.takeWhile isPropertiedChar
  let body ← Statement.braced? (s.dropWhile isPropertiedChar)
  if id.isEmpty then none else some (id, body)

/-- A node without its classes is met: with properties, with brackets, or as an id alone.
The answer is its id, or nothing if the text is no node. -/
def meetNode (r : Reading) (s : Text) : Except Error (Option Text × Reading) :=
  match propertied? s with
  | some (id, body) => do
    let properties ← Quoted.properties body
    let label := (Keyed.find? "label".toList properties).map (·.2)
    let shape := (property? properties "shape").map Shape.resolve
    let r := r.meet id label shape
    match r.diagram.node? id with
    | some n => return (some id, r.putNode (← withProperties n properties))
    | none => return (some id, r)
  | none => match readBracketed? s with
    | some (id, text, shape) => do
      let text ← Quoted.unquote text
      return (some id, r.meet id (some text) (some shape))
    | none =>
      if isBareId s then .ok (some s, r.meet s none none) else .ok (none, r)

/-- The class names between commas, if none of them is empty and all are names. -/
def classList? (s : Text) : Option (List Text) :=
  let classes := Text.pieces ',' s
  if classes.all fun c => !c.isEmpty && c.all isWordOrHyphen then some classes else none

/-- Classes at the end of a node text, `:::a,b`: what precedes them, and the classes. Names
hold no colon, so the last colon of the text belongs to the mark before them. -/
def classSuffix? (s : Text) : Option (Text × List Text) := do
  let names := (s.reverse.takeWhile (· != ':')).reverse
  let before ← Text.before? ":::" (s.take (s.length - names.length))
  return (before, ← classList? names)

/-- A node text without the classes at its end, and these classes. Every suffix takes away
some characters, so the length bounds their number. -/
def takeClasses : Nat → Text → Text × List Text
  | 0, s => (s, [])
  | more + 1, s =>
    match classSuffix? s with
    | none => (s, [])
    | some (before, classes) =>
      let (text, further) := takeClasses more before
      (text, further ++ classes)

/-- A node is met, with classes or without. -/
def meetPiece (r : Reading) (piece : Text) : Except Error (Option Text × Reading) := do
  let (text, classes) := takeClasses piece.length piece
  let (id, r) ← r.meetNode text.trim
  match id.bind fun id => r.diagram.node? id with
  | some n => return (id, r.putNode { n with classes := addClasses classes n.classes })
  | none => return (id, r)

/-- The pieces of a node text are met, in order. Pieces that are no node are left out. -/
def meetPieces (r : Reading) : List Text → Except Error (List Text × Reading)
  | [] => .ok ([], r)
  | piece :: pieces => do
    let (id, r) ← r.meetPiece piece
    let (ids, r) ← r.meetPieces pieces
    return (id.toList ++ ids, r)

/-- The node texts of a chain are met, in order. At a text without any node the line is
given up; what was met before stays. -/
def meetTexts (r : Reading) (line : Text) :
    List Text → Except Error (Option (List (List Text)) × Reading)
  | [] => .ok (some [], r)
  | text :: texts => do
    let (ids, r) ← r.meetPieces (group text)
    if ids.isEmpty then return (none, r.note (.unreadableNode text line))
    let (groups, r) ← r.meetTexts line texts
    return (groups.map (ids :: ·), r)

/-- The label of a link: between pipes, or inside the operator. A blank one is none. -/
def linkLabel (link : Link) (op : Operator) : Except Error (Option Text) :=
  match link.label.or op.label with
  | none => .ok none
  | some label => do
    let text ← Quoted.unquote label
    return if text.isEmpty then none else some text

/-- An edge is drawn. Its id is the author's or the hash of its content, made distinct from
those before. -/
def draw (r : Reading) (link : Link) (op : Operator) (source target : Text) :
    Except Error Reading := do
  let text ← linkLabel link op
  let author := link.id.filter fun id => !id.isEmpty
  let wanted := author.getD
    (EdgeId.ofContent source target op.symbols text op.stroke op.source op.target)
  let id := EdgeId.distinct wanted r.diagram.edgeIds
  let r := if id = wanted then r else r.note (.renamedEdge wanted id)
  return r.putEdge {
    id, source, target, text := .ofText? text, stroke := op.stroke, sourceTip := op.source
    targetTip := op.target, length := .number (.int op.length), named := .bool author.isSome }

/-- The edges of a chain are drawn: for each link, from every node before it to every node
after it. -/
def drawLinks (r : Reading) : List Link → List (List Text) → Except Error Reading
  | link :: links, sources :: targets :: groups => do
    let r ← match Operator.read? link.symbols with
      | none => .ok (r.note (.unknownOperator link.symbols))
      | some op =>
        (sources.flatMap fun s => targets.map fun t => (s, t)).foldlM
          (fun r (s, t) => r.draw link op s t) r
    r.drawLinks links (targets :: groups)
  | _, _ => .ok r

/-- A chain is read. -/
def readChain (r : Reading) (line : Text) : Except Error Reading := do
  let chain := Chain.ofLine line
  match ← r.meetTexts line chain.texts with
  | (none, r) => return r
  | (some groups, r) => r.drawLinks chain.links groups

/-- An edge with the properties of a body. -/
def withEdgeProperties (e : Edge) (body : Text) : Except Error Edge := do
  let properties ← Quoted.properties body
  let get key := (Keyed.find? key properties).map (·.2)
  return { e with
    animate := match get "animate" with
      | some v => .bool (v.lower = "true".toList)
      | none => e.animate
    animation := match get "animation" with
      | some v => if v.isEmpty then .null else .text v
      | none => e.animation }

/-- A node with the declarations of a style. A style that leaves everything open is none. -/
def withStyle (n : Node) (declared : List (Text × Text)) : Except Error Node := do
  let get key := (Keyed.find? key declared).map (·.2)
  let old := n.style.getD .plain
  let style : NodeStyle := {
    fill := textOr (get "fill") old.fill
    stroke := textOr (get "stroke") old.stroke
    strokeWidth := ← integerOr (get "stroke-width") old.strokeWidth
    color := textOr (get "color") old.color }
  return { n with style := if style.isPlain then none else some style }

/-- An edge with the declarations of a style. -/
def withEdgeStyle (declared : List (Text × Text)) (e : Edge) : Except Error Edge := do
  let get key := (Keyed.find? key declared).map (·.2)
  let old := e.style.getD .plain
  let style : EdgeStyle := {
    stroke := textOr (get "stroke") old.stroke
    strokeWidth := ← integerOr (get "stroke-width") old.strokeWidth }
  return { e with style := if style.isPlain then none else some style }

/-- The subgraph is opened, and is new if its id is. -/
def openSubgraph (r : Reading) (header : Text) : Except Error Reading := do
  let (id, title) ← Statement.subgraphHeader header r.diagram.subgraphs.length
  let r := if r.diagram.hasSubgraph id then r
    else r.putSubgraph { id, title, parent := .ofText? r.opened.head? }
  return { r with opened := id :: r.opened }

/-- The direction of the innermost open subgraph or, outside, of the diagram. -/
def setDirection (r : Reading) (word : Text) : Reading :=
  match Direction.ofToken? word with
  | none => r.note (.unknownDirection word)
  | some direction => match r.opened.head? with
    | none => { r with diagram.direction := direction }
    | some id => match r.diagram.subgraph? id with
      | some g => r.putSubgraph { g with direction := some direction }
      | none => r

/-- Classes are defined. All names of a definition get the same declarations. -/
def define (r : Reading) (classNames styles : Text) : Reading :=
  let declared := ((Text.pieces ',' (Text.dropTrailing (· == ';') styles)).map Text.trim).filter
    fun s => !s.isEmpty
  let classes := (names classNames).foldl (fun cs n => Keyed.put (n, declared.map .text) cs)
    r.diagram.classes
  { r with diagram.classes := classes }

/-- Classes are given to a node or, where there is no such node, to an edge. -/
def assign (classes : List Text) (r : Reading) (id : Text) : Reading :=
  match r.diagram.node? id, r.diagram.edge? id with
  | some n, _ => r.putNode { n with classes := addClasses classes n.classes }
  | none, some e => r.putEdge { e with classes := addClasses classes e.classes }
  | none, none => r.note (.classesOfNothing id)

/-- The places in a list. Not every blank may stand around a numeral. -/
def placesOf (list : Text) : Except Error (List Nat) :=
  (Text.pieces ',' list).mapM fun place => match place.trimNumeral.toNat? with
    | some n => .ok n
    | none => .error .badNumeral

/-- A style is given to the edges at some places. Places beyond the last edge do not
count. -/
def styleLinks (r : Reading) (places : Option Text) (declared : List (Text × Text)) :
    Except Error Reading := do
  let edges := r.diagram.edges
  let targets ← match places with
    | none => .ok (List.range edges.length)
    | some list => placesOf list
  let styled ← targets.foldlM (fun es i => match es[i]? with
    | some e => do return es.set i (← withEdgeStyle declared e)
    | none => .ok es) edges
  return { r with diagram.edges := styled }

/-- A statement is read. -/
def read (r : Reading) : Statement → Except Error Reading
  | .close => .ok <| match r.opened with
    | [] => r.note .unmatchedEnd
    | _ :: outer => { r with opened := outer }
  | .subgraph header => r.openSubgraph header
  | .direction word => .ok (r.setDirection word)
  | .define names styles => .ok (r.define names styles)
  | .assign ids classes =>
    .ok (((Text.pieces ',' ids).map Text.trim).foldl (assign (names classes)) r)
  | .style id declarations =>
    match r.diagram.node? id with
    | none => .ok (r.note (.styleOfNothing id))
    | some n => (withStyle n (Statement.declarations declarations)).map r.putNode
  | .linkStyle places declarations => r.styleLinks places (Statement.declarations declarations)
  | .click id url tooltip target =>
    match r.diagram.node? id with
    | none => .ok (r.note (.clickOfNothing id))
    | some n => do
      let tooltip ← match tooltip with
        | some t => (Entity.decode t).map .text
        | none => .ok n.tooltip
      return r.putNode { n with link := url, tooltip, linkTarget := textOr target n.linkTarget }
  | .properties id body line =>
    match r.diagram.edge? id with
    | some e => (withEdgeProperties e body).map r.putEdge
    | none => r.readChain line
  | .chain line => r.readChain line

/-- A line without the semicolons and blanks at its end. -/
def strip (line : Text) : Text := Text.trim (Text.dropTrailing (· == ';') line)

/-- The lines of the body, after the first declaration if there is one. The declaration sets
the direction, the lines before it are passed over, and a statement on its line belongs to
the body. -/
def begin (lines : List Text) : Reading × List Text :=
  let (before, rest) := lines.span fun l => (Source.declaration? l).isNone
  match rest with
  | [] => ({}, lines)
  | line :: body => match Source.declaration? line with
    | none => ({}, lines)
    | some (word, more) =>
      ({ diagram.direction := (word.bind Direction.ofToken?).getD .tb
         notes := before.map .beforeDeclaration },
       strip more.trim :: body)

/-- The statements of lines are read one after another. Empty lines do not count. -/
def readLines (r : Reading) (lines : List Text) : Except Error Reading :=
  (lines.filter fun l => !l.isEmpty).foldlM (fun r l => r.read (.ofLine l)) r

/-- A source text is read as a flowchart. -/
def ofSource (s : Text) : Except Error Reading := do
  let (r, lines) := begin ((Source.meaningful s).map strip)
  let r ← r.readLines lines
  return { r with diagram := r.diagram.settle }

end Reading

/-- A source text is read. A diagram of another kind is refused if `strict` is set, and
otherwise is read as an empty flowchart. -/
def Reading.ofText (strict : Bool) (s : Text) : Except Error Reading :=
  let kind := DiagramKind.detect s
  if kind.isEditable || kind = .unknown then Reading.ofSource s
  else if strict then .error (.unsupported kind.name)
  else .ok { notes := [.notEditable kind.title] }

/-- The diagram that a source text describes. -/
def Diagram.read (s : Text) : Except Error Diagram := (Reading.ofText false s).map (·.diagram)

end Flowchart
