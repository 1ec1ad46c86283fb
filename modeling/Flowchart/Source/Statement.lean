import Flowchart.Text.Digit
import Flowchart.Text.Quoted
import Flowchart.Direction

/-! Statements. A line is a statement of the first form that it fits; a line of no other form
is a chain of nodes and links. Forms begin with a keyword of their own, so at most one of
them fits, except that a line for the properties of an edge may also be a chain. -/
namespace Flowchart

/-- A line of the notation, as far as it can be understood without the lines before it. -/
inductive Statement where
  /-- Closes the innermost subgraph. -/
  | close
  /-- Opens a subgraph; the rest of the line says which. -/
  | subgraph (header : Text)
  /-- Sets the direction. -/
  | direction (word : Text)
  /-- Defines classes by declarations. -/
  | define (names styles : Text)
  /-- Gives classes to nodes or edges. -/
  | assign (ids classes : Text)
  /-- Gives a style to a node. -/
  | style (id declarations : Text)
  /-- Gives a style to the edges at the places in a list, or to all. -/
  | linkStyle (places : Option Text) (declarations : Text)
  /-- Gives a link to a node, with a tooltip and a target or without. -/
  | click (id url : Text) (tooltip target : Option Text)
  /-- Sets properties of an edge, if there is an edge with the id. -/
  | properties (id body line : Text)
  /-- Nodes and links. -/
  | chain (line : Text)
  deriving DecidableEq, Repr

/-- The declaration of a flowchart, if the line is one: the word for the direction, and a
statement that shares the line. -/
def Source.declaration? (line : Text) : Option (Option Text × Text) := do
  -- The sign for kelvin is a form of the letter k.
  let folded := line.map fun c => if c = '\u212a' then 'k' else c.toLower
  let keyword ← ["flowchart-elk".toList, "graph-elk", "flowchart", "graph"].find? fun k =>
    k.isPrefixOf folded
  let r : Text := line.drop keyword.length
  let word := r.trimStart.takeWhile isWord
  let (direction, rest) : Option Text × Text :=
    if (Text.afterBlanks? r).isSome && !word.isEmpty
    then (some word, r.trimStart.dropWhile isWord) else (none, r)
  match rest.trimStart with
  | [] => some (direction, [])
  | ';' :: rest => some (direction, rest)
  | _ => none

namespace Statement

/-- What follows a keyword and at least one blank. -/
def afterKeyword? (keyword line : Text) : Option Text := do
  Text.afterBlanks? (← Text.after? keyword line)

/-- A word, and what follows it after at least one blank. -/
def wordAndRest? (s : Text) : Option (Text × Text) := do
  let (word, r) := Text.word s
  let rest ← Text.afterBlanks? r
  if word.isEmpty || rest.isEmpty then none else some (word, rest)

/-- A subgraph opens with its keyword alone or with more after a blank. -/
def subgraph? (line : Text) : Option Statement := do
  let r ← Text.after? "subgraph" line
  if r.isEmpty then some (.subgraph [])
  else (Text.afterBlanks? r).map .subgraph

/-- A direction is one word. -/
def direction? (line : Text) : Option Statement := do
  let word ← afterKeyword? "direction" line
  if !word.isEmpty && word.all isWord then some (.direction word) else none

/-- A definition names classes and then says their styles. -/
def define? (line : Text) : Option Statement := do
  let (names, styles) ← wordAndRest? (← afterKeyword? "classDef" line)
  return .define names styles

/-- An assignment ends with a word for the classes. The ids before it may be blank only if
three blanks make room for them. -/
def assign? (line : Text) : Option Statement := do
  let r ← Text.after? "class" line
  let classes := (r.reverse.takeWhile fun c => !isBlank c).reverse
  let between : Text := r.take (r.length - classes.length)
  if !between.head?.any isBlank || !between.getLast?.any isBlank then none
  else if classes.isEmpty || (between.all isBlank && between.length < 3) then none
  else some (.assign between.trim classes)

/-- A style names a node and then says its declarations. -/
def style? (line : Text) : Option Statement := do
  let (id, declarations) ← wordAndRest? (← afterKeyword? "style" line)
  return .style id declarations

/-- A further place in a list of places: a comma and a numeral, with blanks around the
comma or without. The answer is all of this, and what follows it. -/
def nextPlace? (s : Text) : Option (Text × Text) := do
  let r ← (Text.after? [','] s.trimStart).map Text.trimStart
  let rest := r.dropWhile isDecimal
  if rest.length = r.length then none else some (s.take (s.length - rest.length), rest)

/-- The ways to read a list of places that has begun, the longest first: the list as it
stands there, and what follows it. The first number bounds how many places are looked for. -/
def placesFrom : Nat → Text → Text → List (Text × Text)
  | 0, found, s => [(found, s)]
  | more + 1, found, s =>
    match nextPlace? s with
    | none => [(found, s)]
    | some (place, r) => placesFrom more (found ++ place) r ++ [(found, s)]

/-- A style of edges names all edges or some places, and then says its declarations. -/
def linkStyle? (line : Text) : Option Statement := do
  let r ← afterKeyword? "linkStyle" line
  match (Text.after? "default" r).bind Text.afterBlanks? with
  | some declarations => if declarations.isEmpty then none else some (.linkStyle none declarations)
  | none =>
    let first := r.takeWhile isDecimal
    if first.isEmpty then none
    else (placesFrom r.length first (r.dropWhile isDecimal)).findSome? fun (places, rest) => do
      let declarations ← Text.afterBlanks? rest
      if declarations.isEmpty then none else some (.linkStyle (some places) declarations)

/-- A text between double quotes here, and what follows it. -/
def quoted? (s : Text) : Option (Text × Text) := do
  let r ← Text.after? ['"'] s
  match r.dropWhile (· != '"') with
  | [] => none
  | _ :: rest => some (r.takeWhile (· != '"'), rest)

/-- The targets that a link may ask for. -/
def linkTargets : List Text := ["_self", "_blank", "_parent", "_top"]

/-- A click names a node, then a link in quotes, then a tooltip in quotes and a target,
each of which may be left out. -/
def click? (line : Text) : Option Statement := do
  let (id, r) ← wordAndRest? (← afterKeyword? "click" line)
  let r := ((Text.after? "href" r).bind Text.afterBlanks?).getD r
  let (url, r) ← quoted? r
  let (tooltip, r) := match (Text.afterBlanks? r).bind quoted? with
    | some (t, r) => (some t, r)
    | none => (none, r)
  if r.isEmpty then some (.click id url tooltip none)
  else
    let target ← Text.afterBlanks? r
    if linkTargets.contains target then some (.click id url tooltip (some target)) else none

/-- A body in braces after an at sign, which ends the text. -/
def braced? (s : Text) : Option Text := do
  Text.beforeFinal? ['\x7d'] (← Text.after? ['@', '\x7b'] s)

/-- The id of an edge and the body of its properties. -/
def properties? (line : Text) : Option (Text × Text) := do
  let id := line.takeWhile isWordOrHyphen
  let body ← braced? (line.dropWhile isWordOrHyphen)
  if id.isEmpty then none else some (id, body)

/-- The forms that begin with a keyword. -/
def forms : List (Text → Option Statement) :=
  [subgraph?, direction?, define?, assign?, style?, linkStyle?, click?]

/-- The statement of a line. -/
def ofLine (line : Text) : Statement :=
  if line = "end".toList then .close
  else match forms.findSome? fun form => form line with
    | some statement => statement
    | none => match properties? line with
      | some (id, body) => .properties id body line
      | none => .chain line

/-- The declarations of a style, `name: value, …`. Semicolons at the end do not count, and a
name that comes again keeps its place and takes the later value. -/
def declarations (s : Text) : List (Text × Text) :=
  (Text.pieces ',' (Text.dropTrailing (· == ';') s)).foldl declare []
where
  declare (found : List (Text × Text)) (piece : Text) : List (Text × Text) :=
    match Text.halves? ':' piece with
    | none => found
    | some (name, value) =>
      if (Text.trim name).isEmpty then found else Keyed.put (Text.trim name, Text.trim value) found

/-- The first integer in a text, or nothing if there is none. -/
def firstInt? (s : Text) : Except Error (Option Int) :=
  match Text.firstNumeral? s with
  | none => .ok none
  | some (negative, digits) => match digits.toNat? with
    | none => .error .badNumeral
    | some n => .ok (some (if negative then -n else n))

/-- The id and the title of a subgraph by what follows its keyword. A subgraph without
anything there is numbered by the subgraphs before it. -/
def subgraphHeader (header : Text) (before : Nat) : Except Error (Text × Text) := do
  let h := header.trim
  if h.isEmpty then
    let id := "subGraph".toList ++ Text.ofNat before
    return (id, id)
  match titled? h with
  | some (isQuoted, id, title) =>
    let id ← if isQuoted then Entity.decode id else .ok id
    let title ← Quoted.unquote title
    return (id, if title.isEmpty then id else title)
  | none =>
    if h.head?.any fun c => c == '"' || c == '\x60' then
      let title ← Quoted.unquote h
      return (title, title)
    else return (h, h)
where
  /-- An id, quoted or not, and a title in square brackets. -/
  titled? (h : Text) : Option (Bool × Text × Text) :=
    match quoted? h with
    | some (id, r) => (bracketed? r).map fun title => (true, id, title)
    | none =>
      let isPlain (c : Char) : Bool := !isBlank c && c != '[' && c != ']' && c != '"'
      let id := h.takeWhile isPlain
      if id.isEmpty then none
      else (bracketed? (h.dropWhile isPlain)).map fun title => (false, id, title)
  /-- What stands in square brackets, after blanks or none. -/
  bracketed? (r : Text) : Option Text := do
    Text.before? [']'] (← Text.after? ['['] r.trimStart)

end Statement
end Flowchart
