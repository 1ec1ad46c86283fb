import Flowchart.Operator
import Flowchart.Text.Alphanumeric
import Flowchart.Text.Run

/-! Links in a line: the operators between node texts. A line is split where an operator
stands outside brackets and quotes. An operator with a label inside is looked for first,
since its opening run alone would be an operator too. -/
namespace Flowchart

/-- A link as it stands in a line: its operator, a label between pipes, and an id before an
at sign. -/
structure Link where
  symbols : Text
  label : Option Text
  id : Option Text
  deriving DecidableEq, Repr

namespace Link

/-- What of `s` precedes its end `rest`. -/
def taken (s rest : Text) : Text := s.take (s.length - rest.length)

/-- What follows a mark that must stand here: an arrow, a circle or a cross. -/
def afterMark? : Text → Option Text
  | '>' :: s | 'o' :: s | 'x' :: s => some s
  | _ => none

/-- What follows the closing part of an operator with a label, which begins with a blank.
A run of one character is longer if no mark follows it. -/
def afterClosing? (stroke : Stroke) (s : Text) : Option Text := do
  let s ← Text.afterBlanks? s
  let run := s.takeWhile (· == stroke.char)
  let rest := s.dropWhile (· == stroke.char)
  match stroke with
  | .dotted =>
    if run.isEmpty then none
    else do
      let rest ← Text.after? ['-'] rest
      return (afterMark? rest).getD rest
  | _ =>
    if run.length < 2 then none
    else match afterMark? rest with
      | some r => some r
      | none => if 3 ≤ run.length then some rest else none

/-- What follows the nearest closing part. A quoted span is passed as a whole, where a quote
without a second one spans nothing; the flag says whether this place is inside a span. -/
def afterLabel? (stroke : Stroke) : Bool → Text → Option Text
  | _, [] => none
  | true, c :: s => afterLabel? stroke (c != '"') s
  | false, c :: s =>
    (afterClosing? stroke (c :: s)).orElse fun _ =>
      afterLabel? stroke (c == '"' && s.contains '"') s

/-- The run that opens an operator with a label. -/
def opening : Stroke → Text
  | .thick => "=="
  | .dotted => "-."
  | _ => "--"

/-- What follows an operator with a label of this stroke. The label begins after blanks and
has one character at least. -/
def afterLabelled? (stroke : Stroke) (s : Text) : Option Text := do
  let r := (Text.after? ['<'] s).getD s
  let inner ← Text.afterBlanks? (← Text.after? (opening stroke) r)
  match inner with
  | [] => none
  | c :: t => afterLabel? stroke (c == '"' && t.contains '"') t

/-- An operator with a label here, and what follows it. Only operators that can be read
count. -/
def labelledAt? (s : Text) : Option (Link × Text) :=
  [Stroke.thick, .dotted, .normal].findSome? fun stroke => do
    let rest ← afterLabelled? stroke s
    let symbols := taken s rest
    if (Operator.read? symbols).isSome then some (⟨symbols, none, none⟩, rest) else none

/-- What follows the mark of a tip at the source. A letter counts only after a blank, an at
sign or nothing. -/
def afterSourceMark (before : Option Char) (s : Text) : Text :=
  match s with
  | '<' :: r => r
  | c :: r =>
    if (c == 'o' || c == 'x') && before.all fun b => isBlank b || b == '@' then r else c :: r
  | [] => []

/-- What follows the mark of a tip at the target, if there is one. A letter counts only
before a blank, a pipe or nothing. -/
def afterTargetMark (s : Text) : Text :=
  match s with
  | '>' :: r => r
  | c :: r =>
    if (c == 'o' || c == 'x') && r.head?.all fun d => isBlank d || d == '|' then r else c :: r
  | [] => []

/-- What follows the run that draws a stroke. -/
def afterStroke? (s : Text) : Option Text :=
  match s with
  | '=' :: '=' :: r => some (r.dropWhile (· == '='))
  | '-' :: '.' :: r => Text.after? ['-'] (r.dropWhile (· == '.'))
  | '-' :: '-' :: r => some (r.dropWhile (· == '-'))
  | _ => none

/-- What follows an operator without a label inside. -/
def afterPlain? (before : Option Char) (s : Text) : Option Text :=
  match s with
  | '~' :: '~' :: '~' :: r => some (r.dropWhile (· == '~'))
  | s => (afterStroke? (afterSourceMark before s)).map afterTargetMark

/-- The label between pipes after an operator, and what follows it. -/
def pipedLabel (s : Text) : Option Text × Text :=
  match s.dropWhile fun c => c == ' ' || c == '\t' with
  | '|' :: r =>
    match r.dropWhile (· != '|') with
    | _ :: rest => (some (r.takeWhile (· != '|')), rest)
    | [] => (none, s)
  | _ => (none, s)

/-- An operator without a label inside, with the id that was read before it. -/
def plainFrom? (id : Option Text) (before : Option Char) (s : Text) : Option (Link × Text) := do
  let rest ← afterPlain? before s
  let (label, after) := pipedLabel rest
  return (⟨taken s rest, label, id⟩, after)

/-- An id with an at sign here, after a blank or nothing, and what follows it. -/
def idAt? (before : Option Char) (s : Text) : Option (Text × Text) :=
  let id := s.takeWhile isWordOrHyphen
  if id.isEmpty || before.any fun b => !isBlank b then none
  else (Text.after? ['@'] (s.dropWhile isWordOrHyphen)).map fun r => (id, r)

/-- An operator without a label inside, with an id or none, and what follows it. -/
def plainAt? (before : Option Char) (s : Text) : Option (Link × Text) :=
  (do let (id, r) ← idAt? before s; plainFrom? (some id) (some '@') r).orElse fun _ =>
    plainFrom? none before s

/-- The link that begins exactly here, after the character `before`, and what follows it. -/
def at? (before : Option Char) (s : Text) : Option (Link × Text) :=
  (labelledAt? s).orElse fun _ => plainAt? before s

/-- The link that begins exactly at a place in a line, and what follows it. A place before
the line counts as its beginning. -/
def atPlace? (line : Text) (place : Int) : Except Error (Option (Link × Text)) := do
  checkCount place
  return at? (line.take place.toNat).getLast? (line.drop place.toNat)

end Link

/-- A line split at its links: a node text, and each link with the node text after it. -/
structure Chain where
  head : Text
  tail : List (Link × Text)
  deriving DecidableEq, Repr

namespace Chain

/-- The node texts of a chain, in order. -/
def texts (c : Chain) : List Text := c.head :: c.tail.map (·.2)

/-- The links of a chain, in order. -/
def links (c : Chain) : List Link := c.tail.map (·.1)

/-- The depth of brackets after a character. -/
def depthAfter (depth : Nat) (c : Char) : Nat :=
  if c == '(' || c == '[' || c == '\x7b' then depth + 1
  else if c == ')' || c == ']' || c == '\x7d' then depth - 1
  else depth

/-- The chain from a place in a line: the character before it, the node text so far
backwards, the depth of brackets, whether the place is inside quotes, and how many
characters still belong to a link that was already read. -/
def scan (before : Option Char) (text : Text) (depth : Nat) (quoted : Bool) (skip : Nat) :
    Text → Chain
  | [] => ⟨Text.trim text.reverse, []⟩
  | c :: s =>
    match skip with
    | skip + 1 => scan (some c) text depth quoted skip s
    | 0 =>
      if quoted then scan (some c) (c :: text) depth (c != '"') 0 s
      else if c = '"' then scan (some c) (c :: text) depth true 0 s
      else match if depth = 0 then Link.at? before (c :: s) else none with
        | some (link, rest) =>
          let next := scan (some c) [] 0 false (s.length - rest.length) s
          ⟨Text.trim text.reverse, (link, next.head) :: next.tail⟩
        | none =>
          -- An angle bracket directly after a word opens a shape.
          let opens := depth == 0 && c == '>' && text.head?.any isWord
          scan (some c) (c :: text) (if opens then 1 else depthAfter depth c) false 0 s

/-- A line split at its links. -/
def ofLine (line : Text) : Chain := scan none [] 0 false 0 line

end Chain

/-- The pieces of a node text between ampersands, from a place at a depth of brackets and
inside quotes or not. -/
def groupFrom (depth : Nat) (quoted : Bool) : Text → List Text
  | [] => [[]]
  | c :: s =>
    if c = '&' && depth = 0 && !quoted then [] :: groupFrom 0 false s
    else
      let depth := if quoted || c == '"' then depth else Chain.depthAfter depth c
      match groupFrom depth (quoted != (c == '"')) s with
      | [] => [[c]]
      | p :: ps => (c :: p) :: ps

/-- The nodes of a node text: the pieces between the ampersands outside brackets and
quotes. -/
def group (text : Text) : List Text :=
  ((groupFrom 0 false text).map Text.trim).filter fun p => !p.isEmpty

end Flowchart
