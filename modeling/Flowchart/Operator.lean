import Flowchart.Text.Blank
import Flowchart.Text.Run

/-! The operator of an edge: `-->`, `<==>`, `-.-x`, `~~~`. Its stroke is drawn by a run of one
character, its ends by a mark or none, and a longer run makes a longer edge. A label may
stand inside the operator between blanks, `-- yes -->`; reading takes it out and gives the
operator that is left. -/
namespace Flowchart

/-- How the line of an edge is drawn. -/
inductive Stroke where
  | normal | thick | dotted | invisible
  deriving DecidableEq, Repr

/-- What an edge carries at one of its ends. -/
inductive Tip where
  | arrow | circle | cross | none
  deriving DecidableEq, Repr

namespace Stroke

/-- The name of a stroke. -/
def name : Stroke → Text
  | .normal => "normal"
  | .thick => "thick"
  | .dotted => "dotted"
  | .invisible => "invisible"

/-- All strokes. -/
def all : List Stroke := [.normal, .thick, .dotted, .invisible]

/-- The stroke with this name. -/
def ofName? (s : Text) : Option Stroke := all.find? fun k => k.name == s

/-- The character whose run draws the stroke and shows the length. -/
def char : Stroke → Char
  | .normal => '-'
  | .thick => '='
  | .dotted => '.'
  | .invisible => '~'

end Stroke

namespace Tip

/-- The name of a tip. -/
def name : Tip → Text
  | .arrow => "arrow"
  | .circle => "circle"
  | .cross => "cross"
  | .none => "none"

/-- All tips, in the order in which marks are tried. -/
def all : List Tip := [.arrow, .circle, .cross, .none]

/-- The tip with this name. -/
def ofName? (s : Text) : Option Tip := all.find? fun k => k.name == s

/-- The mark of a tip at the start of an operator. -/
def startMark : Tip → Text
  | .arrow => ['<']
  | .circle => ['o']
  | .cross => ['x']
  | .none => []

/-- The mark of a tip at the end of an operator. -/
def endMark : Tip → Text
  | .arrow => ['>']
  | .circle => ['o']
  | .cross => ['x']
  | .none => []

end Tip

/-- An operator as it is read: the operator without its label, what it says, and the label,
which is absent if the operator has no place for one. -/
structure Operator where
  symbols : Text
  stroke : Stroke
  source : Tip
  target : Tip
  label : Option Text
  length : Nat
  deriving DecidableEq, Repr

namespace Operator

/-- How often an operator repeats the character of its stroke. Lengths below one count as
one. -/
def repeats (stroke : Stroke) (target : Tip) (length : Int) : Int :=
  let n := max 1 length
  match stroke with
  | .invisible => n + 2
  | .dotted => n
  | _ => if target = .none then n + 2 else n + 1

/-- The operator of an edge. An invisible edge has no tips. -/
def write (stroke : Stroke) (source target : Tip) (length : Int) : Text :=
  let run := List.replicate (repeats stroke target length).toNat stroke.char
  match stroke with
  | .invisible => run
  | .dotted => source.startMark ++ '-' :: run ++ '-' :: target.endMark
  | _ => source.startMark ++ run ++ target.endMark

/-- The operator of an edge, unless it is too long. -/
def build (stroke : Stroke) (source target : Tip) (length : Int) : Except Error Text := do
  checkRun (repeats stroke target length)
  return write stroke source target length

/-- The length of the last run of a character: the first number counts the run that is open
here, the second is the length of the last closed one. -/
def lastRunFrom (c : Char) : Nat → Nat → Text → Nat
  | 0, last, [] => last
  | n + 1, _, [] => n + 1
  | n, last, d :: s =>
    if d = c then lastRunFrom c (n + 1) last s
    else lastRunFrom c 0 (if n = 0 then last else n) s

/-- The length that an operator shows, by the last run of the character of its stroke. -/
def lengthOf (s : Text) (stroke : Stroke) (target : Tip) : Nat :=
  let run := lastRunFrom stroke.char 0 0 s
  match stroke with
  | .dotted => max 1 run
  | _ => max 1 (if target = .none then run - 2 else run - 1)

/-- The tip at the start of an operator, and what follows its mark. -/
def takeStart : Text → Tip × Text
  | '<' :: s => (.arrow, s)
  | 'o' :: s => (.circle, s)
  | 'x' :: s => (.cross, s)
  | s => (.none, s)

/-- The tip at the end of an operator, and what precedes its mark. -/
def takeEnd (s : Text) : Tip × Text :=
  match s.getLast? with
  | some '>' => (.arrow, s.dropLast)
  | some 'o' => (.circle, s.dropLast)
  | some 'x' => (.cross, s.dropLast)
  | _ => (.none, s)

/-- Is the text a run of one character, at least so long? -/
def isRun (c : Char) (least : Nat) (s : Text) : Bool :=
  least ≤ s.length && s.all (· == c)

/-- Is the text a run of dots, at least one, between or before hyphens? -/
def isDots (opening : Text) (s : Text) : Bool :=
  match Text.after? opening s with
  | none => false
  | some r => match Text.before? ['-'] r with
    | none => false
    | some dots => isRun '.' 1 dots

/-- The stroke that a text draws, if it draws one and nothing else. -/
def bodyStroke? (s : Text) : Option Stroke :=
  if isRun '=' 2 s then some .thick
  else if isDots ['-'] s then some .dotted
  else if isRun '-' 2 s then some .normal
  else none

/-- What an operator without a label says. -/
def plain? (s : Text) : Option (Stroke × Tip × Tip) :=
  if isRun '~' 3 s then some (.invisible, .none, .none)
  else
    let (source, r) := takeStart s
    let (target, body) := takeEnd r
    (bodyStroke? body).map fun stroke => (stroke, source, target)

/-- Does the text end an operator with a label: blanks or none, then the closing run, then
the mark of the tip? Without a mark the run must be longer. -/
def closes (stroke : Stroke) (target : Tip) (s : Text) : Bool :=
  match Text.before? target.endMark s.trimStart with
  | none => false
  | some run => match stroke with
    | .dotted => isDots [] run
    | _ => isRun stroke.char (if target = .none then 3 else 2) run

/-- The shortest label, of one character at least, after which the operator closes. -/
def shortest (close : Text → Bool) : Text → Option Text
  | [] => none
  | c :: s => if close s then some [c] else (shortest close s).map (c :: ·)

/-- The label of an operator. It begins after as many blanks as leave a label at all. -/
def labelIn (close : Text → Bool) : Text → Option Text
  | [] => none
  | c :: s =>
    if isBlank c then (labelIn close s).orElse fun _ => shortest close (c :: s)
    else shortest close (c :: s)

/-- The stroke that an opening run begins, and what follows the run. -/
def opening? : Text → Option (Stroke × Text)
  | '=' :: '=' :: s => some (.thick, s)
  | '-' :: '.' :: s => some (.dotted, s)
  | '-' :: '-' :: s => some (.normal, s)
  | _ => none

/-- What an operator with a label says. A tip at the source calls for an arrow at both ends. -/
def labelled? (s : Text) : Option (Stroke × Tip × Tip × Text) := do
  let (source, r) := match s with
    | '<' :: r => (Tip.arrow, r)
    | r => (Tip.none, r)
  let (stroke, inner) ← opening? r
  let targets := if source = .arrow then [Tip.arrow] else Tip.all
  targets.findSome? fun target =>
    (labelIn (closes stroke target) inner).map fun label => (stroke, source, target, label)

/-- Reads an operator. Blanks around it and around its label do not count. -/
def read? (s : Text) : Option Operator :=
  let s := s.trim
  match plain? s with
  | some (stroke, source, target) =>
    some ⟨s, stroke, source, target, none, lengthOf s stroke target⟩
  | none => (labelled? s).map fun (stroke, source, target, label) =>
    let length := lengthOf s stroke target
    ⟨write stroke source target length, stroke, source, target, some label.trim, length⟩

end Operator
end Flowchart
