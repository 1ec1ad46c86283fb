import Flowchart.Shape
import Flowchart.Text.Quoted

/-! Shapes that have brackets of their own: `id[text]` is a rectangle, `id((text))` a circle.
The table is read from its beginning and the first entry that fits wins, so an entry stands
before those whose brackets begin its own. -/
namespace Flowchart

/-- The brackets that stand for a shape. -/
structure Brackets where
  opening : Text
  closing : Text
  shape : Shape
  deriving DecidableEq, Repr

namespace Shape

/-- The brackets of the shapes, in the order in which they are tried. -/
def brackets : List Brackets := [
  ⟨"(((", ")))", .doubleCircle⟩,
  ⟨"((", "))", .circle⟩,
  ⟨"([", "])", .stadium⟩,
  ⟨"[(", ")]", .cylinder⟩,
  ⟨"[[", "]]", .subroutine⟩,
  ⟨"\x7b\x7b", "\x7d\x7d", .hexagon⟩,
  ⟨"[/", "/]", .trapezoid⟩,
  ⟨"[\\", "\\]", .invTrapezoid⟩,
  ⟨"[/", "\\]", .leanRight⟩,
  ⟨"[\\", "/]", .leanLeft⟩,
  ⟨">", "]", .odd⟩,
  ⟨"\x7b", "\x7d", .diamond⟩,
  ⟨"(", ")", .rounded⟩,
  ⟨"[", "]", .rect⟩]

/-- The brackets of a shape, if it has any. -/
def brackets? (shape : Shape) : Option Brackets := brackets.find? fun b => b.shape == shape

/-- Has the shape brackets of its own? -/
def isBracketed (shape : Shape) : Bool := shape.brackets?.isSome

end Shape

/-- May the character be part of an id that stands alone? -/
def isBareChar (c : Char) : Bool :=
  !isBlank c && c ∉ ("[]()\x7b\x7d<>@\"'\x60|" : String).toList

/-- May the character be part of an id before brackets? -/
def isIdChar (c : Char) : Bool := isBareChar c && c != '&'

/-- Is the text an id that can stand alone? One line feed at its end is overlooked. -/
def isBareId (s : Text) : Bool :=
  let id := (Text.before? ['\n'] s).getD s
  !id.isEmpty && id.all isBareChar

/-- A node with brackets as it is read: its id, the text between the brackets as it stands
there, and the shape. -/
def readBracketed? (s : Text) : Option (Text × Text × Shape) :=
  let id := s.takeWhile isIdChar
  if id.isEmpty then none
  else Shape.brackets.findSome? fun b => do
    let text ← Text.beforeFinal? b.closing (← Text.after? b.opening (s.dropWhile isIdChar))
    return (id, text, b.shape)

/-- The text of a node as it is written between the brackets of its shape. -/
def writeBracketed (shape : Shape) (text : Text) : Text :=
  let b := (shape.brackets?.orElse fun _ => Shape.rect.brackets?).getD ⟨[], [], .rect⟩
  Quoted.quote [b.opening, b.closing] text

end Flowchart
