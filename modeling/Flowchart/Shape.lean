import Flowchart.Text.Blank
import Flowchart.Text.Lowercase
import Flowchart.Keyed

/-! The shapes of nodes. A shape has one name of its own; some have further short names. A
name that no shape has is kept, in lower case, so that a shape which other tools know passes
through unchanged. -/
namespace Flowchart

/-- The outline of a node. -/
inductive Shape where
  | rect | rounded | stadium | subroutine | cylinder | circle | doubleCircle | diamond
  | hexagon | trapezoid | invTrapezoid | leanRight | leanLeft | odd | document | notchRect
  | bowRect | braces | braceLeft | braceRight | triangle | flipTriangle | cross | hourglass
  | bolt | comLink | windowPane | dividedRect | linedRect | fork | delay | horizontalCylinder
  | curvedTrapezoid | slopedRect | smallCircle | framedCircle | linedCylinder | tiltedCylinder
  | waveRect | tagRect | waveEdged | tagDocument | halfRounded | multiRect | multiWave
  | textBlock | icon | image
  /-- A shape known by its name only. -/
  | named (name : Text)
  deriving DecidableEq, Repr

namespace Shape

/-- The name of a shape. -/
def name : Shape → Text
  | .rect => "rect"
  | .rounded => "rounded"
  | .stadium => "stadium"
  | .subroutine => "subroutine"
  | .cylinder => "cylinder"
  | .circle => "circle"
  | .doubleCircle => "doublecircle"
  | .diamond => "diamond"
  | .hexagon => "hexagon"
  | .trapezoid => "trapezoid"
  | .invTrapezoid => "inv_trapezoid"
  | .leanRight => "lean_right"
  | .leanLeft => "lean_left"
  | .odd => "odd"
  | .document => "doc"
  | .notchRect => "notch-rect"
  | .bowRect => "bow-rect"
  | .braces => "braces"
  | .braceLeft => "brace-l"
  | .braceRight => "brace-r"
  | .triangle => "triangle"
  | .flipTriangle => "flip-triangle"
  | .cross => "cross"
  | .hourglass => "hourglass"
  | .bolt => "bolt"
  | .comLink => "com-link"
  | .windowPane => "window-pane"
  | .dividedRect => "divided-rect"
  | .linedRect => "lin-rect"
  | .fork => "fork"
  | .delay => "delay"
  | .horizontalCylinder => "h-cyl"
  | .curvedTrapezoid => "curved-trap"
  | .slopedRect => "sl-rect"
  | .smallCircle => "sm-circ"
  | .framedCircle => "fr-circ"
  | .linedCylinder => "lin-cyl"
  | .tiltedCylinder => "tilted-cyl"
  | .waveRect => "wave-rect"
  | .tagRect => "tag-rect"
  | .waveEdged => "wave-edged"
  | .tagDocument => "tag-doc"
  | .halfRounded => "half-rounded"
  | .multiRect => "multi-rect"
  | .multiWave => "multi-wave"
  | .textBlock => "text"
  | .icon => "icon"
  | .image => "image"
  | .named s => s

/-- The shapes that this notation knows. -/
def known : List Shape := [
  .rect, .rounded, .stadium, .subroutine, .cylinder, .circle, .doubleCircle, .diamond, .hexagon,
  .trapezoid, .invTrapezoid, .leanRight, .leanLeft, .odd, .document, .notchRect, .bowRect,
  .braces, .braceLeft, .braceRight, .triangle, .flipTriangle, .cross, .hourglass, .bolt, .comLink,
  .windowPane, .dividedRect, .linedRect, .fork, .delay, .horizontalCylinder, .curvedTrapezoid,
  .slopedRect, .smallCircle, .framedCircle, .linedCylinder, .tiltedCylinder, .waveRect, .tagRect,
  .waveEdged, .tagDocument, .halfRounded, .multiRect, .multiWave, .textBlock, .icon, .image]

/-- The usual names and the short ones under which a shape may be asked for, by shape. They
are looked up before the other own names. -/
def aliasGroups : List (Shape × List Text) := [
  (.rect, ["rect", "square", "process", "proc"]),
  (.rounded, ["round", "rounded"]),
  (.stadium, ["stadium", "pill", "terminal"]),
  (.subroutine, ["subroutine", "subproc", "fr-rect"]),
  (.cylinder, ["cyl", "cylinder", "db", "database"]),
  (.circle, ["circ", "circle"]),
  (.doubleCircle, ["dbl-circ", "doublecircle"]),
  (.diamond, ["diam", "diamond", "decision"]),
  (.hexagon, ["hex", "hexagon", "prepare"]),
  (.trapezoid, ["trap-b", "trapezoid"]),
  (.invTrapezoid, ["trap-t", "inv-trapezoid", "inv_trapezoid"]),
  (.leanRight, ["lean-r", "lean_right", "in-out"]),
  (.leanLeft, ["lean-l", "lean_left", "out-in"]),
  (.odd, ["odd", "flag"]),
  (.document, ["doc", "document"]),
  (.notchRect, ["notch-rect", "card"]),
  (.triangle, ["tri", "triangle"]),
  (.bolt, ["bolt", "lightning-bolt"]),
  (.braces, ["brace", "braces", "comment"]),
  (.fork, ["fork", "join"]),
  (.cross, ["crossed-circle"]),
  (.linedRect, ["lined-process"]),
  (.dividedRect, ["div-rect", "divided-process"]),
  (.image, ["img"])]

/-- The usual names and the short ones, each with its shape. -/
def aliases : List (Text × Shape) := aliasGroups.flatMap fun g => g.2.map fun n => (n, g.1)

/-- The known shape with this name of its own. -/
def ofName? (s : Text) : Option Shape := known.find? fun shape => shape.name == s

/-- The shape that a name asks for. Blanks around it and upper case do not count. -/
def resolve (s : Text) : Shape :=
  let key := Text.lower (Text.trim s)
  match Keyed.find? key aliases with
  | some entry => entry.2
  | none => (ofName? key).getD (.named key)

end Shape
end Flowchart
