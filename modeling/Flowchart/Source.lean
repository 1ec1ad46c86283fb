import Flowchart.Text.Blank

/-! The lines of a source text that count: without the block of settings at its beginning,
without comments, without blank lines, and without blanks at their ends. -/
namespace Flowchart.Source

/-- What begins a comment. -/
def commentMark : Text := "%%"

/-- The line that opens and closes a block of settings. -/
def fence : Text := "---"

/-- The text without the block of settings between two fences at its beginning. Blank lines
may stand before it. A block that is not closed is no block. -/
def withoutSettings (s : Text) : Text :=
  match (Text.lines s).dropWhile fun l => l.trim.isEmpty with
  | [] => s
  | first :: rest =>
    if first.trim = fence then
      match rest.dropWhile fun l => l.trim != fence with
      | [] => s
      | _ :: body => Text.join ['\n'] body
    else s

/-- The lines that count. A comment mark ends its line wherever it stands. -/
def meaningful (s : Text) : List Text :=
  ((Text.lines (withoutSettings s)).map fun l => (Text.upTo commentMark l).trim).filter
    fun l => !l.isEmpty

end Flowchart.Source
