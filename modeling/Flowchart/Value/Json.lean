import Flowchart.Value

/-! Plain data as JSON text. Only the first 128 characters occur in it: any other is written
by its UTF-16 code units. There is a form on one line and one that puts every item on a line
of its own, indented by its depth. -/
namespace Flowchart.Json

/-- A code unit as an escape. -/
def unitEscape (n : Nat) : Text := '\\' :: 'u' :: Text.hex 4 n

/-- A character inside a string. -/
def escapeChar (c : Char) : Text :=
  match c with
  | '"' => ['\\', '"']
  | '\\' => ['\\', '\\']
  | '\n' => ['\\', 'n']
  | '\r' => ['\\', 'r']
  | '\t' => ['\\', 't']
  | '\x08' => ['\\', 'b']
  | '\x0c' => ['\\', 'f']
  | c =>
    let n := c.toNat
    if 0x20 ≤ n && n < 0x7f then [c]
    else if n < 0x10000 then unitEscape n
    else unitEscape (0xd800 + (n - 0x10000) / 0x400) ++
      unitEscape (0xdc00 + (n - 0x10000) % 0x400)

/-- A text as a string. -/
def string (t : Text) : Text := '"' :: t.flatMap escapeChar ++ ['"']

mutual

/-- A value on one line. -/
def compact : Value → Text
  | .null => "null"
  | .bool true => "true"
  | .bool false => "false"
  | .number n => n.toText
  | .text t => string t
  | .list vs => '[' :: Text.join "," (compacts vs) ++ [']']
  | .record fs => '\x7b' :: Text.join "," (fieldCompacts fs) ++ ['\x7d']

/-- The items of a list, each on one line. -/
def compacts : List Value → List Text
  | [] => []
  | v :: vs => compact v :: compacts vs

/-- The fields of a record, each on one line. -/
def fieldCompacts : List (Text × Value) → List Text
  | [] => []
  | (name, v) :: fs => (string name ++ ':' :: compact v) :: fieldCompacts fs

end

/-- The start of a line at a depth, two blanks for each. -/
def newLine (depth : Nat) : Text := '\n' :: List.replicate (2 * depth) ' '

/-- Items between brackets, each on a line at the given depth. Without items there is only
the pair of brackets. -/
def block (opening closing : Char) (depth : Nat) (items : List Text) : Text :=
  if items.isEmpty then [opening, closing]
  else opening :: newLine (depth + 1) ++ Text.join (',' :: newLine (depth + 1)) items ++
    newLine depth ++ [closing]

mutual

/-- A value over several lines, at a depth. -/
def indentedAt (depth : Nat) : Value → Text
  | .null => "null"
  | .bool true => "true"
  | .bool false => "false"
  | .number n => n.toText
  | .text t => string t
  | .list vs => block '[' ']' depth (indenteds (depth + 1) vs)
  | .record fs => block '\x7b' '\x7d' depth (fieldIndenteds (depth + 1) fs)

/-- The items of a list, over several lines. -/
def indenteds (depth : Nat) : List Value → List Text
  | [] => []
  | v :: vs => indentedAt depth v :: indenteds depth vs

/-- The fields of a record, over several lines. -/
def fieldIndenteds (depth : Nat) : List (Text × Value) → List Text
  | [] => []
  | (name, v) :: fs =>
    (string name ++ ": ".toList ++ indentedAt depth v) :: fieldIndenteds depth fs

end

/-- A value over several lines. -/
def indented (v : Value) : Text := indentedAt 0 v

end Flowchart.Json
