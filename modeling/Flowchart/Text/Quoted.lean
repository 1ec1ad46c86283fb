import Flowchart.Text.Entity
import Flowchart.Text.Markup

/-! Quoted text. Reading takes off one pair of quotes and decodes the entity codes. Writing
picks the lightest form that reads back to the same text: bare, between double quotes, or,
for emphasis and line breaks, as markdown between back quotes within double quotes. Carriage
returns are not written. -/
namespace Flowchart.Quoted

/-- Is the character one of the three quotes? -/
def isQuote (c : Char) : Bool := c == '"' || c == '\'' || c == '\x60'

/-- The text within one pair of equal quotes, where the back quote within a double quote
counts as one quote. -/
def peel (s : Text) : Text :=
  if 4 ≤ s.length && ['"', '\x60'].isPrefixOf s && ['\x60', '"'].isSuffixOf s then
    (s.drop 2).dropLast.dropLast
  else match s with
    | q :: r => if r.getLast? = some q && isQuote q then r.dropLast else s
    | [] => []

/-- Reads a text: blanks at both ends go, then one pair of quotes, then the codes. -/
def unquote (s : Text) : Except Error Text := Entity.decode (peel s.trim)

/-- How hashes and percent signs of a text have to be written: a hash as a code if it could
be read as the start of one, a percent sign as a code if two of them follow each other. -/
structure Guard where
  hash : Bool
  percent : Bool

/-- What a text asks for. -/
def Guard.of (s : Text) : Guard := ⟨Entity.hasCode s, Text.has "%%" s⟩

/-- A character as it is written between double quotes. -/
def escapeChar (g : Guard) (c : Char) : Text :=
  match c with
  | '#' => if g.hash then "#35;" else "#"
  | '%' => if g.percent then "#37;" else "%"
  | '"' => "#quot;"
  | '\x60' => "#96;"
  | '\r' => []
  | '\n' => "#10;"
  | c => [c]

/-- A text as it is written between double quotes. -/
def escape (s : Text) : Text := s.flatMap (escapeChar (.of s))

/-- Characters that a bare text may not hold. -/
def isSpecial (c : Char) : Bool :=
  c ∈ ("[]()\x7b\x7d<>|\\/\"'\x60#;&@:" : String).toList

/-- Runs that a bare text may not hold. -/
def specialRuns : List Text := ["%%", "--", "==", "-.", "~~~"]

/-- Must the text be quoted, to stand between the given delimiters? -/
def needed (delimiters : List Text) (s : Text) : Bool :=
  s != s.trim || s.isEmpty || s.any isSpecial || specialRuns.any (Text.has · s) ||
  delimiters.any (fun d => !d.isEmpty && Text.has d s) || s.any fun c => 0x7f < c.toNat

/-- A text between double quotes. -/
def inQuotes (s : Text) : Text := '"' :: escape s ++ ['"']

/-- A text as markdown, between back quotes within double quotes. -/
def asMarkdown (s : Text) : Text := '"' :: '\x60' :: escape s ++ ['\x60', '"']

/-- The lightest written form of a text between the given delimiters. -/
def quote (delimiters : List Text) (s : Text) : Text :=
  if Markup.hasTag s && !s.contains '\n' then inQuotes s
  else if s.contains '\n' || Markup.hasEmphasis s then asMarkdown s
  else if needed delimiters s then inQuotes s
  else s

/-- A character as it is written in an edge label, which stands between pipes. -/
def labelChar (g : Guard) (c : Char) : Text :=
  match c with
  | '|' => "#124;"
  | '\'' => "#39;"
  | c => escapeChar g c

/-- An edge label. Blanks at its ends are kept by a pair of quotes. -/
def label (s : Text) : Text :=
  let written : Text := s.flatMap (labelChar (.of s))
  if written != written.trim then '"' :: written ++ ['"'] else written

/-- Splitting from a place inside the quote `open?`, or outside quotes. -/
def splitFrom (sep : Char) : Option Char → Text → List Text
  | _, [] => [[]]
  | open?, c :: s =>
    let after := match open? with
      | some q => if c = q then none else some q
      | none => if c = '"' || c = '\'' then some c else none
    if open?.isNone && after.isNone && c = sep then [] :: splitFrom sep none s
    else match splitFrom sep after s with
      | [] => [[c]]
      | p :: ps => (c :: p) :: ps

/-- The pieces between the separators that stand outside quotes. -/
def split (sep : Char) (s : Text) : List Text := splitFrom sep none s

/-- Reads the body of a property list, `key: value, …`. A key that comes again keeps its
place and takes the later value; a piece without a colon or with a blank key is skipped. -/
def properties (body : Text) : Except Error (List (Text × Text)) :=
  (split ',' body).foldlM property []
where
  property (found : List (Text × Text)) (piece : Text) : Except Error (List (Text × Text)) :=
    match Text.halves? ':' piece with
    | none => .ok found
    | some (key, value) =>
      if (Text.trim key).isEmpty then .ok found
      else do return Keyed.put (Text.trim key, ← unquote value) found

end Flowchart.Quoted
