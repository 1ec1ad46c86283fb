import Flowchart.Text.Blank
import Flowchart.Text.Alphanumeric

/-! Markup inside a text: tags, and emphasis by stars and underscores. These recognisers
only decide whether a text holds any; they choose the form in which it is written. -/
namespace Flowchart.Markup

/-- Is the character an unaccented letter? -/
def isPlainLetter (c : Char) : Bool := c.isAlpha

/-- Does a tag start here: an angle bracket, a slash or none, a letter, and somewhere after
it the closing bracket? -/
def tagHere : Text → Bool
  | '<' :: '/' :: c :: s => isPlainLetter c && s.contains '>'
  | '<' :: c :: s => isPlainLetter c && s.contains '>'
  | _ => false

/-- Does the text hold a tag? -/
def hasTag : Text → Bool
  | [] => false
  | c :: s => tagHere (c :: s) || hasTag s

/-- Does strong emphasis start here: a doubled mark, a character that is not blank, and
somewhere after it the doubled mark again? -/
def strongHere : Text → Bool
  | '*' :: '*' :: c :: s => !isBlank c && Text.has ['*', '*'] s
  | '_' :: '_' :: c :: s => !isBlank c && Text.has ['_', '_'] s
  | _ => false

/-- Does light emphasis start here: the mark, a character that is neither the mark nor
blank, and the next mark followed by neither a word character nor a mark? -/
def lightHere (mark : Char) : Text → Bool
  | m :: c :: s =>
    m == mark && c != mark && !isBlank c &&
      match s.dropWhile (· != mark) with
      | [] => false
      | _ :: [] => true
      | _ :: d :: _ => !isWord d && d != mark
  | _ => false

/-- Does emphasis start here, after the character `before`? A light mark does not count
after a word character or after the same mark. -/
def emphasisHere (before : Option Char) (s : Text) : Bool :=
  strongHere s ||
  (lightHere '*' s && before.all fun b => !isWord b && b != '*') ||
  (lightHere '_' s && before.all fun b => !isWord b)

/-- Does emphasis start anywhere in a text that follows the character `before`? -/
def hasEmphasisAfter (before : Option Char) : Text → Bool
  | [] => false
  | c :: s => emphasisHere before (c :: s) || hasEmphasisAfter (some c) s

/-- Does the text hold emphasis? -/
def hasEmphasis (s : Text) : Bool := hasEmphasisAfter none s

end Flowchart.Markup
