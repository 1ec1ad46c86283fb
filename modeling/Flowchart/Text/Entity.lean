import Flowchart.Error
import Flowchart.Keyed
import Flowchart.Text.Digit

/-! Entity codes. A character that has a meaning in the notation is written as `#name;` or,
by its number, as `#34;`. A hash, a run of word characters and a semicolon form a code; a
code with an unknown name stands for itself. -/
namespace Flowchart.Entity

/-- The named characters. -/
def names : List (Text × Char) := [
  ("quot", '"'), ("apos", '\''), ("amp", '&'), ("lt", '<'), ("gt", '>'),
  ("nbsp", '\u00a0'), ("semi", ';'), ("colon", ':'), ("equals", '='), ("lpar", '('),
  ("rpar", ')'), ("lsqb", '['), ("rsqb", ']'), ("lcub", '{'), ("rcub", '}'),
  ("pipe", '|'), ("comma", ','), ("dash", '-')]

/-- The character with a number. Numbers beyond the last code point are refused. -/
def ofCode (n : Nat) : Except Error Char :=
  if 0x7fffffff < n then .error (.hugeCode n)
  else if 0x10ffff < n then .error (.noCharacter n)
  else .ok (Char.ofNat n)

/-- What a code stands for, given what is between the hash and the semicolon. -/
def meaning (code : Text) : Except Error Text :=
  if code.all isAnyDigit then
    match code.toNat? with
    | none => .error .badNumeral
    | some n => (ofCode n).map ([·])
  else match Keyed.find? code names with
    | some entry => .ok [entry.2]
    | none => .ok ('#' :: code ++ [';'])

/-- Decoding, from a place that follows a hash and the word characters `code`, or from one
that follows no open hash. -/
def decodeFrom : Option Text → Text → Except Error Text
  | none, [] => .ok []
  | some code, [] => .ok ('#' :: code)
  | none, c :: s =>
    if c = '#' then decodeFrom (some []) s
    else (decodeFrom none s).map (c :: ·)
  | some code, c :: s =>
    if isWord c then decodeFrom (some (code ++ [c])) s
    else if c = ';' && !code.isEmpty then do
      let found ← meaning code
      (decodeFrom none s).map (found ++ ·)
    else if c = '#' then (decodeFrom (some []) s).map ('#' :: code ++ ·)
    else (decodeFrom none s).map ('#' :: code ++ c :: ·)

/-- The text with every code replaced by what it stands for, in one pass. -/
def decode (s : Text) : Except Error Text := decodeFrom none s

/-- Is there a code from a place that follows a hash and `some` number of word characters,
at least one of them if the flag is set, or from one that follows no open hash? -/
def hasCodeFrom : Option Bool → Text → Bool
  | _, [] => false
  | none, c :: s => hasCodeFrom (if c = '#' then some false else none) s
  | some seen, c :: s =>
    if isWord c then hasCodeFrom (some true) s
    else if c = ';' && seen then true
    else hasCodeFrom (if c = '#' then some false else none) s

/-- Does the text hold anything that reads as a code, known or not? -/
def hasCode (s : Text) : Bool := hasCodeFrom none s

end Flowchart.Entity
