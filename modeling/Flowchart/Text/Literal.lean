import Flowchart.Text.Printable

/-! The literal form of a text in messages: between single quotes, or between double ones
where that saves escaping a single quote. What cannot be printed stands there by its number,
in as few of two, four or eight digits as hold it. -/
namespace Flowchart

/-- The digits of a number in base sixteen, at least `width` of them. -/
def Text.hex (width n : Nat) : Text :=
  let digits := Nat.toDigits 16 n
  List.replicate (width - digits.length) '0' ++ digits

namespace Text

/-- A character by its number. -/
def numberEscape (n : Nat) : Text :=
  if n < 0x100 then '\\' :: 'x' :: hex 2 n
  else if n < 0x10000 then '\\' :: 'u' :: hex 4 n
  else '\\' :: 'U' :: hex 8 n

/-- A character inside a literal that ends with `quote`. -/
def literalChar (quote c : Char) : Text :=
  if c = quote || c = '\\' then ['\\', c]
  else if c = '\n' then ['\\', 'n']
  else if c = '\r' then ['\\', 'r']
  else if c = '\t' then ['\\', 't']
  else if isPrintable c then [c]
  else numberEscape c.toNat

/-- The literal form of a text. -/
def literal (s : Text) : Text :=
  let quote := if s.contains '\'' && !s.contains '"' then '"' else '\''
  quote :: s.flatMap (literalChar quote) ++ [quote]

end Text
end Flowchart
