import Flowchart.Number.Shortest

/-! Numbers of positions and sizes. A number is kept as it was given, an integer or a binary
fraction of double precision; only the middle of two numbers is computed, and that is always
a binary fraction. -/
namespace Flowchart

/-- How decimals are laid out: up to which place of the point they are written without a
power of ten, and how many digits that power has at least. -/
structure DecimalLayout where
  /-- The point may stand so many zeros before the first digit. -/
  zerosBefore : Nat
  /-- The point may stand so many places after the first digit. -/
  placesAfter : Nat
  powerDigits : Nat
  deriving DecidableEq, Repr

namespace DecimalLayout

/-- The digits `ds` with the point after the first `point` of them, which may be before the
first or after the last. There is always a digit on both sides of the point. -/
def positional (ds : Text) (point : Int) : Text :=
  let padded := List.replicate (1 - point).toNat '0' ++ ds
  let whole := padded.take (max 1 point).toNat
  let rest := padded.drop (max 1 point).toNat
  whole ++ List.replicate (point.toNat - ds.length) '0' ++ '.' ::
    (if rest.isEmpty then ['0'] else rest)

/-- The digits `ds` with the point after the first, and a power of ten with its sign. -/
def scientific (l : DecimalLayout) (ds : Text) (power : Int) : Text :=
  let digits := Text.ofNat power.natAbs
  ds.take 1 ++ (if ds.length ≤ 1 then [] else '.' :: ds.drop 1) ++
    'e' :: (if power < 0 then '-' else '+') ::
    (List.replicate (l.powerDigits - digits.length) '0' ++ digits)

/-- A decimal as text. Zeros at the end of its digits do not count as digits. -/
def write (l : DecimalLayout) (t : Binary.Decimal) : Text :=
  let all := Text.ofNat t.digits
  let point : Int := all.length + t.exponent
  let ds := Text.dropTrailing (· == '0') all
  if -(l.zerosBefore : Int) ≤ point && point ≤ l.placesAfter then positional ds point
  else l.scientific ds (point - 1)

end DecimalLayout

/-- An integer or a binary fraction. -/
inductive Number where
  | int (n : Int)
  | binary (b : Binary)
  deriving DecidableEq, Repr

namespace Number

/-- The number as a binary fraction. -/
def toBinary : Number → Except Error Binary
  | .int n => Binary.ofRatio n 1
  | .binary b => .ok b

/-- The middle of two numbers. Two integers are added exactly; otherwise the sum is rounded
before it is halved. -/
def middle : Number → Number → Except Error Number
  | .int a, .int b => (Binary.ofRatio (a + b) 2).map .binary
  | a, b => do
    let sum ← (← a.toBinary).add (← b.toBinary)
    return .binary (← sum.half)

/-- The number as a whole number over a positive one. -/
def ratio : Number → Int × Nat
  | .int n => (n, 1)
  | .binary b => b.ratio

/-- Is one number at most the other? -/
def upTo (m n : Number) : Bool := m.ratio.1 * n.ratio.2 ≤ n.ratio.1 * m.ratio.2

/-- Fractions from a ten thousandth up to 10 ^ 16 are written without a power of ten. -/
def layout : DecimalLayout := ⟨3, 16, 2⟩

/-- The text of a number. An integer has no point; a fraction is its shortest decimal. -/
def toText : Number → Text
  | .int n => Text.ofInt n
  | .binary b =>
    (if b.negative then ['-'] else []) ++
      if b.significand = 0 then DecimalLayout.positional ['0'] 1 else layout.write b.shortest

end Number
end Flowchart
