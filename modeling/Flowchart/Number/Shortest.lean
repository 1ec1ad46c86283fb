import Flowchart.Number.Binary

/-! The shortest decimal of a binary fraction: of all decimals that are read as this fraction,
one with the fewest digits, and of those the nearest. On the grid of decimals with a given
last place a fraction has two neighbours; if any decimal of the grid is read as the fraction,
one of these two is. -/
namespace Flowchart.Binary

/-- The number `digits * 10 ^ exponent`. -/
structure Decimal where
  digits : Nat
  exponent : Int
  deriving DecidableEq, Repr

/-- The power of ten below or at a positive quotient. Three tenths of the power of two come
within one of it. -/
def decimalLog (n d : Nat) : Int :=
  let guess := floorLog n d * 30103 / 100000
  let reaches (k : Int) : Bool :=
    let (n', d') := scaled 10 n d (-k)
    d' ≤ n'
  if reaches (guess + 1) then guess + 1 else if reaches guess then guess else guess - 1

/-- Is the decimal read as this fraction? -/
def reads (b : Binary) (t : Decimal) : Bool :=
  match ofDecimal b.negative t.digits t.exponent with
  | .ok c => c == b
  | .error _ => false

/-- The two neighbours of the fraction on a grid, the nearer one first. Of two that are
equally near the even one comes first. -/
def neighbours (b : Binary) (exponent : Int) : List Decimal :=
  let (n, d) := scaled 10 b.quotient.1 b.quotient.2 (-exponent)
  let below := n / d
  if roundQuotient n d = below then [⟨below, exponent⟩, ⟨below + 1, exponent⟩]
  else [⟨below + 1, exponent⟩, ⟨below, exponent⟩]

/-- The nearer of the neighbours on a grid that are read as this fraction, if one is. -/
def onGrid? (b : Binary) (exponent : Int) : Option Decimal :=
  (b.neighbours exponent).find? b.reads

/-- The most digits that are ever needed to tell fractions of double precision apart. -/
def mostDigits : Nat := 17

/-- The shortest decimal of a fraction that is not zero: the first of the grids with one
digit, two digits and so on that has one. -/
def shortest (b : Binary) : Decimal :=
  let first := decimalLog b.quotient.1 b.quotient.2
  ((List.range mostDigits).findSome? fun (more : Nat) => b.onGrid? (first - more)).getD ⟨0, 0⟩

/-- A decimal that is found on a grid is read as the fraction. -/
theorem reads_of_onGrid? {b : Binary} {e : Int} {t : Decimal} (h : b.onGrid? e = some t) :
    b.reads t = true := List.find?_some h

end Flowchart.Binary
