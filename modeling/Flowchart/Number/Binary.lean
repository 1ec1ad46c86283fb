import Flowchart.Error

/-! Binary fractions of double precision. A fraction is held exactly, as a whole number times
a power of two. Rounding goes to the nearest one of double precision, a tie to the even
neighbour. Infinity is no number here: what would round to it is refused. -/
namespace Flowchart

/-- The fraction `significand * 2 ^ exponent` with a sign. The significand is odd or zero;
zero keeps its sign and has exponent zero. -/
structure Binary where
  negative : Bool
  significand : Nat
  exponent : Int
  deriving DecidableEq, Repr

namespace Binary

/-- The fraction with at most `steps` factors of two moved into the exponent. -/
def reduce : Nat → Nat → Int → Nat × Int
  | 0, n, e => (n, e)
  | steps + 1, n, e => if n % 2 = 0 then reduce steps (n / 2) (e + 1) else (n, e)

/-- The fraction in lowest terms. -/
def make (negative : Bool) (n : Nat) (e : Int) : Binary :=
  if n = 0 then ⟨negative, 0, 0⟩
  else let r := reduce (n.log2 + 1) n e; ⟨negative, r.1, r.2⟩

/-- A quotient rounded to the nearest whole number, a tie to the even one. -/
def roundQuotient (n d : Nat) : Nat :=
  let q := n / d
  if 2 * (n % d) < d then q
  else if d < 2 * (n % d) then q + 1
  else q + q % 2

/-- The number `n / d * base ^ e`, as a pair of whole numbers. -/
def scaled (base n d : Nat) (e : Int) : Nat × Nat :=
  if 0 ≤ e then (n * base.pow e.toNat, d) else (n, d * base.pow (-e).toNat)

/-- The power of two below or at a positive quotient. -/
def floorLog (n d : Nat) : Int :=
  let k : Int := n.log2 - d.log2
  let (n', d') := scaled 2 n d (-k)
  if d' ≤ n' then k else k - 1

/-- The quotient `n / d` rounded to double precision: 53 binary digits, none of them beyond
the 1074th place after the point. -/
def round (negative : Bool) (n d : Nat) : Except Error Binary :=
  if n = 0 then .ok ⟨negative, 0, 0⟩
  else
    let e := max (floorLog n d - 52) (-1074)
    let (n', d') := scaled 2 n d (-e)
    let m := roundQuotient n' d'
    if Nat.pow 2 1024 ≤ m * Nat.pow 2 e.toNat && 0 ≤ e then .error .numberTooLarge
    else .ok (make negative m e)

/-- The size of the fraction, as a pair of whole numbers. -/
def quotient (b : Binary) : Nat × Nat := scaled 2 b.significand 1 b.exponent

/-- The fraction as a whole number over a power of two. -/
def ratio (b : Binary) : Int × Nat :=
  let (n, d) := b.quotient
  (if b.negative then -(n : Int) else n, d)

/-- The fraction nearest to a whole number over a positive one. -/
def ofRatio (n : Int) (d : Nat) : Except Error Binary := round (n < 0) n.natAbs d

/-- The fraction nearest to a decimal: a sign, its digits as a whole number, and the power of
ten that they are multiplied by. -/
def ofDecimal (negative : Bool) (digits : Nat) (exponent : Int) : Except Error Binary :=
  let (n, d) := scaled 10 digits 1 exponent
  round negative n d

/-- The sum, rounded. Two negative zeros make one. -/
def add (a b : Binary) : Except Error Binary :=
  let (n, d) := a.ratio
  let (m, k) := b.ratio
  let sum := n * k + m * d
  if sum = 0 then .ok ⟨a.negative && b.negative, 0, 0⟩ else ofRatio sum (d * k)

/-- Half the fraction, rounded. -/
def half (b : Binary) : Except Error Binary :=
  let (n, d) := b.ratio
  round b.negative n.natAbs (2 * d)

end Binary
end Flowchart
