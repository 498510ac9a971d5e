import PhasePortrait.Number.Approx

/-!
# Numbers in terms

The numbers of a term are exact fractions or approximate. Arithmetic between the two kinds is
approximate, at the precision of the approximate operand, except that an approximate sum or product
that comes to zero is the exact zero.
-/
namespace PhasePortrait

inductive Coefficient where
  | ratio (num : Int) (den : Nat)
  | approx (x : Approx)
deriving DecidableEq, Repr, Inhabited

namespace Coefficient

def ofInt (n : Int) : Coefficient := ratio n 1

def zero : Coefficient := ofInt 0

def one : Coefficient := ofInt 1

def minusOne : Coefficient := ofInt (-1)

def half : Coefficient := ratio 1 2

/-- A fraction in lowest terms. -/
def reduced (num : Int) (den : Nat) : Coefficient :=
  let g := Nat.gcd num.natAbs den
  ratio (num / g) (den / g)

/-! ## Views -/

def isExact : Coefficient → Bool
  | ratio .. => true
  | approx _ => false

def isZero : Coefficient → Bool
  | ratio n _ => n == 0
  | approx x => x.mantissa == 0

def isNegative : Coefficient → Bool
  | ratio n _ => n < 0
  | approx x => x.isNegative

/-- The exact value as a numerator and a positive denominator. -/
def fraction : Coefficient → Int × Nat
  | ratio n d => (n, d)
  | approx x =>
    let (num, den) := x.magnitude
    (if x.isNegative then -(num : Int) else num, den)

/-- Order by value. -/
def compare (a b : Coefficient) : Ordering :=
  let (n, d) := a.fraction
  let (m, e) := b.fraction
  Ord.compare (n * (e : Int)) (m * (d : Int))

/-- Whether two numbers of any kind have one value. -/
def same (a b : Coefficient) : Bool := a.compare b == .eq

def toFloat : Coefficient → Float
  | ratio n d => nearestDouble (n < 0) n.natAbs d
  | approx x => x.toFloat

/-! ## Arithmetic -/

/-- An approximate outcome. -/
def settled (x : Approx) : Coefficient := if x.mantissa = 0 then zero else approx x

/-- The approximate number at a precision. -/
def toApprox (precision : Nat) : Coefficient → Approx
  | ratio n d => Approx.ofQuotient precision (n < 0) n.natAbs d
  | approx x => x

def neg : Coefficient → Coefficient
  | ratio n d => ratio (-n) d
  | approx x => approx x.neg

def abs (a : Coefficient) : Coefficient := if a.isNegative then a.neg else a

def mul : Coefficient → Coefficient → Coefficient
  | ratio n d, ratio m e => reduced (n * m) (d * e)
  | approx x, b => settled (x.mul (b.toApprox x.precision))
  | a, approx y => settled (y.mul (a.toApprox y.precision))

def add : Coefficient → Coefficient → Coefficient
  | ratio n d, ratio m e => reduced (n * e + m * d) (d * e)
  | approx x, b => settled (x.add (b.toApprox x.precision))
  | a, approx y => settled (y.add (a.toApprox y.precision))

/-- A whole power, unless it divides by zero. -/
def pow? (a : Coefficient) (n : Int) : Option Coefficient :=
  let k := n.natAbs
  if n < 0 && a.isZero then none
  else match a with
    | ratio m d =>
      if 0 ≤ n then some (ratio (Int.pow m k) (Nat.pow d k))
      else some (ratio (Int.pow (m.sign * d) k) (Nat.pow m.natAbs k))
    | approx x =>
      if n = 0 then some one
      else if 0 ≤ n then some (if x.mantissa = 0 then a else approx (x.pow x.precision k))
      else some (settled (x.inversePow k))

/-- The quotient by a number other than zero. -/
def div (a b : Coefficient) : Coefficient :=
  match a, b with
  | approx x, b => settled (x.div (b.toApprox x.precision))
  | a, b => ((b.pow? (-1)).map a.mul).getD zero

/-! ## Order of numbers within terms -/

/-- Position of a number among the kinds of numbers. -/
def rank : Coefficient → Nat
  | ratio 0 _ => 0
  | ratio 1 1 => 1
  | ratio 1 2 => 2
  | ratio (-1) 1 => 5
  | ratio _ 1 => 7
  | ratio .. => 8
  | approx _ => 9

/-- Order of two numbers of one kind by their parts. -/
def comparePartwise : Coefficient → Coefficient → Ordering
  | approx x, approx y =>
    (Ord.compare x.isNegative y.isNegative).then <|
    (Ord.compare x.mantissa.natAbs y.mantissa.natAbs).then <|
    (Ord.compare x.exponent y.exponent).then <|
    Ord.compare x.precision y.precision
  | ratio n d, ratio m e => (Ord.compare n m).then (Ord.compare d e)
  | ratio .., approx _ => .lt
  | approx _, ratio .. => .gt

end Coefficient

end PhasePortrait
