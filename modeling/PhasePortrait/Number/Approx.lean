import PhasePortrait.Number.Binary

/-!
# Numbers to a given precision

An approximate number is a whole number times a power of two, together with the precision, in bits,
that it is known to. Its exponent is not bounded. Sums and products are rounded once, a half going
to the even neighbour, to the larger precision of the operands. In decimal form a number has as many
digits as its precision can tell apart, a half going away from zero.
-/
namespace PhasePortrait
open Rounding (twoTo tenTo)

/-- The number `mantissa * 2 ^ exponent` to `precision` bits. The mantissa is odd or zero. -/
structure Approx where
  mantissa : Int
  exponent : Int
  precision : Nat
deriving DecidableEq, Repr, Inhabited

namespace Approx

/-! ## Precision -/

/-- The decimal digits that a precision tells apart: 15 for 53 bits. -/
def digitsOfBits (bits : Nat) : Nat :=
  max 1 (Rounding.nearest (bits * tenTo 16) 33219280948873626 - 1)

/-- The bits that tell numbers of so many decimal digits apart: 53 for 15 digits. -/
def bitsOfDigits (digits : Nat) : Nat :=
  Rounding.nearest ((digits + 1) * 33219280948873626) (tenTo 16)

/-- The least number of decimal digits that a number is kept to. -/
def leastDigits : Nat := 15

/-! ## Rounding -/

/-- Move factors of two from a mantissa to its exponent, at most as many as asked for. -/
def shed : Nat → Nat → Int → Nat × Int
  | 0, m, e => (m, e)
  | fuel + 1, m, e => if m % 2 = 0 then shed fuel (m / 2) (e + 1) else (m, e)

/-- The number nearest to `num / den`. -/
def ofQuotient (precision : Nat) (negative : Bool) (num den : Nat) : Approx :=
  if num = 0 ∨ den = 0 then ⟨0, 0, precision⟩
  else
    let e := Rounding.leadingBit num den - (precision - 1 : Nat)
    let (n, d) := Rounding.shift num den (-e)
    let (m, e) := shed precision (Rounding.nearest n d) e
    ⟨if negative then -(m : Int) else m, e, precision⟩

/-- The number nearest to `m * 2 ^ e`. -/
def ofScaled (precision : Nat) (m e : Int) : Approx :=
  let x := ofQuotient precision (m < 0) m.natAbs 1
  if x.mantissa = 0 then x else { x with exponent := x.exponent + e }

/-- Exponents of ten are cut at this size, far beyond what a double can tell apart. -/
def exponentLimit : Nat := 20000

def ofDecimal (precision : Nat) (d : Decimal) : Approx :=
  let power := max (-(exponentLimit : Int)) (min exponentLimit d.exponent)
  let (num, den) := Rounding.scale d.mantissa 1 power
  ofQuotient precision false num den

/-- The number of digits that a number text gives: those of its mantissa, without leading zeros, and
all digits of a whole number that is written without a dot. -/
def digitsGiven (text : String) (d : Decimal) : Nat :=
  let written := Rounding.digitCount d.mantissa
  let whole := d.normalize
  if text.toList.contains '.' ∨ whole.exponent < 0 then written
  else max written (Rounding.digitCount whole.mantissa + min exponentLimit whole.exponent.toNat)

/-- The number of a text, to at least 15 digits. -/
def ofText (text : String) : Approx :=
  match Decimal.read? text.toList with
  | some d => ofDecimal (bitsOfDigits (max leastDigits (digitsGiven text d))) d
  | none => ⟨0, 0, bitsOfDigits leastDigits⟩

/-! ## Arithmetic -/

def neg (x : Approx) : Approx := { x with mantissa := -x.mantissa }

def mul (x y : Approx) : Approx :=
  ofScaled (max x.precision y.precision) (x.mantissa * y.mantissa) (x.exponent + y.exponent)

def add (x y : Approx) : Approx :=
  let e := min x.exponent y.exponent
  ofScaled (max x.precision y.precision)
    (x.mantissa * twoTo (x.exponent - e).toNat + y.mantissa * twoTo (y.exponent - e).toNat) e

/-- The quotient of two numbers, zero for a zero divisor. -/
def div (x y : Approx) : Approx :=
  let q := ofQuotient (max x.precision y.precision)
    (decide (x.mantissa < 0) != decide (y.mantissa < 0)) x.mantissa.natAbs y.mantissa.natAbs
  if q.mantissa = 0 then q else { q with exponent := q.exponent + x.exponent - y.exponent }

/-- A power, rounded once. -/
def pow (x : Approx) (precision n : Nat) : Approx :=
  ofScaled precision (Int.pow x.mantissa n) (x.exponent * n)

/-- The inverse of a power. Beyond the first power it is rounded twice, first to five more bits. -/
def inversePow (x : Approx) (n : Nat) : Approx :=
  let one : Approx := ⟨1, 0, x.precision⟩
  if n = 1 then one.div x
  else one.div { x.pow (x.precision + 5) n with precision := x.precision }

/-! ## Value -/

/-- The magnitude as an exact quotient. -/
def magnitude (x : Approx) : Nat × Nat := Rounding.shift x.mantissa.natAbs 1 x.exponent

def isNegative (x : Approx) : Bool := x.mantissa < 0

def toFloat (x : Approx) : Float :=
  let (num, den) := x.magnitude
  nearestDouble x.isNegative num den

/-- The magnitude in decimal digits. -/
def toDecimal (x : Approx) : Decimal :=
  if x.mantissa = 0 then ⟨0, 0⟩
  else
    let (num, den) := x.magnitude
    let power := Rounding.leadingExponent num den - (digitsOfBits x.precision - 1 : Nat)
    let (n, d) := Rounding.scale num den (-power)
    ⟨(2 * n + d) / (2 * d), power⟩

end Approx

end PhasePortrait
