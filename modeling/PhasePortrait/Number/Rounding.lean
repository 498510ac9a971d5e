/-!
# Rounding quotients

Division of natural numbers to the nearest whole number, a half going to the even neighbour, and
the position of the leading decimal or binary digit of a quotient. All are exact.
-/
namespace PhasePortrait.Rounding

def twoTo (n : Nat) : Nat := Nat.pow 2 n

def tenTo (n : Nat) : Nat := Nat.pow 10 n

/-- The whole number nearest to `num / den`, the even one of two. -/
def nearest (num den : Nat) : Nat :=
  let q := num / den
  let r := num % den
  if 2 * r < den then q else if den < 2 * r then q + 1 else q + q % 2

def digitCount (n : Nat) : Nat := (Nat.toDigits 10 n).length

/-- The exponent `e` with `10 ^ e ≤ num / den < 10 ^ (e + 1)`, for positive numbers. -/
def leadingExponent (num den : Nat) : Int :=
  if den ≤ num then digitCount (num / den) - 1
  else
    let places := digitCount (den / num)
    if den ≤ num * tenTo (places - 1) then -(places - 1 : Nat) else -(places : Nat)

/-- `num / den` scaled by a power of ten, again as a quotient. -/
def scale (num den : Nat) (power : Int) : Nat × Nat :=
  if 0 ≤ power then (num * tenTo power.toNat, den) else (num, den * tenTo (-power).toNat)

/-- The exponent `e` with `2 ^ e ≤ num / den < 2 ^ (e + 1)`, for positive numbers. -/
def leadingBit (num den : Nat) : Int :=
  let guess : Int := Nat.log2 num - Nat.log2 den
  let fits :=
    if 0 ≤ guess then den * twoTo guess.toNat ≤ num else den ≤ num * twoTo (-guess).toNat
  if fits then guess else guess - 1

/-- `num / den` scaled by a power of two, again as a quotient. -/
def shift (num den : Nat) (power : Int) : Nat × Nat :=
  if 0 ≤ power then (num * twoTo power.toNat, den) else (num, den * twoTo (-power).toNat)

/-- A positive quotient to `count` significant digits: the digits as a whole number, and the
exponent of the first. A carry into a new digit moves the exponent. -/
def significant (count num den : Nat) : Nat × Int :=
  let e := leadingExponent num den
  let (n, d) := scale num den (count - 1 - e)
  let digits := nearest n d
  if digits = tenTo count then (tenTo (count - 1), e + 1) else (digits, e)

end PhasePortrait.Rounding
