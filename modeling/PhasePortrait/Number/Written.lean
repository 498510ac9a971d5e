import PhasePortrait.Number.Binary

/-!
# Written numbers

Three written forms of a double. `scientific` has a fixed count of significant digits and always an
exponent; `general` has at most a given count and drops trailing zeros; `shortest` has the fewest
digits that read back as the same double. All are taken from the exact value, a half going to the
even neighbour.
-/
namespace PhasePortrait.Written

def nonFinite (x : Float) : String :=
  if x.isNaN then "nan" else if 0.0 < x then "inf" else "-inf"

def signText (negative : Bool) : String := if negative then "-" else ""

/-- An exponent with its sign and at least two digits. -/
def exponentText (e : Int) : String :=
  let digits := toString e.natAbs
  (if e < 0 then "e-" else "e+") ++ (if digits.length < 2 then "0" ++ digits else digits)

/-- A finite positive value as a quotient. -/
def quotient (mantissa : Nat) (exponent : Int) : Nat × Nat :=
  if 0 ≤ exponent then (mantissa * Rounding.twoTo exponent.toNat, 1)
  else (mantissa, Rounding.twoTo (-exponent).toNat)

/-- Digits with a dot after the first one. -/
def pointed (digits : List Char) : List Char :=
  match digits with
  | first :: second :: rest => first :: '.' :: second :: rest
  | ds => ds

/-- Digits whose first one has the given exponent, written without an exponent. -/
def positional (digits : List Char) (e : Int) : List Char :=
  if e < 0 then '0' :: '.' :: List.replicate ((-e).toNat - 1) '0' ++ digits
  else
    let whole := e.toNat + 1
    let shown := digits ++ List.replicate (whole - digits.length) '0'
    shown.take whole ++ (if whole < shown.length then '.' :: shown.drop whole else [])

def dropTrailingZeros (digits : List Char) : List Char :=
  (digits.reverse.dropWhile (· == '0')).reverse

/-- All digits of a decimal: positional for exponents from -4 up to their number. -/
def allDigits (d : Decimal) : String :=
  let digits := Nat.toDigits 10 d.mantissa
  let e := d.exponent + (digits.length - 1 : Nat)
  if -4 ≤ e ∧ e < digits.length then String.ofList (positional digits e)
  else String.ofList (pointed digits) ++ (if e < 0 then "e" else "e+") ++ toString e

/-- One digit before the dot and `places` after it; a zero as zeros. -/
def scientific (places : Nat) (x : Float) : String :=
  match parts x with
  | .finite negative m q =>
    let (digits, e) := if m = 0 then (List.replicate (places + 1) '0', (0 : Int)) else
      let (num, den) := quotient m q
      let (n, e) := Rounding.significant (places + 1) num den
      (Nat.toDigits 10 n, e)
    signText negative ++ String.ofList (pointed digits) ++ exponentText e
  | _ => nonFinite x

/-- A number in an answer: zero bare, any other in scientific form. -/
def answer (places : Nat) (x : Float) : String :=
  match parts x with
  | .finite negative 0 _ => signText negative ++ "0"
  | _ => scientific places x

/-- At most `count` significant digits, positional for exponents from -4 up to `count`. -/
def general (count : Nat) (x : Float) : String :=
  match parts x with
  | .finite negative m q =>
    if m = 0 then signText negative ++ "0" else
      let (num, den) := quotient m q
      let (n, e) := Rounding.significant count num den
      let digits := dropTrailingZeros (Nat.toDigits 10 n)
      signText negative ++
        if -4 ≤ e ∧ e < count then String.ofList (positional digits e)
        else String.ofList (pointed digits) ++ exponentText e
  | _ => nonFinite x

/-- The two neighbours of a positive value on the grid of decimals with `count` digits, nearer one
first. -/
def neighbours (count num den : Nat) : List Decimal :=
  let power := Rounding.leadingExponent num den - (count - 1)
  let (n, d) := Rounding.scale num den (-power)
  let low := n / d
  let near := Rounding.nearest n d
  [⟨near, power⟩, ⟨if near = low then low + 1 else low, power⟩]

/-- The decimal with the fewest digits that reads back as `x`, the nearest of those; `num / den` is
the exact value. Seventeen digits always read back. -/
def shortestDecimal (x : Float) (num den : Nat) : Decimal :=
  let hits := (List.range 17).findSome? fun k =>
    (neighbours (k + 1) num den).find? fun d => d.toFloat false == x
  hits.getD ⟨0, 0⟩

/-- The fewest digits that read back, positional from `0.0001` up to sixteen whole digits, and then
with at least one digit after the dot. -/
def shortest (x : Float) : String :=
  match parts x with
  | .finite negative m q =>
    if m = 0 then signText negative ++ "0.0" else
      let (num, den) := quotient m q
      let d := shortestDecimal x.abs num den
      let e := d.exponent + Rounding.digitCount d.mantissa - 1
      let digits := dropTrailingZeros (Nat.toDigits 10 d.mantissa)
      signText negative ++
        if -4 ≤ e ∧ e < 16 then
          let text := positional digits e
          String.ofList (if text.contains '.' then text else text ++ ['.', '0'])
        else String.ofList (pointed digits) ++ exponentText e
  | _ => nonFinite x

end PhasePortrait.Written
