/-!
# Decimal numbers

A decimal is a whole number times a power of ten. `Decimal.read?` reads the unsigned form shared by
formulas and typed-in values: digits with an optional dot, at least one digit, and an optional
exponent. Nothing is rounded here.
-/
namespace PhasePortrait

/-- The number `mantissa * 10 ^ exponent`. -/
structure Decimal where
  mantissa : Nat
  exponent : Int
deriving DecidableEq, Repr, Inhabited

namespace Decimal

/-- The number whose decimal digits these are. -/
def ofDigits (cs : List Char) : Nat :=
  cs.foldl (fun n c => 10 * n + (c.toNat - '0'.toNat)) 0

/-- An exponent part: nothing, or `e` with an optional sign and at least one digit. -/
def readExponent? : List Char → Option Int
  | [] => some 0
  | mark :: rest =>
    if mark != 'e' && mark != 'E' then none
    else
      let (negative, digits) :=
        match rest with
        | '-' :: r => (true, r)
        | '+' :: r => (false, r)
        | r => (false, r)
      if digits.isEmpty || !digits.all Char.isDigit then none
      else some (if negative then -(ofDigits digits : Int) else ofDigits digits)

/-- Read all of a text as an unsigned decimal. -/
def read? (cs : List Char) : Option Decimal :=
  let whole := cs.takeWhile Char.isDigit
  let rest := cs.dropWhile Char.isDigit
  let fraction := match rest with
    | '.' :: r => r.takeWhile Char.isDigit
    | _ => []
  let tail := match rest with
    | '.' :: r => r.dropWhile Char.isDigit
    | r => r
  if whole.isEmpty && fraction.isEmpty then none
  else (readExponent? tail).map fun e => ⟨ofDigits (whole ++ fraction), e - fraction.length⟩

/-- Move factors of ten from the mantissa to the exponent, at most as many as asked for. -/
def shed : Nat → Decimal → Decimal
  | 0, d => d
  | fuel + 1, d =>
    if d.mantissa % 10 = 0 then shed fuel ⟨d.mantissa / 10, d.exponent + 1⟩ else d

/-- The same number with a mantissa that is no multiple of ten, or zero with exponent zero. -/
def normalize (d : Decimal) : Decimal :=
  if d.mantissa = 0 then ⟨0, 0⟩ else shed (Nat.log2 d.mantissa) d

end Decimal

end PhasePortrait
