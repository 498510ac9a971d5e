import PhasePortrait.Number.Decimal
import PhasePortrait.Number.Rounding

/-!
# Doubles as exact binary numbers

`Float.parts` opens a double as a sign and a whole number times a power of two, and `nearestDouble`
rounds an exact quotient to the nearest double, a half going to the even neighbour. Reading a
decimal goes through the latter, so every decimal literal is rounded once.
-/
namespace PhasePortrait
open Rounding (twoTo)

/-- What a double stands for. A finite one is `mantissa * 2 ^ exponent` with a sign. -/
inductive Parts where
  | nan
  | infinite (negative : Bool)
  | finite (negative : Bool) (mantissa : Nat) (exponent : Int)
deriving DecidableEq, Repr

def Parts.ofBits (bits : Nat) : Parts :=
  let negative := bits / twoTo 63 % 2 == 1
  let exponent : Nat := bits / twoTo 52 % twoTo 11
  let fraction : Nat := bits % twoTo 52
  if exponent = 2047 then (if fraction = 0 then .infinite negative else .nan)
  else if exponent = 0 then .finite negative fraction (-1074)
  else .finite negative (twoTo 52 + fraction) ((exponent : Int) - 1075)

def parts (x : Float) : Parts := Parts.ofBits x.toBits.toNat

/-- The bits of the double nearest to `num / den`; too large a quotient gives infinity. -/
def nearestBits (num den : Nat) : Nat :=
  if num = 0 then 0
  else
    let e : Int := max (-1074) (Rounding.leadingBit num den - 52)
    let (n, d) := Rounding.shift num den (-e)
    let q := Rounding.nearest n d
    -- a full mantissa carries into the exponent field by itself
    let bits := if e = -1074 ∧ q < twoTo 52 then q else (e + 1074).toNat * twoTo 52 + q
    min bits (2047 * twoTo 52)

def nearestDouble (negative : Bool) (num den : Nat) : Float :=
  Float.ofBits (.ofNat (nearestBits num den + if negative then twoTo 63 else 0))

/-- The double nearest to a decimal with a sign. Decimals far outside the range of doubles are
settled by their leading digit alone. -/
def Decimal.toFloat (d : Decimal) (negative : Bool) : Float :=
  let lead := d.exponent + Rounding.digitCount d.mantissa
  if d.mantissa = 0 ∨ lead < -400 then nearestDouble negative 0 1
  else if 400 < lead then nearestDouble negative (twoTo 1100) 1
  else
    let (num, den) := Rounding.scale d.mantissa 1 d.exponent
    nearestDouble negative num den

end PhasePortrait
