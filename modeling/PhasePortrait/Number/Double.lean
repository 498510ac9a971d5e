import PhasePortrait.Number.Binary
import PhasePortrait.Number.Scalar

/-!
# Doubles as scalars

The running instance. Arithmetic and square root are those of the standard; the elementary
functions are those of the platform.
-/
namespace PhasePortrait.Double

/-- Length of the hypotenuse for `0 ≤ b ≤ a`, both far from the ends of the range: the rounded
square root, mended by one step of its defining equation. -/
def hypotOrdered (a b : Float) : Float :=
  let h := Float.sqrt (a * a + b * b)
  let correction :=
    if h ≤ 2.0 * b then
      let d := h - b
      a * (2.0 * d - a) + (d - 2.0 * (a - b)) * d
    else
      let d := h - a
      2.0 * d * (a - 2.0 * b) + ((4.0 * d - b) * b + d * d)
  h - correction / (2.0 * h)

/-- Length of the hypotenuse. Very long or very short sides are scaled first, and a side below half
a unit in the last place of the other is simply added. -/
def hypot (x y : Float) : Float :=
  if x.isInf || y.isInf then Float.ofBits 0x7ff0000000000000
  else if x.isNaN || y.isNaN then 0.0 / 0.0
  else
    let (a, b) := if x.abs < y.abs then (y.abs, x.abs) else (x.abs, y.abs)
    let unit := Float.ofBits 0x3c90000000000000   -- 2 ^ -54
    let shrink := Float.ofBits 0x1a70000000000000  -- 2 ^ -600
    if b ≤ a * unit then a + b
    else if Float.ofBits 0x5fe0000000000000 < a then  -- above 2 ^ 511
      hypotOrdered (a * shrink) (b * shrink) / shrink
    else if b < Float.ofBits 0x2340000000000000 then  -- below 2 ^ -459
      hypotOrdered (a / shrink) (b / shrink) * shrink
    else hypotOrdered a b

instance : Scalar Float where
  natCast := Float.ofNat
  ofDecimal d := d.toFloat false
  isFinite := Float.isFinite
  nan := 0.0 / 0.0
  abs := Float.abs
  sqrt := Float.sqrt
  hypot := hypot
  ceilNat x := x.ceil.toUInt64.toNat
  decLt := Float.decLt
  decLe := Float.decLe

instance : Elementary Float where
  pi := 3.141592653589793
  e := 2.718281828459045
  sin := Float.sin
  cos := Float.cos
  tan := Float.tan
  asin := Float.asin
  acos := Float.acos
  atan := Float.atan
  sinh := Float.sinh
  cosh := Float.cosh
  tanh := Float.tanh
  exp := Float.exp
  log := Float.log
  log10 := Float.log10
  floor := Float.floor
  ceil := Float.ceil
  pow := Float.pow

end PhasePortrait.Double
