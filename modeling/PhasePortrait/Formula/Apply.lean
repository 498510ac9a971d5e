import PhasePortrait.Formula.Vocabulary
import PhasePortrait.Number.Scalar

/-!
# Values of functions and constants

Every function is defined for all scalars. Outside its domain, and where `exp`, `sinh`, `cosh` or
`pow` would overflow, its value is `nan`, so that a bad point spoils only what is computed from it.
-/
namespace PhasePortrait
variable {α : Type} [Elementary α]
open Scalar

namespace Function

/-- Rounding to the nearest whole number, a half going up. -/
def roundHalfUp (x : α) : α := Elementary.floor (x + 0.5)

/-- The sign of a number, with zero for both zeros. -/
def signOf (x : α) : α :=
  if 0.0 < x then 1.0 else if x < 0.0 then -1.0 else if isZero x then 0.0 else x

/-- The smaller of two numbers; `nan` wins over any number. -/
def smaller (a b : α) : α := if a ≤ b || isNaN a then a else b

/-- The larger of two numbers; `nan` wins over any number. -/
def larger (a b : α) : α := if b ≤ a || isNaN a then a else b

def apply₁ (f : Function) (x : α) : α :=
  match f with
  | abs => Scalar.abs x
  | acos => if 1.0 < Scalar.abs x then nan else Elementary.acos x
  | asin => if 1.0 < Scalar.abs x then nan else Elementary.asin x
  | atan => Elementary.atan x
  | ceil => Elementary.ceil x
  | cos => Elementary.cos x
  | cosh => finiteOrNaN (Elementary.cosh x)
  | exp => finiteOrNaN (Elementary.exp x)
  | floor => Elementary.floor x
  | ln | log => if x ≤ 0.0 then nan else Elementary.log x
  | log10 => if x ≤ 0.0 then nan else Elementary.log10 x
  | round => roundHalfUp x
  | sign => signOf x
  | sin => Elementary.sin x
  | sinh => finiteOrNaN (Elementary.sinh x)
  | sqrt => if x < 0.0 then nan else Scalar.sqrt x
  | tan => Elementary.tan x
  | tanh => Elementary.tanh x
  | max | min | pow => nan

/-- The value of a function; `nan` for a number of arguments that it does not admit. -/
def apply (f : Function) (args : List α) : α :=
  match f, args with
  | pow, [base, exponent] => finiteOrNaN (Elementary.pow base exponent)
  | min, first :: rest => rest.foldl smaller first
  | max, first :: rest => rest.foldl larger first
  | f, [x] => f.apply₁ x
  | _, _ => nan

end Function

def Constant.value : Constant → α
  | pi => Elementary.pi
  | e => Elementary.e

end PhasePortrait
