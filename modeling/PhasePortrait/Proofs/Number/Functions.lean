import Mathlib.Analysis.SpecialFunctions.Log.Base
import Mathlib.Analysis.SpecialFunctions.Pow.Real
import Mathlib.Analysis.SpecialFunctions.Trigonometric.Arctan
import Mathlib.Analysis.SpecialFunctions.Trigonometric.Inverse
import PhasePortrait.Proofs.Number.Exact

/-!
# Elementary functions in exact arithmetic

The elementary functions of real numbers, with no value where they are not defined. A power of a negative
number is defined for whole exponents, and zero has no negative powers.
-/
namespace PhasePortrait.PartialReal
open Scalar

/-- A function that is defined where a condition holds. -/
noncomputable def liftOn (p : ℝ → Prop) (f : ℝ → ℝ) : PartialReal → PartialReal :=
  open Classical in lift fun x => if p x then real (f x) else undefined

/-- A function that is defined everywhere. -/
noncomputable def liftAll (f : ℝ → ℝ) : PartialReal → PartialReal := lift fun x => real (f x)

/-- Where a power has a value. -/
def HasPower (x y : ℝ) : Prop := 0 < x ∨ x = 0 ∧ 0 ≤ y ∨ ∃ n : ℤ, x ≠ 0 ∧ y = n

noncomputable instance : Elementary PartialReal where
  pi := real Real.pi
  e := real (Real.exp 1)
  sin := liftAll Real.sin
  cos := liftAll Real.cos
  tan := liftOn (Real.cos · ≠ 0) Real.tan
  asin := liftOn (· ∈ Set.Icc (-1) 1) Real.arcsin
  acos := liftOn (· ∈ Set.Icc (-1) 1) Real.arccos
  atan := liftAll Real.arctan
  sinh := liftAll Real.sinh
  cosh := liftAll Real.cosh
  tanh := liftAll Real.tanh
  exp := liftAll Real.exp
  log := liftOn (0 < ·) Real.log
  log10 := liftOn (0 < ·) (Real.logb (10 : ℕ))
  floor := liftAll fun x => ⌊x⌋
  ceil := liftAll fun x => ⌈x⌉
  pow := open Classical in lift₂ fun x y => if HasPower x y then real (x ^ y) else undefined

/-- The outcome of an undefined operation is no number. -/
theorem isFinite_nan : isFinite (nan : PartialReal) = false := rfl

end PhasePortrait.PartialReal
