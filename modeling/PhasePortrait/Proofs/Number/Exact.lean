import Mathlib.Algebra.Order.Floor.Semiring
import Mathlib.Analysis.Real.Sqrt
import Mathlib.Tactic.NormNum
import PhasePortrait.Number.Scalar

/-!
# Exact arithmetic

Scalars are exact if their finite members are the real numbers and calculate as these do. How the
others calculate is left open, so that a statement about exact scalars holds whatever comes of a
right-hand side or a formula that is not defined everywhere. `PartialReal` is the least example: the
real numbers with one more member for every outcome that is none of them.

## Main definitions

* `Exact α` — the scalars `α` calculate exactly with real numbers.
* `PartialReal` — a real number or no number at all.
-/
namespace PhasePortrait
open Scalar

/-- Scalars that calculate exactly with the real numbers, which are their finite members. -/
class Exact (α : Type) [Scalar α] where
  ofReal : ℝ → α
  isFinite_iff : ∀ a : α, isFinite a = true ↔ ∃ x, a = ofReal x
  ofReal_lt : ∀ x y, ofReal x < ofReal y ↔ x < y
  ofReal_le : ∀ x y, ofReal x ≤ ofReal y ↔ x ≤ y
  ofReal_add : ∀ x y, ofReal x + ofReal y = ofReal (x + y)
  ofReal_sub : ∀ x y, ofReal x - ofReal y = ofReal (x - y)
  ofReal_mul : ∀ x y, ofReal x * ofReal y = ofReal (x * y)
  ofReal_neg : ∀ x, -ofReal x = ofReal (-x)
  ofReal_div : ∀ x y, y ≠ 0 → ofReal x / ofReal y = ofReal (x / y)
  abs_ofReal : ∀ x, Scalar.abs (ofReal x) = ofReal |x|
  sqrt_ofReal : ∀ x, 0 ≤ x → Scalar.sqrt (ofReal x) = ofReal √x
  hypot_ofReal : ∀ x y, hypot (ofReal x) (ofReal y) = ofReal √(x * x + y * y)
  natCast_eq : ∀ n : Nat, (n : α) = ofReal n
  ofScientific_eq : ∀ (m : Nat) (s : Bool) (e : Nat),
    (OfScientific.ofScientific m s e : α) = ofReal (OfScientific.ofScientific m s e)
  ofDecimal_eq : ∀ d : Decimal, (ofDecimal d : α) = ofReal (d.mantissa * 10 ^ d.exponent)
  le_ceilNat : ∀ x : ℝ, 0 < x → x ≤ ceilNat (ofReal x)

namespace Exact

attribute [simp] ofReal_lt ofReal_le ofReal_add ofReal_sub ofReal_mul ofReal_neg abs_ofReal
  natCast_eq ofScientific_eq ofDecimal_eq

section
variable {α : Type} [Scalar α] [Exact α] {a b : α}

@[simp] theorem isFinite_ofReal (x : ℝ) : isFinite (ofReal x : α) = true :=
  (isFinite_iff _).mpr ⟨x, rfl⟩

theorem zero_eq_ofReal : (0.0 : α) = ofReal 0 := by
  rw [ofScientific_eq]
  norm_num

theorem isZero_ofReal_iff (x : ℝ) : isZero (ofReal x : α) = true ↔ x = 0 := by
  rw [isZero, same, Bool.and_eq_true, decide_eq_true_iff, decide_eq_true_iff, zero_eq_ofReal,
    ofReal_le, ofReal_le]
  exact le_antisymm_iff.symm

theorem isFinite_add (ha : isFinite a = true) (hb : isFinite b = true) : isFinite (a + b) = true := by
  obtain ⟨x, rfl⟩ := (isFinite_iff a).mp ha
  obtain ⟨y, rfl⟩ := (isFinite_iff b).mp hb
  rw [ofReal_add, isFinite_ofReal]

theorem isFinite_mul (ha : isFinite a = true) (hb : isFinite b = true) : isFinite (a * b) = true := by
  obtain ⟨x, rfl⟩ := (isFinite_iff a).mp ha
  obtain ⟨y, rfl⟩ := (isFinite_iff b).mp hb
  rw [ofReal_mul, isFinite_ofReal]

end

end Exact

/-! ## Reals with one more member -/

/-- A real number, or the outcome of an operation that has none. -/
inductive PartialReal where
  | real (x : ℝ)
  | undefined

namespace PartialReal

/-- An operation that is defined on real numbers alone. -/
def lift (op : ℝ → PartialReal) : PartialReal → PartialReal
  | real x => op x
  | undefined => undefined

def lift₂ (op : ℝ → ℝ → PartialReal) : PartialReal → PartialReal → PartialReal
  | real x, real y => op x y
  | _, _ => undefined

/-- A relation that holds between real numbers alone. -/
def Between (r : ℝ → ℝ → Prop) : PartialReal → PartialReal → Prop
  | real x, real y => r x y
  | _, _ => False

noncomputable instance : Scalar PartialReal where
  add := lift₂ fun x y => real (x + y)
  sub := lift₂ fun x y => real (x - y)
  mul := lift₂ fun x y => real (x * y)
  div := lift₂ fun x y => open Classical in if y = 0 then undefined else real (x / y)
  neg := lift fun x => real (-x)
  lt := Between (· < ·)
  le := Between (· ≤ ·)
  natCast n := real n
  ofScientific m s e := real (OfScientific.ofScientific m s e)
  ofDecimal d := real (d.mantissa * 10 ^ d.exponent)
  isFinite
    | real _ => true
    | undefined => false
  nan := undefined
  abs := lift fun x => real |x|
  sqrt := lift fun x => open Classical in if x < 0 then undefined else real √x
  hypot := lift₂ fun x y => real √(x * x + y * y)
  ceilNat
    | real x => ⌈x⌉₊
    | undefined => 0
  decLt _ _ := Classical.propDecidable _
  decLe _ _ := Classical.propDecidable _

noncomputable instance : Exact PartialReal where
  ofReal := real
  isFinite_iff a := by
    cases a with
    | real x => exact iff_of_true rfl ⟨x, rfl⟩
    | undefined => exact iff_of_false Bool.false_ne_true fun ⟨_, h⟩ => nomatch h
  ofReal_lt _ _ := Iff.rfl
  ofReal_le _ _ := Iff.rfl
  ofReal_add _ _ := rfl
  ofReal_sub _ _ := rfl
  ofReal_mul _ _ := rfl
  ofReal_neg _ := rfl
  ofReal_div _ _ h := if_neg h
  abs_ofReal _ := rfl
  sqrt_ofReal _ h := if_neg h.not_gt
  hypot_ofReal _ _ := rfl
  natCast_eq _ := rfl
  ofScientific_eq _ _ _ := rfl
  ofDecimal_eq _ := rfl
  le_ceilNat x _ := Nat.le_ceil x

end PartialReal

end PhasePortrait
