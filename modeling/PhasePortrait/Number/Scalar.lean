import PhasePortrait.Number.Decimal

/-!
# Scalars

The numbers that systems are stepped with. A scalar type has arithmetic, a decidable order and a
notion of being finite; nothing is said about rounding, so the same definitions run on doubles and
can be read in exact arithmetic. Comparisons are those of the order: a number that compares with
nothing is not finite and never equal to itself under `Scalar.same`.
-/
namespace PhasePortrait

class Scalar (α : Type) extends Add α, Sub α, Mul α, Div α, Neg α, LT α, LE α, NatCast α,
    OfScientific α where
  /-- The number nearest to a decimal. -/
  ofDecimal : Decimal → α
  isFinite : α → Bool
  /-- The outcome of an undefined operation. -/
  nan : α
  abs : α → α
  sqrt : α → α
  /-- Length of the hypotenuse. -/
  hypot : α → α → α
  /-- A whole number that is not less, for finite positive numbers. -/
  ceilNat : α → Nat
  decLt : ∀ a b : α, Decidable (a < b)
  decLe : ∀ a b : α, Decidable (a ≤ b)

namespace Scalar
variable {α : Type} [Scalar α]

instance (a b : α) : Decidable (a < b) := decLt a b
instance (a b : α) : Decidable (a ≤ b) := decLe a b

/-- Equality as the order sees it; both zeros are the same. -/
@[inline] def same (a b : α) : Bool := a ≤ b && b ≤ a

@[inline] def isZero (a : α) : Bool := same a 0.0

/-- A number that does not even equal itself. -/
@[inline] def isNaN (a : α) : Bool := !same a a

/-- Anything that is not finite becomes `nan`. -/
@[inline] def finiteOrNaN (a : α) : α := if isFinite a then a else nan

end Scalar

/-- Scalars with the elementary functions that formulas may call. -/
class Elementary (α : Type) extends Scalar α where
  pi : α
  e : α
  sin : α → α
  cos : α → α
  tan : α → α
  asin : α → α
  acos : α → α
  atan : α → α
  sinh : α → α
  cosh : α → α
  tanh : α → α
  exp : α → α
  log : α → α
  log10 : α → α
  floor : α → α
  ceil : α → α
  pow : α → α → α

end PhasePortrait
