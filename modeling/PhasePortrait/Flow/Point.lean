import PhasePortrait.Flow.Integrator

/-!
# Points of the plane

The states of planar systems by their two coordinates. `Rhs.autonomous` makes a right-hand side of
a field on the plane, which does not depend on time.
-/
namespace PhasePortrait
variable {α : Type}

structure Point (α : Type) where
  x : α
  y : α

namespace Point

def ofVector (v : Vector α 2) : Point α := ⟨v[0], v[1]⟩

def toVector (p : Point α) : Vector α 2 := #v[p.x, p.y]

@[simp] theorem ofVector_toVector (p : Point α) : ofVector p.toVector = p := rfl

variable [Scalar α]

def isFinite (p : Point α) : Bool := Scalar.isFinite p.x && Scalar.isFinite p.y

def undefined : Point α := ⟨Scalar.nan, Scalar.nan⟩

def distance (p q : Point α) : α := Scalar.hypot (p.x - q.x) (p.y - q.y)

end Point

/-- The right-hand side of a field. -/
@[specialize] def Rhs.autonomous (field : Point α → Point α) : Rhs α 2 :=
  fun _ y => (field (.ofVector y)).toVector

end PhasePortrait
