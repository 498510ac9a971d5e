import PhasePortrait.Flow.Grid
import PhasePortrait.Flow.Point

/-!
# Direction fields

Planar right-hand sides, sampled at time zero on a rectangular grid, one column after the other.
Grid points where the field is weaker than a tolerance are taken for equilibria, unless one close by
has been taken before.
-/
namespace PhasePortrait
open Scalar
variable {α : Type} [Scalar α]

inductive Stability where
  | stable | unstable | saddle | semiStable | unknown
deriving DecidableEq, Repr

def Stability.label : Stability → String
  | stable => "stable"
  | unstable => "unstable"
  | saddle => "saddle"
  | semiStable => "semi-stable"
  | unknown => "unknown"

/-- A grid point with the field there, its direction and its strength. -/
structure FieldSample (α : Type) where
  position : Point α
  d : Point α
  direction : Point α
  magnitude : α

namespace Field

/-- The derivative of a planar system at a point. -/
@[specialize] def derivative (f : Rhs α 2) (p : Point α) : Point α :=
  .ofVector (f 0.0 p.toVector)

/-- The points of a grid, columns first. -/
def gridPoints (xLow xHigh yLow yHigh : α) (size : Nat) : List (Point α) :=
  (Grid.points xLow xHigh size).flatMap fun x =>
    (Grid.points yLow yHigh size).map fun y => ⟨x, y⟩

/-- The field at a point. Where it has no positive strength its direction is zero. -/
@[specialize] def sampleAt (f : Rhs α 2) (p : Point α) : FieldSample α :=
  let d := derivative f p
  let magnitude := hypot d.x d.y
  let direction := if 0.0 < magnitude then ⟨d.x / magnitude, d.y / magnitude⟩ else ⟨0.0, 0.0⟩
  ⟨p, d, direction, magnitude⟩

@[specialize] def samples (f : Rhs α 2) (xLow xHigh yLow yHigh : α) (size : Nat) :
    Except Refusal (List (FieldSample α)) :=
  if size < 1 then .error .gridTooSmall
  else .ok ((gridPoints xLow xHigh yLow yHigh size).map (sampleAt f))

/-- Candidates for an equilibrium: the field is weaker than the tolerance. -/
@[specialize] def isCandidate (f : Rhs α 2) (tolerance : α) (p : Point α) : Bool :=
  let d := derivative f p
  hypot d.x d.y < tolerance

/-- Keep a point that is farther than `gap` from every point kept before. -/
def keep (gap : α) (kept : Array (Point α)) (p : Point α) : Array (Point α) :=
  if kept.all fun q => gap < q.distance p then kept.push p else kept

/-- The candidates on a grid, less those near an earlier one. -/
@[specialize] def equilibria (f : Rhs α 2) (xLow xHigh yLow yHigh tolerance : α) (size : Nat) :
    Except Refusal (Array (Point α)) :=
  if size < 1 then .error .gridTooSmall
  else .ok <|
    ((gridPoints xLow xHigh yLow yHigh size).filter (isCandidate f tolerance)).foldl
      (keep (tolerance * 10.0)) #[]

def defaultSize : Nat := 20
def defaultEquilibriumSize : Nat := 50
def defaultTolerance : α := 1e-6

end Field

end PhasePortrait
