import PhasePortrait.Number.Scalar

/-!
# Evenly spaced points

`Grid.points a b n` are the `n + 1` ends of `n` equal parts of a range. The last one is the end of
the range itself, free of rounding.
-/
namespace PhasePortrait.Grid
open Scalar
variable {α : Type} [Scalar α]

/-- The `i`-th of the points. A range too narrow for a step is divided point by point. -/
def point (a b : α) (n i : Nat) : α :=
  if i = n then b
  else
    let step := (b - a) / (n : α)
    if isZero step then (i : α) / (n : α) * (b - a) + a else (i : α) * step + a

@[simp] theorem point_last (a b : α) (n : Nat) : point a b n n = b := if_pos rfl

def points (a b : α) (n : Nat) : List α := (List.range (n + 1)).map (point a b n)

@[simp] theorem length_points (a b : α) (n : Nat) : (points a b n).length = n + 1 := by
  simp [points]

theorem getElem_points (a b : α) (n : Nat) {i : Nat} (h : i < (points a b n).length) :
    (points a b n)[i] = point a b n i := by
  simp [points]

end PhasePortrait.Grid
