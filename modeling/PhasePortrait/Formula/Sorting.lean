/-!
# Sorting

A stable sort by insertion, for the few parts that sums and products have. It recurses on the list
alone.
-/
namespace PhasePortrait

variable {α : Type} (le : α → α → Bool)

/-- Put an element in front of the first one that it may precede. -/
def insertBy (x : α) : List α → List α
  | [] => [x]
  | y :: ys => if le x y then x :: y :: ys else y :: insertBy x ys

/-- The elements in order; where neither of two comes first they stay as they were. -/
def sortBy (xs : List α) : List α := xs.foldr (insertBy le) []

theorem perm_insertBy (x : α) (ys : List α) : (insertBy le x ys).Perm (x :: ys) := by
  induction ys with
  | nil => exact .refl _
  | cons y ys ih =>
    rw [insertBy]
    split
    · exact .refl _
    · exact (ih.cons y).trans (.swap x y ys)

theorem perm_sortBy (xs : List α) : (sortBy le xs).Perm xs := by
  induction xs with
  | nil => exact .refl _
  | cons x xs ih => exact (perm_insertBy le x (sortBy le xs)).trans (ih.cons x)

@[simp] theorem mem_sortBy {x : α} {xs : List α} : x ∈ sortBy le xs ↔ x ∈ xs :=
  (perm_sortBy le xs).mem_iff

end PhasePortrait
