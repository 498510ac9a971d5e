import Mathlib.Tactic.Basic
import PhasePortrait.Flow.PhaseLine

/-!
# Bisection

The search over a change of sign is a walk that halves a range, each time to the half whose ends lie on
different sides. It arrives at the middle of the last range, whatever has ended it.

## Main definitions

* `PhaseLine.Halving f p q` — one step of the search, from the range `p` to its half `q`.
* `PhaseLine.Halvings f k p q` — `k` steps.
-/
namespace PhasePortrait.PhaseLine
open Scalar

section
variable {α : Type} [Scalar α] {f : α → α} {a b a' b' : α} {k : Nat}

/-- The middle of a range. -/
def middle (a b : α) : α := 0.5 * (a + b)

/-- The search goes on with one half of a range if `f` is finite and not zero at its middle. -/
inductive Halving (f : α → α) : α × α → α × α → Prop
  | upper {a b : α} (hfinite : isFinite (f (middle a b)) = true)
      (hzero : isZero (f (middle a b)) = false)
      (hside : decide (f a < 0.0) = decide (f (middle a b) < 0.0)) :
      Halving f (a, b) (middle a b, b)
  | lower {a b : α} (hfinite : isFinite (f (middle a b)) = true)
      (hzero : isZero (f (middle a b)) = false)
      (hside : decide (f a < 0.0) ≠ decide (f (middle a b) < 0.0)) :
      Halving f (a, b) (a, middle a b)

inductive Halvings (f : α → α) : Nat → α × α → α × α → Prop
  | refl (p : α × α) : Halvings f 0 p p
  | step {k : Nat} {p q r : α × α} (h : Halving f p q) (hs : Halvings f k q r) :
      Halvings f (k + 1) p r

/-- The search arrives at the middle of the range that it has come to. It has come there by all its
steps, or can make none from there. -/
theorem bisectFrom_eq (f : α → α) (count : Nat) (a b : α) :
    ∃ k a' b', k ≤ count ∧ Halvings f k (a, b) (a', b') ∧
      bisectFrom f count a b (f a) = middle a' b' ∧
      (k = count ∨ isFinite (f (middle a' b')) = false ∨ isZero (f (middle a' b')) = true) := by
  induction count generalizing a b with
  | zero => exact ⟨0, a, b, Nat.le_refl 0, .refl _, rfl, .inl rfl⟩
  | succ count ih =>
    rw [bisectFrom]
    change ∃ k a' b', _ ∧ _ ∧ (if !isFinite (f (middle a b)) then middle a b
      else if isZero (f (middle a b)) then middle a b
      else if decide (f a < 0.0) == decide (f (middle a b) < 0.0) then
        bisectFrom f count (middle a b) b (f (middle a b))
      else bisectFrom f count a (middle a b) (f a)) = _ ∧ _
    split
    · next h => exact ⟨0, a, b, Nat.zero_le _, .refl _, rfl, .inr (.inl (by simpa using h))⟩
    · next hfinite =>
      replace hfinite : isFinite (f (middle a b)) = true := by simpa using hfinite
      split
      · next h => exact ⟨0, a, b, Nat.zero_le _, .refl _, rfl, .inr (.inr h)⟩
      · next hzero =>
        replace hzero : isZero (f (middle a b)) = false := by simpa using hzero
        split
        · next hside =>
          obtain ⟨k, a', b', hk, hs, heq, hend⟩ := ih (middle a b) b
          have hstep : Halving f (a, b) (middle a b, b) :=
            .upper hfinite hzero (by simpa using hside)
          exact ⟨k + 1, a', b', Nat.succ_le_succ hk, .step hstep hs, heq, hend.imp_left (congrArg (· + 1))⟩
        · next hside =>
          obtain ⟨k, a', b', hk, hs, heq, hend⟩ := ih a (middle a b)
          have hstep : Halving f (a, b) (a, middle a b) :=
            .lower hfinite hzero (by simpa using hside)
          exact ⟨k + 1, a', b', Nat.succ_le_succ hk, .step hstep hs, heq, hend.imp_left (congrArg (· + 1))⟩

/-- The ends of the range stay on their sides. -/
theorem Halvings.sides {p q : α × α} (h : Halvings f k p q)
    (hp : decide (f p.1 < 0.0) ≠ decide (f p.2 < 0.0)) :
    decide (f q.1 < 0.0) = decide (f p.1 < 0.0) ∧ decide (f q.2 < 0.0) = decide (f p.2 < 0.0) := by
  induction h with
  | refl => exact ⟨rfl, rfl⟩
  | step hstep _ ih =>
    cases hstep with
    | upper _ _ hside =>
      obtain ⟨hlow, hhigh⟩ := ih (by rwa [← hside])
      exact ⟨hlow.trans hside.symm, hhigh⟩
    | lower _ _ hside =>
      obtain ⟨hlow, hhigh⟩ := ih hside
      -- neither the middle nor the upper end is on the side of the lower end
      exact ⟨hlow, hhigh.trans ((Bool.eq_not.mpr hside.symm).trans (Bool.eq_not.mpr hp.symm).symm)⟩
end

end PhasePortrait.PhaseLine
