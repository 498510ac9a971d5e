import Mathlib.Tactic.Basic

/-!
# Computations that can fail

A result of a computation in steps comes from a result of its first step.
-/
namespace PhasePortrait

variable {ε α β : Type}

theorem exists_of_bind {x : Except ε α} {k : α → Except ε β} {b : β} (h : x >>= k = .ok b) :
    ∃ a, x = .ok a ∧ k a = .ok b := by
  cases x with
  | error _ => cases h
  | ok a => exact ⟨a, rfl, h⟩

theorem exists_of_map {f : α → β} {x : Except ε α} {b : β} (h : f <$> x = .ok b) :
    ∃ a, x = .ok a ∧ f a = b := by
  cases x with
  | error _ => cases h
  | ok a => exact ⟨a, rfl, Except.ok.inj h⟩

theorem of_all_toOption {x : Except ε α} {p : α → Bool} (h : x.toOption.all p = true) :
    ∀ a, x = .ok a → p a = true := by
  rintro a rfl
  exact h

theorem exists_of_isOk {x : Except ε α} (h : x.isOk = true) : ∃ a, x = .ok a := by
  cases x with
  | error _ => cases h
  | ok a => exact ⟨a, rfl⟩

end PhasePortrait
