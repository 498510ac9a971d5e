import PhasePortrait.Number.Rounding
import PhasePortrait.Number.Scalar

/-!
# Finite prefixes of iterations

A trajectory lists the states of an iteration by their index. It goes on as long as the index asks
for more, and ends before the first state that is not finite.
-/
namespace PhasePortrait.Trajectory

/-- Further entries after state `s` of index `i`, at most `fuel` of them. -/
@[specialize] def extend {σ : Type} (step : σ → σ) (isFinite : σ → Bool) (goOn : Nat → Bool) :
    (fuel i : Nat) → σ → Array (Nat × σ) → Array (Nat × σ)
  | 0, _, _, entries => entries
  | fuel + 1, i, s, entries =>
    if goOn i then
      let next := step s
      if isFinite next then extend step isFinite goOn fuel (i + 1) next (entries.push (i + 1, next))
      else entries
    else entries

/-- The start, whatever it is, and a number of steps from it. -/
@[specialize] def ofCount {σ : Type} (step : σ → σ) (isFinite : σ → Bool) (count : Nat) (s : σ) :
    Array (Nat × σ) :=
  extend step isFinite (fun _ => true) count 0 s #[(0, s)]

variable {α : Type} [Scalar α]

/-- The time of an entry. -/
def timeAt (dt : α) : Nat → α
  | 0 => 0.0
  | i + 1 => ((i + 1 : Nat) : α) * dt

/-- The largest double as a count. Longer counts have no times of their own. -/
@[irreducible] def lastCount : Nat := (Rounding.twoTo 53 - 1) * Rounding.twoTo 971

/-- Entries up to the first one whose time reaches the horizon. In exact arithmetic the quotient says
how many steps get there, between doubles any count may. -/
@[specialize] def untilTime {σ : Type} (step : σ → σ) (isFinite : σ → Bool) (dt horizon : α) (s : σ) :
    Array (Nat × σ) :=
  extend step isFinite (fun i => timeAt dt i < horizon)
    (max (Scalar.ceilNat (horizon / dt) + 2) lastCount) 0 s #[(0, s)]

end PhasePortrait.Trajectory
