import PhasePortrait.Flow.Integrator
import PhasePortrait.Flow.System
import PhasePortrait.Proofs.Number.Arithmetic
import PhasePortrait.Proofs.Number.Exact

/-!
# Attempted steps

How many steps a loop attempts is not how many entries it adds: a state that is not finite is dropped,
and a step whose error is too large is made again with half its length. The steps are counted by the
recursions of the loops themselves.

A trajectory attempts no more steps than its indices ask for. In exact arithmetic, an index that is not
less than the quotient of the horizon by the step asks for no more of them.

## Main definitions

* `Trajectory.attempts step isFinite goOn fuel i s` — the steps that `extend` attempts.
* `Trajectory.untilAttempts step isFinite dt horizon s` — the steps of a trajectory up to a horizon.
* `Integrator.attempts f c limit p` — the steps that `runAttempts` attempts.
-/
namespace PhasePortrait
open Scalar

/-! ## Trajectories -/

namespace Trajectory

section
variable {σ : Type} {step : σ → σ} {isFinite : σ → Bool} {goOn : Nat → Bool} {fuel count i : Nat} {s : σ}

/-- The steps that are attempted after state `s` of index `i`, the last one whatever comes of it. -/
@[simp] def attempts (step : σ → σ) (isFinite : σ → Bool) (goOn : Nat → Bool) : (fuel i : Nat) → σ → Nat
  | 0, _, _ => 0
  | fuel + 1, i, s =>
    if goOn i then
      if isFinite (step s) then attempts step isFinite goOn fuel (i + 1) (step s) + 1 else 1
    else 0

/-- No more steps are attempted than there is fuel for, nor than the indices ask for. -/
theorem attempts_le (h : fuel ≤ count ∨ goOn (i + count) = false) :
    attempts step isFinite goOn fuel i s ≤ count := by
  induction fuel generalizing count i s with
  | zero => exact Nat.zero_le _
  | succ fuel ih =>
    rw [attempts]
    split
    · next hgo =>
      cases count with
      | zero =>
        rcases h with hfuel | hstop
        · exact absurd hfuel (Nat.not_succ_le_zero fuel)
        · exact absurd (hgo.symm.trans hstop) Bool.noConfusion
      | succ count =>
        split
        · refine Nat.succ_le_succ (ih (h.imp Nat.le_of_succ_le_succ fun hstop => ?_))
          rwa [Nat.add_assoc, Nat.add_comm 1 count]
        · exact Nat.succ_pos count
    · exact Nat.zero_le _

/-- A step to a state that is not finite is the last one. -/
theorem attempts_le_one (h : isFinite (step s) = false) : attempts step isFinite goOn fuel i s ≤ 1 := by
  cases fuel with
  | zero => exact Nat.zero_le _
  | succ fuel =>
    rw [attempts, h]
    split <;> simp

/-- Every step that is attempted adds an entry, but for a last one at most. -/
theorem exists_toList_extend (step : σ → σ) (isFinite : σ → Bool) (goOn : Nat → Bool) (fuel i : Nat)
    (s : σ) (entries : Array (Nat × σ)) :
    ∃ further, (extend step isFinite goOn fuel i s entries).toList = entries.toList ++ further ∧
      further.length ≤ attempts step isFinite goOn fuel i s ∧
      attempts step isFinite goOn fuel i s ≤ further.length + 1 := by
  induction fuel generalizing i s entries with
  | zero => exact ⟨[], by simp [extend]⟩
  | succ fuel ih =>
    rw [extend, attempts]
    split
    · dsimp only
      split
      · obtain ⟨further, hentries, hle, hge⟩ := ih (i + 1) (step s) (entries.push (i + 1, step s))
        refine ⟨(i + 1, step s) :: further, ?_, Nat.succ_le_succ hle, Nat.succ_le_succ hge⟩
        rw [hentries, Array.toList_push, List.append_assoc, List.singleton_append]
      · exact ⟨[], by simp⟩
    · exact ⟨[], by simp⟩

end

section
variable {α : Type} [Scalar α] {σ : Type} {step : σ → σ} {isFinite : σ → Bool} {s : σ}

/-- The steps that a trajectory up to a horizon attempts. -/
def untilAttempts (step : σ → σ) (isFinite : σ → Bool) (dt horizon : α) (s : σ) : Nat :=
  attempts step isFinite (fun i => timeAt dt i < horizon)
    (max (ceilNat (horizon / dt) + 2) lastCount) 0 s

theorem exists_toList_untilTime (step : σ → σ) (isFinite : σ → Bool) (dt horizon : α) (s : σ) :
    ∃ further, (untilTime step isFinite dt horizon s).toList = (0, s) :: further ∧
      further.length ≤ untilAttempts step isFinite dt horizon s ∧
      untilAttempts step isFinite dt horizon s ≤ further.length + 1 :=
  exists_toList_extend ..

variable [Exact α]

/-- In exact arithmetic the time after so many steps as the quotient says is not before the
horizon. -/
theorem untilAttempts_le {dt horizon : ℝ} {count : Nat} (hdt : 0 < dt) (hcount : 0 < count)
    (h : horizon / dt ≤ count) :
    untilAttempts step isFinite (Exact.ofReal dt : α) (Exact.ofReal horizon) s ≤ count := by
  obtain ⟨count, rfl⟩ := Nat.exists_eq_add_one.mpr hcount
  refine attempts_le (.inr ?_)
  rw [Nat.zero_add, decide_eq_false_iff_not, timeAt, Exact.natCast_eq, Exact.ofReal_mul,
    Exact.ofReal_lt, not_lt]
  exact (div_le_iff₀ hdt).mp h

end

end Trajectory

/-- The steps that a trajectory of a planar system attempts. -/
def PlanarSystem.attempts {α : Type} [Elementary α] (s : PlanarSystem α) (dt : α) (steps : Nat)
    (start : Point α) : Nat :=
  Trajectory.attempts (s.step dt) Point.isFinite (fun _ => true) steps 0 start

theorem PlanarSystem.attempts_le {α : Type} [Elementary α] (s : PlanarSystem α) (dt : α) (steps : Nat)
    (start : Point α) : s.attempts dt steps start ≤ steps :=
  Trajectory.attempts_le (.inl le_rfl)

theorem PlanarSystem.exists_toList_trajectory {α : Type} [Elementary α] (s : PlanarSystem α) (dt : α)
    (steps : Nat) (start : Point α) :
    ∃ further, (s.trajectory dt steps start).toList = (0, start) :: further ∧
      further.length ≤ s.attempts dt steps start := by
  obtain ⟨further, hentries, hle, -⟩ :=
    Trajectory.exists_toList_extend (s.step dt) Point.isFinite (fun _ => true) steps 0 start #[(0, start)]
  exact ⟨further, hentries, hle⟩

namespace LineSystem
variable {s : LineSystem Float} {params : ParameterValues Float} {dt x : Float} {step : Float → Float}

theorem isFinite_of_finiteOrNaN {a : Float} (h : Scalar.isFinite (finiteOrNaN a) = true) :
    a.isFinite = true := by
  unfold finiteOrNaN at h
  split at h
  · exact h
  · cases h

/-- Only steps of a finite length have finite outcomes. -/
theorem isFinite_length (h : step ∈ [s.rk4Step params dt, s.eulerStep params dt])
    (hfinite : Scalar.isFinite (step x) = true) : dt.isFinite = true := by
  rcases List.mem_pair.mp h with rfl | rfl
  · rw [rk4Step] at hfinite
    split at hfinite
    · have hsum := isFinite_of_finiteOrNaN hfinite
      exact Double.isFinite_of_div (Double.isFinite_of_mul (Double.isFinite_of_add hsum).2).1
    · cases hfinite
  · rw [eulerStep] at hfinite
    split at hfinite
    · have hsum := isFinite_of_finiteOrNaN hfinite
      exact (Double.isFinite_of_mul (Double.isFinite_of_add hsum).2).1
    · cases hfinite

end LineSystem

/-! ## Step doubling -/

namespace Integrator
variable {α : Type} [Scalar α] {n : Nat}

/-- The steps that a run attempts, accepted or not. -/
@[simp] def attempts (f : Rhs α n) (c : Control α) : Nat → Progress α n → Nat
  | 0, _ => 0
  | limit + 1, p =>
    if p.t < c.tEnd then
      match attempt f c p with
      | .accepted _ next | .rejected next => attempts f c limit next + 1
      | .diverged | .stalled => 1
    else 0

theorem attempts_le (f : Rhs α n) (c : Control α) (limit : Nat) (p : Progress α n) :
    attempts f c limit p ≤ limit := by
  induction limit generalizing p with
  | zero => exact le_rfl
  | succ limit ih =>
    rw [attempts]
    split
    · split
      · exact Nat.succ_le_succ (ih _)
      · exact Nat.succ_le_succ (ih _)
      · exact Nat.succ_pos limit
      · exact Nat.succ_pos limit
    · exact Nat.zero_le _

/-- A run adds one sample for each attempt at most. -/
theorem exists_toList_runAttempts (f : Rhs α n) (c : Control α) (limit : Nat) (p : Progress α n)
    (samples : Array (AdaptiveSample α n)) :
    ∃ further, (runAttempts f c limit p samples).toList = samples.toList ++ further ∧
      further.length ≤ attempts f c limit p := by
  induction limit generalizing p samples with
  | zero => exact ⟨[], by simp [runAttempts]⟩
  | succ limit ih =>
    have hstop : ∃ further, samples.toList = samples.toList ++ further ∧ further.length ≤ 1 :=
      ⟨[], by simp⟩
    rw [runAttempts, attempts]
    split
    · cases attempt f c p with
      | accepted s next =>
        obtain ⟨further, hfurther, hle⟩ := ih next (samples.push s)
        refine ⟨s :: further, ?_, Nat.succ_le_succ hle⟩
        rw [hfurther, Array.toList_push, List.append_assoc, List.singleton_append]
      | rejected next =>
        obtain ⟨further, hfurther, hle⟩ := ih next samples
        exact ⟨further, hfurther, Nat.le_succ_of_le hle⟩
      | diverged => exact hstop
      | stalled => exact hstop
    · exact ⟨[], by simp⟩

/-- The steps that an adaptive run attempts. -/
def adaptiveAttempts (f : Rhs α n) (t₀ : α) (y₀ : Vector α n) (tEnd h₀ tolerance : α) (limit : Nat) :
    Nat :=
  attempts f ⟨tEnd, tolerance, h₀ * maxGrowth⟩ limit ⟨t₀, y₀, h₀⟩

theorem adaptiveAttempts_le (f : Rhs α n) (t₀ : α) (y₀ : Vector α n) (tEnd h₀ tolerance : α)
    (limit : Nat) : adaptiveAttempts f t₀ y₀ tEnd h₀ tolerance limit ≤ limit :=
  attempts_le ..

theorem exists_toList_adaptive {f : Rhs α n} {t₀ : α} {y₀ : Vector α n} {tEnd h₀ tolerance : α}
    {limit : Nat} {samples : Array (AdaptiveSample α n)}
    (h : adaptive f t₀ y₀ tEnd h₀ tolerance (some limit) = .ok samples) :
    ∃ further, samples.toList = ⟨⟨t₀, y₀⟩, 0.0, 0.0⟩ :: further ∧
      further.length ≤ adaptiveAttempts f t₀ y₀ tEnd h₀ tolerance limit := by
  unfold adaptive at h
  split at h
  · cases h
  split at h
  · cases h
  rw [← Except.ok.inj h]
  exact exists_toList_runAttempts ..

end Integrator

end PhasePortrait
