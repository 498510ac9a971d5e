import Mathlib.Algebra.Polynomial.Eval.Degree
import Mathlib.Analysis.SpecialFunctions.Integrals.Basic
import Mathlib.Topology.Algebra.Polynomial
import PhasePortrait.Proofs.Flow.Curves

/-!
# Right-hand sides in time alone

Where the derivative is a function of the time, the state of a stage does not matter, and a step of the
integrator weighs the derivatives at its start, its middle and its end by one, four and one. This is the
rule that integrates cubic polynomials exactly. So a step leads along the integral of a cubic, and so do
all runs: what is known of runs along a curve gives their samples, with a fixed step or with step doubling.

## Main definitions

* `integralFrom p t₀ y₀` — the curve through `y₀` at `t₀` whose derivative is `p`.
-/
namespace PhasePortrait.Integrator
open Scalar Exact Polynomial

/-- The step of fourth order weighs three values, as a cubic is integrated. -/
theorem integral_eval_of_natDegree_le {q : ℝ[X]} (hq : q.natDegree ≤ 3) (a h : ℝ) :
    ∫ s in a..a + h, q.eval s = h / 6 * (q.eval a + 4 * q.eval (a + h / 2) + q.eval (a + h)) := by
  have hpower (i : ℕ) : IntervalIntegrable (fun s => q.coeff i * s ^ i) MeasureTheory.volume a (a + h) :=
    Continuous.intervalIntegrable (by fun_prop) _ _
  simp only [eval_eq_sum_range' (Nat.lt_succ_of_le hq)]
  rw [intervalIntegral.integral_finsetSum fun i _ => hpower i]
  simp only [intervalIntegral.integral_const_mul, integral_pow, Finset.sum_range_succ,
    Finset.sum_range_zero]
  push_cast
  ring

variable {α : Type} [Scalar α] [Exact α] {n : ℕ} {f : Rhs α n} {p : Fin n → ℝ[X]}

/-- The integral of `p` from the time `t₀` on, added to the state there. -/
noncomputable def integralFrom (p : Fin n → ℝ[X]) (t₀ : ℝ) (y₀ : Fin n → ℝ) (t : ℝ) : Fin n → ℝ :=
  fun k => y₀ k + ∫ s in t₀..t, (p k).eval s

@[simp] theorem integralFrom_self (p : Fin n → ℝ[X]) (t₀ : ℝ) (y₀ : Fin n → ℝ) :
    integralFrom p t₀ y₀ t₀ = y₀ := by
  funext k
  rw [integralFrom, intervalIntegral.integral_same, add_zero]

/-- The integral up to a later time. -/
theorem integralFrom_add (p : Fin n → ℝ[X]) (t₀ : ℝ) (y₀ : Fin n → ℝ) (t h : ℝ) (k : Fin n) :
    integralFrom p t₀ y₀ (t + h) k = integralFrom p t₀ y₀ t k + ∫ s in t..t + h, (p k).eval s := by
  have hintegrable (a b : ℝ) : IntervalIntegrable (fun s => (p k).eval s) MeasureTheory.volume a b :=
    (p k).continuous.intervalIntegrable a b
  rw [integralFrom, integralFrom, add_assoc,
    intervalIntegral.integral_add_adjacent_intervals (hintegrable _ _) (hintegrable _ _)]

theorem classicalStep_eval (hp : ∀ k, (p k).natDegree ≤ 3) (t₀ : ℝ) (y₀ : Fin n → ℝ) (t h : ℝ) :
    classicalStep (fun t _ k => (p k).eval t) t (integralFrom p t₀ y₀ t) h =
      integralFrom p t₀ y₀ (t + h) := by
  funext k
  rw [integralFrom_add, integral_eval_of_natDegree_le (hp k)]
  simp only [classicalStep, Pi.add_apply, Pi.smul_apply, smul_eq_mul, Nat.cast_ofNat]
  ring

theorem traces_integralFrom (hp : ∀ k, (p k).natDegree ≤ 3)
    (hf : ∀ t y, f (ofReal t) (coordinates y) = coordinates fun k => (p k).eval t) (t₀ : ℝ)
    (y₀ : Fin n → ℝ) : Traces f (integralFrom p t₀ y₀) := by
  intro t h
  rw [rk4Step_coordinates hf, classicalStep_eval hp]

/-- **Cubics in time are integrated exactly.** In exact arithmetic, where the derivative is a polynomial of
the time of degree three at most in each component, every sample of a run has the state at the start plus
the integral up to its time. This holds of a fixed step, with times counted from the start, and of step
doubling under any limit, where the local errors are zero and each sample is one recorded step after the
one before it. -/
theorem cubics_integrated (hp : ∀ k, (p k).natDegree ≤ 3)
    (hf : ∀ t y, f (ofReal t) (coordinates y) = coordinates fun k => (p k).eval t) (t₀ : ℝ)
    (y₀ : Fin n → ℝ) :
    (∀ (h : ℝ) (steps : ℕ),
      (rk4 f (ofReal t₀) (coordinates y₀) (ofReal h) steps).toList =
        (List.range (steps + 1)).map fun i =>
          ⟨ofReal (t₀ + i * h), coordinates (integralFrom p t₀ y₀ (t₀ + i * h))⟩) ∧
    ∀ (tEnd h₀ tolerance : ℝ) (maxSteps : Option ℕ), 0 < h₀ → 0 < tolerance →
      ∃ samples steps,
        adaptive f (ofReal t₀) (coordinates y₀) (ofReal tEnd) (ofReal h₀) (ofReal tolerance) maxSteps =
          .ok samples ∧
        samples.toList = ⟨⟨ofReal t₀, coordinates y₀⟩, 0.0, 0.0⟩ :: steps ∧
        (∀ s ∈ steps, s.error = 0.0 ∧
          ∃ t, s.t = ofReal t ∧ s.y = coordinates (integralFrom p t₀ y₀ t)) ∧
        samples.toList.IsChain fun a b => b.t = a.t + b.h := by
  have htraces := traces_integralFrom hp hf t₀ y₀
  refine ⟨fun h steps => ?_, fun tEnd h₀ tolerance maxSteps hh₀ htolerance => ?_⟩
  · have hlist := htraces.toList_rk4 t₀ h steps
    rwa [integralFrom_self] at hlist
  · obtain ⟨count, -, -, hrun⟩ := htraces.adaptive_eq hh₀ htolerance t₀ tEnd
    obtain ⟨samples, hsamples, hlist⟩ := hrun maxSteps
    rw [integralFrom_self] at hsamples hlist
    refine ⟨samples, _, hsamples, hlist, fun s hs => ?_,
      (isChain_of_adaptive hsamples).imp fun a b hfollows => hfollows.time⟩
    obtain ⟨i, -, rfl⟩ := List.mem_map.mp hs
    exact ⟨rfl, _, rfl, rfl⟩

/-- A cube and a line in time, both up to the time two. -/
theorem cubics_integrated_cube :
    let p : Fin 2 → ℝ[X] := ![X ^ 3, 1 - X]
    let f : Rhs PartialReal 2 := fun t _ => #v[t * t * t, (1.0 : PartialReal) - t]
    (∀ k, (p k).natDegree ≤ 3) ∧
      (∀ t y, f (ofReal t) (coordinates y) = coordinates fun k => (p k).eval t) ∧
      (0 : ℝ) < 1 / 10 ∧ (0 : ℝ) < 1 ∧
      (rk4 f (ofReal 0) (coordinates 0) (ofReal (1 / 10)) 20).toList =
        (List.range 21).map (fun i =>
          ⟨ofReal (0 + i * (1 / 10)), coordinates (integralFrom p 0 0 (0 + i * (1 / 10)))⟩) ∧
      ∃ samples steps,
        adaptive f (ofReal 0) (coordinates 0) (ofReal 2) (ofReal (1 / 10)) (ofReal 1) none =
          .ok samples ∧
        samples.toList = ⟨⟨ofReal 0, coordinates 0⟩, 0.0, 0.0⟩ :: steps ∧
        (∀ s ∈ steps, s.error = 0.0 ∧
          ∃ t, s.t = ofReal t ∧ s.y = coordinates (integralFrom p 0 0 t)) ∧
        samples.toList.IsChain fun a b => b.t = a.t + b.h := by
  intro p f
  have hp : ∀ k, (p k).natDegree ≤ 3 := by
    intro k
    fin_cases k
    · exact natDegree_X_pow_le 3
    · exact (natDegree_sub_le_of_le natDegree_one.le natDegree_X.le).trans (by norm_num)
  have hf : ∀ t y, f (ofReal t) (coordinates y) = coordinates fun k => (p k).eval t := by
    intro t y
    norm_num [coordinates_two, f, p, pow_succ]
  obtain ⟨hfixed, hadaptive⟩ := cubics_integrated hp hf 0 0
  exact ⟨hp, hf, by norm_num, one_pos, hfixed (1 / 10) 20,
    hadaptive 2 (1 / 10) 1 none (by norm_num) one_pos⟩

end PhasePortrait.Integrator
