import Mathlib.Algebra.BigOperators.Intervals
import Mathlib.Algebra.Order.Archimedean.Basic
import PhasePortrait.Proofs.Flow.Errors
import PhasePortrait.Proofs.Flow.Segments

/-!
# Runs along a curve

There are right-hand sides for which some curve is followed exactly: from each of its points every step
leads to a point of it, so the full step of an attempt and its two half steps meet. A run with a fixed step
then takes samples of the curve. Step doubling finds no error and never rejects an attempt; the length
grows from step to step up to its cap, until an attempt is clipped at the end. This puts down all samples
of the run, whatever the tolerance, and nothing need be known of the right-hand side off the curve.

The curve of an equilibrium is constant.

## Main definitions

* `Traces f curve` — every step from a point of the curve leads to a point of it.
* `cappedLength h₀ i`, `cappedTime t₀ h₀ i` — the length of the `i`-th step if all of them grow, and the
  time before it.
* `clippedLength tEnd t₀ h₀ i` — this length, as far as there is time left.
* `sampleAfter curve t l` — what an attempt of the length `l` comes to at the time `t` of the curve.
* `OnCurve curve p` — the run stands at a point of the curve.
-/
namespace PhasePortrait.Integrator
open Scalar Exact

/-! ## Lengths that grow up to the cap -/

/-- Half as long again each time, but at most four times the first length. -/
noncomputable def cappedLength (h₀ : ℝ) (i : ℕ) : ℝ := min (1.5 ^ i * h₀) (4 * h₀)

noncomputable def cappedTime (t₀ h₀ : ℝ) (i : ℕ) : ℝ := t₀ + ∑ j ∈ Finset.range i, cappedLength h₀ j

noncomputable def clippedLength (tEnd t₀ h₀ : ℝ) (i : ℕ) : ℝ :=
  min (cappedLength h₀ i) (tEnd - cappedTime t₀ h₀ i)

section
variable {t₀ h₀ tEnd : ℝ} {i : ℕ}

@[simp] theorem cappedTime_zero (t₀ h₀ : ℝ) : cappedTime t₀ h₀ 0 = t₀ := by simp [cappedTime]

theorem cappedTime_succ (t₀ h₀ : ℝ) (i : ℕ) :
    cappedTime t₀ h₀ (i + 1) = cappedTime t₀ h₀ i + cappedLength h₀ i := by
  rw [cappedTime, Finset.sum_range_succ, ← add_assoc, cappedTime]

/-- There is time for the whole step. -/
theorem clippedLength_eq_cappedLength (hroom : cappedTime t₀ h₀ (i + 1) ≤ tEnd) :
    clippedLength tEnd t₀ h₀ i = cappedLength h₀ i := by
  rw [cappedTime_succ] at hroom
  exact min_eq_left (by linarith)

/-- The step is the last one. -/
theorem clippedLength_eq_sub (hreached : tEnd ≤ cappedTime t₀ h₀ (i + 1)) :
    clippedLength tEnd t₀ h₀ i = tEnd - cappedTime t₀ h₀ i := by
  rw [cappedTime_succ] at hreached
  exact min_eq_right (by linarith)

theorem cappedLength_zero (hh₀ : 0 < h₀) : cappedLength h₀ 0 = h₀ := by
  rw [cappedLength, pow_zero, one_mul]
  exact min_eq_left (by linarith)

theorem le_cappedLength (hh₀ : 0 < h₀) (i : ℕ) : h₀ ≤ cappedLength h₀ i :=
  le_min (le_mul_of_one_le_left hh₀.le (one_le_pow₀ (by norm_num))) (by linarith)

theorem cappedLength_pos (hh₀ : 0 < h₀) (i : ℕ) : 0 < cappedLength h₀ i :=
  hh₀.trans_le (le_cappedLength hh₀ i)

theorem min_cappedLength (hh₀ : 0 < h₀) (i : ℕ) :
    min (cappedLength h₀ i * 1.5) (h₀ * 4) = cappedLength h₀ (i + 1) := by
  have hcap : h₀ * 4 ≤ 4 * h₀ * 1.5 := by linarith
  rw [cappedLength, min_mul_of_nonneg _ _ (by norm_num : (0 : ℝ) ≤ 1.5), min_assoc, min_eq_right hcap,
    cappedLength, pow_succ, mul_comm h₀ 4, mul_right_comm]

theorem le_cappedTime (hh₀ : 0 < h₀) (i : ℕ) : t₀ + i * h₀ ≤ cappedTime t₀ h₀ i := by
  have hsum := Finset.card_nsmul_le_sum (Finset.range i) (cappedLength h₀) h₀
    fun j _ => le_cappedLength hh₀ j
  rw [Finset.card_range, nsmul_eq_mul] at hsum
  exact add_le_add_right hsum t₀

/-- The end is reached after some steps, and not before. -/
theorem exists_cappedTime (t₀ tEnd : ℝ) (hh₀ : 0 < h₀) :
    ∃ count, (∀ i < count, cappedTime t₀ h₀ i < tEnd) ∧ tEnd ≤ cappedTime t₀ h₀ count := by
  classical
  have hreached : ∃ i, tEnd ≤ cappedTime t₀ h₀ i := by
    obtain ⟨i, hi⟩ := Archimedean.arch (tEnd - t₀) hh₀
    rw [nsmul_eq_mul] at hi
    have hle : t₀ + i * h₀ ≤ cappedTime t₀ h₀ i := le_cappedTime hh₀ i
    exact ⟨i, by linarith⟩
  exact ⟨Nat.find hreached, fun i hi => not_le.mp (Nat.find_min hreached hi), Nat.find_spec hreached⟩

end

/-! ## Steps along a curve -/

variable {α : Type} [Scalar α] [Exact α] {n : ℕ} {f : Rhs α n} {curve : ℝ → Fin n → ℝ}
  {t₀ h₀ tEnd tolerance t h : ℝ}

/-- From a point of the curve, a step of any length leads to the point at its end. -/
def Traces (f : Rhs α n) (curve : ℝ → Fin n → ℝ) : Prop :=
  ∀ t h : ℝ, rk4Step f (ofReal t) (coordinates (curve t)) (ofReal h) = coordinates (curve (t + h))

noncomputable def sampleAfter (curve : ℝ → Fin n → ℝ) (t l : ℝ) : AdaptiveSample α n :=
  ⟨⟨ofReal (t + l), coordinates (curve (t + l))⟩, ofReal l, 0.0⟩

/-- The next attempt starts from a point of the curve, and forward. -/
def OnCurve (curve : ℝ → Fin n → ℝ) (p : Progress α n) : Prop :=
  ∃ t h : ℝ, 0 < h ∧ p = startAt t (coordinates (curve t)) h

namespace Traces

theorem stateAt_eq (hf : Traces f curve) (t₀ h : ℝ) (i : ℕ) :
    stateAt f (ofReal t₀) (coordinates (curve t₀)) (ofReal h) i = coordinates (curve (t₀ + i * h)) := by
  induction i with
  | zero => rw [stateAt, Nat.cast_zero, zero_mul, add_zero]
  | succ i ih =>
    rw [stateAt, timeAt_ofReal, ih, hf, Nat.cast_succ, add_mul, one_mul, add_assoc]

/-- A run with a fixed step takes samples of the curve. -/
theorem toList_rk4 (hf : Traces f curve) (t₀ h : ℝ) (steps : ℕ) :
    (rk4 f (ofReal t₀) (coordinates (curve t₀)) (ofReal h) steps).toList =
      (List.range (steps + 1)).map fun i =>
        ⟨ofReal (t₀ + i * h), coordinates (curve (t₀ + i * h))⟩ := by
  rw [toList_rk4_eq_map]
  refine List.map_congr_left fun i _ => ?_
  cases i with
  | zero => rw [sampleAt, Nat.cast_zero, zero_mul, add_zero]
  | succ i => rw [sampleAt, timeAt_ofReal, hf.stateAt_eq]

theorem doubleStep_eq (hf : Traces f curve) (t h : ℝ) :
    doubleStep f (ofReal t) (coordinates (curve t)) (ofReal h) = coordinates (curve (t + h)) := by
  rw [doubleStep_ofReal, hf, hf, add_assoc, add_halves]

section
variable (hf : Traces f curve) (hh₀ : 0 < h₀) (htolerance : 0 < tolerance)
include hf hh₀ htolerance

/-- An attempt is accepted without an error, and the next one is longer if the cap admits it. -/
theorem attempt_eq (hh : 0 < h) (hend : t < tEnd) :
    attempt f (controlOf tEnd h₀ tolerance) (startAt t (coordinates (curve t)) h) =
      .accepted (sampleAfter curve t (min h (tEnd - t)))
        (startAt (t + min h (tEnd - t)) (coordinates (curve (t + min h (tEnd - t))))
          (min (min h (tEnd - t) * 1.5) (h₀ * 4))) := by
  have hc : (controlOf tEnd h₀ tolerance : Control α).InReals tEnd h₀ := controlOf_inReals hh₀ tolerance
  have hbelow : (ofReal 0 : α) < (controlOf tEnd h₀ tolerance : Control α).tolerance :=
    (ofReal_lt _ _).mpr htolerance
  have hfarBelow : (ofReal 0 : α) < (controlOf tEnd h₀ tolerance : Control α).tolerance / 10.0 := by
    rw [controlOf, ofScientific_eq, ofReal_div _ _ (by norm_num), ofReal_lt]
    exact div_pos htolerance (by norm_num)
  have hmoves : min h (tEnd - t) ≠ 0 := (lt_min hh (sub_pos.mpr hend)).ne'
  rw [attempt_coordinates hc (hf t _) (hf.doubleStep_eq t _), distance_self, if_pos (.inl hbelow),
    if_neg hmoves, grow_eq_ite hc, if_pos hfarBelow, sampleAfter, zero_eq_ofReal]
  rfl

/-- A run that stands on the curve stays on it. -/
theorem onCurve_of_rounds {k : ℕ} {p q : Progress α n}
    (hrounds : Rounds f (controlOf tEnd h₀ tolerance) k p q) (hp : OnCurve curve p) :
    OnCurve curve q := by
  induction hrounds with
  | none p => exact hp
  | @next k p q r hround rest ih =>
    refine ih ?_
    obtain ⟨t, h, hh, rfl⟩ := hp
    have hend : t < tEnd := (ofReal_lt (α := α) _ _).mp hround.before_end
    have hattempt := hf.attempt_eq hh₀ htolerance hh hend
    have hround' : Round f (controlOf tEnd h₀ tolerance) (startAt t (coordinates (curve t)) h) _ :=
      .accepted _ hround.before_end hattempt
    rw [hround.unique hround']
    have hpos : 0 < min h (tEnd - t) := lt_min hh (sub_pos.mpr hend)
    exact ⟨_, _, lt_min (by linarith) (by linarith), rfl⟩

/-- Every attempt of a run is accepted without an error. -/
theorem exists_accepted {k : ℕ} {p : Progress α n}
    (hrounds : Rounds f (controlOf tEnd h₀ tolerance) k (startAt t₀ (coordinates (curve t₀)) h₀) p)
    (hend : p.t < ofReal tEnd) :
    ∃ t l next, attempt f (controlOf tEnd h₀ tolerance) p = .accepted (sampleAfter curve t l) next := by
  obtain ⟨t, h, hh, rfl⟩ := hf.onCurve_of_rounds hh₀ htolerance hrounds ⟨t₀, h₀, hh₀, rfl⟩
  exact ⟨t, _, _, hf.attempt_eq hh₀ htolerance hh ((ofReal_lt _ _).mp hend)⟩

/-! ## A whole run -/

/-- The samples from the `i`-th step on: each attempt is the next one of them, and the last one ends the
run. -/
theorem toList_runAttempts {count : ℕ} (hbefore : ∀ i < count, cappedTime t₀ h₀ i < tEnd)
    (hreached : tEnd ≤ cappedTime t₀ h₀ count) (limit : ℕ) {i : ℕ} (hi : i < count)
    (samples : Array (AdaptiveSample α n)) :
    (runAttempts f (controlOf tEnd h₀ tolerance) limit
      (startAt (cappedTime t₀ h₀ i) (coordinates (curve (cappedTime t₀ h₀ i))) (cappedLength h₀ i))
      samples).toList = samples.toList ++ (List.range' i (min limit (count - i))).map fun j =>
        sampleAfter curve (cappedTime t₀ h₀ j) (clippedLength tEnd t₀ h₀ j) := by
  induction limit generalizing i samples with
  | zero => simp [runAttempts]
  | succ limit ih =>
    have hend := hbefore i hi
    have hgoes : (startAt (cappedTime t₀ h₀ i) (coordinates (curve (cappedTime t₀ h₀ i)))
        (cappedLength h₀ i) : Progress α n).t < (controlOf tEnd h₀ tolerance).tEnd :=
      (ofReal_lt _ _).mpr hend
    rw [runAttempts, if_pos hgoes, hf.attempt_eq hh₀ htolerance (cappedLength_pos hh₀ i) hend,
      ← clippedLength]
    dsimp only
    have hmore : min (limit + 1) (count - i) = min limit (count - (i + 1)) + 1 := by omega
    rw [hmore, List.range'_succ, List.map_cons]
    obtain hnext | hlast := Nat.lt_or_eq_of_le (Nat.succ_le_of_lt hi)
    · -- there is time for the whole step
      rw [clippedLength_eq_cappedLength (hbefore (i + 1) hnext).le, min_cappedLength hh₀,
        ← cappedTime_succ, ih hnext, Array.toList_push, List.append_assoc, List.singleton_append]
    · -- the attempt is clipped, which ends the run
      rw [← hlast] at hreached
      rw [clippedLength_eq_sub hreached, add_sub_cancel,
        runAttempts_of_end ((ofReal_lt _ _).not.mpr (lt_irrefl tEnd)), Array.toList_push, ← hlast,
        Nat.sub_self, Nat.min_zero]
      rfl

/-- The samples of a run that starts on the curve. A limit cuts them short, and without one they go on to
the end. -/
theorem adaptive_eq (t₀ tEnd : ℝ) :
    ∃ count, (∀ i < count, cappedTime t₀ h₀ i < tEnd) ∧ tEnd ≤ cappedTime t₀ h₀ count ∧
      ∀ maxSteps : Option ℕ, ∃ samples,
        adaptive f (ofReal t₀) (coordinates (curve t₀)) (ofReal tEnd) (ofReal h₀) (ofReal tolerance)
          maxSteps = .ok samples ∧
        samples.toList = ⟨⟨ofReal t₀, coordinates (curve t₀)⟩, 0.0, 0.0⟩ ::
          (List.range (min (maxSteps.getD count) count)).map fun i =>
            sampleAfter curve (cappedTime t₀ h₀ i) (clippedLength tEnd t₀ h₀ i) := by
  obtain ⟨count, hbefore, hreached⟩ := exists_cappedTime t₀ tEnd hh₀
  refine ⟨count, hbefore, hreached, fun maxSteps =>
    ⟨_, adaptive_eq_ok f t₀ tEnd (coordinates (curve t₀)) hh₀ htolerance maxSteps, ?_⟩⟩
  have hrun (limit : ℕ) : (runAttempts f (controlOf tEnd h₀ tolerance) limit
      (startAt t₀ (coordinates (curve t₀)) h₀) #[⟨⟨ofReal t₀, coordinates (curve t₀)⟩, 0.0, 0.0⟩]).toList =
        ⟨⟨ofReal t₀, coordinates (curve t₀)⟩, 0.0, 0.0⟩ :: (List.range (min limit count)).map fun i =>
          sampleAfter curve (cappedTime t₀ h₀ i) (clippedLength tEnd t₀ h₀ i) := by
    obtain rfl | hpos := count.eq_zero_or_pos
    · rw [cappedTime_zero] at hreached
      rw [runAttempts_of_end ((ofReal_lt _ _).not.mpr (not_lt.mpr hreached))]
      simp
    · have hsamples := hf.toList_runAttempts hh₀ htolerance hbefore hreached limit hpos
        #[⟨⟨ofReal t₀, coordinates (curve t₀)⟩, 0.0, 0.0⟩]
      rw [cappedTime_zero, cappedLength_zero hh₀, Nat.sub_zero, ← List.range_eq_range'] at hsamples
      exact hsamples
  cases maxSteps with
  | some limit => exact hrun limit
  | none =>
    -- any limit that is not less than the bound will do, and so one that is not less than the count
    have hbound := runAttempts_eq_of_le (f := f) (c := controlOf tEnd h₀ tolerance)
      (p := startAt t₀ (coordinates (curve t₀)) h₀) (fun _ _ => rounds_le_attemptBound hh₀)
      (le_max_left (attemptBound (ofReal t₀ : α) (ofReal tEnd) (ofReal h₀)) count)
      #[⟨⟨ofReal t₀, coordinates (curve t₀)⟩, 0.0, 0.0⟩]
    rw [Option.getD_none, ← hbound, hrun, Option.getD_none, min_eq_right (le_max_right _ _), min_self]

end

end Traces

/-- All steps but the last one have their full length. -/
theorem map_sampleAfter {last : ℕ} (hbefore : ∀ i < last + 1, cappedTime t₀ h₀ i < tEnd)
    (hreached : tEnd ≤ cappedTime t₀ h₀ (last + 1)) :
    (List.range (last + 1)).map (fun i =>
        (sampleAfter curve (cappedTime t₀ h₀ i) (clippedLength tEnd t₀ h₀ i) : AdaptiveSample α n)) =
      (List.range last).map (fun i => sampleAfter curve (cappedTime t₀ h₀ i) (cappedLength h₀ i)) ++
        [sampleAfter curve (cappedTime t₀ h₀ last) (tEnd - cappedTime t₀ h₀ last)] := by
  rw [List.range_succ, List.map_append, List.map_singleton, clippedLength_eq_sub hreached]
  congr 1
  refine List.map_congr_left fun i hi => ?_
  have hroom := hbefore (i + 1) (Nat.succ_lt_succ (List.mem_range.mp hi))
  rw [clippedLength_eq_cappedLength hroom.le]

/-! ## Equilibria -/

/-- The curve of a state at which the derivative is zero at all times is constant. -/
theorem traces_equilibrium {y : Fin n → ℝ}
    (hf : ∀ t, f (ofReal t) (coordinates y) = coordinates 0) : Traces f fun _ => y := by
  intro t h
  -- all four stages are at the equilibrium itself
  rw [rk4Step_ofReal]
  simp only [hf, mul_coordinates, coordinates_add, smul_zero, add_zero]

/-- **Runs rest at an equilibrium.** In exact arithmetic, where the derivative at a state is zero at all
times, whatever it is elsewhere, all samples of a run with a fixed step from there have this state. Step
doubling accepts every attempt without an error and keeps the state, too. Its steps grow by a half up to
four times the first length, until the last one is clipped at the end. -/
theorem rests_at_equilibrium {y : Fin n → ℝ}
    (hf : ∀ t, f (ofReal t) (coordinates y) = coordinates 0) :
    (∀ (t₀ h : ℝ) (steps : ℕ),
      (rk4 f (ofReal t₀) (coordinates y) (ofReal h) steps).toList =
        (List.range (steps + 1)).map fun i => ⟨ofReal (t₀ + i * h), coordinates y⟩) ∧
    ∀ t₀ tEnd h₀ tolerance : ℝ, t₀ < tEnd → 0 < h₀ → 0 < tolerance →
      (∀ k p, Rounds f (controlOf tEnd h₀ tolerance) k (startAt t₀ (coordinates y) h₀) p →
        p.t < ofReal tEnd → ∃ s next, attempt f (controlOf tEnd h₀ tolerance) p = .accepted s next ∧
          s.error = 0.0 ∧ s.y = coordinates y) ∧
      ∃ last samples, (∀ i ≤ last, cappedTime t₀ h₀ i < tEnd) ∧ tEnd ≤ cappedTime t₀ h₀ (last + 1) ∧
        adaptive f (ofReal t₀) (coordinates y) (ofReal tEnd) (ofReal h₀) (ofReal tolerance) none =
          .ok samples ∧
        samples.toList = ⟨⟨ofReal t₀, coordinates y⟩, 0.0, 0.0⟩ ::
          ((List.range last).map (fun i =>
              ⟨⟨ofReal (cappedTime t₀ h₀ (i + 1)), coordinates y⟩, ofReal (cappedLength h₀ i), 0.0⟩) ++
            [⟨⟨ofReal tEnd, coordinates y⟩, ofReal (tEnd - cappedTime t₀ h₀ last), 0.0⟩]) := by
  have htraces := traces_equilibrium hf
  refine ⟨htraces.toList_rk4, fun t₀ tEnd h₀ tolerance hlt hh₀ htolerance => ⟨?_, ?_⟩⟩
  · intro k p hrounds hend
    obtain ⟨t, l, next, hattempt⟩ := htraces.exists_accepted hh₀ htolerance hrounds hend
    exact ⟨_, next, hattempt, rfl, rfl⟩
  · obtain ⟨count, hbefore, hreached, hrun⟩ := htraces.adaptive_eq hh₀ htolerance t₀ tEnd
    obtain ⟨samples, hsamples, hlist⟩ := hrun none
    obtain ⟨last, rfl⟩ : ∃ last, count = last + 1 := by
      refine Nat.exists_eq_succ_of_ne_zero ?_
      rintro rfl
      rw [cappedTime_zero] at hreached
      exact hreached.not_gt hlt
    refine ⟨last, samples, fun i hi => hbefore i (Nat.lt_succ_of_le hi), hreached, hsamples, ?_⟩
    rw [hlist, Option.getD_none, min_self, map_sampleAfter hbefore hreached]
    simp only [sampleAfter, ← cappedTime_succ, add_sub_cancel]

/-- Logistic growth at its capacity. -/
theorem rests_at_equilibrium_logistic :
    let f : Rhs PartialReal 1 := fun _ y => y.map fun x => x * (1.0 - x)
    (∀ t, f (ofReal t) (coordinates 1) = coordinates 0) ∧ (0 : ℝ) < 10 ∧ (0 : ℝ) < 1 ∧
      (rk4 f (ofReal 0) (coordinates 1) (ofReal 1) 10).toList =
        (List.range 11).map (fun i => ⟨ofReal (0 + i * 1), coordinates 1⟩) ∧
      (∀ k p, Rounds f (controlOf 10 1 1) k (startAt 0 (coordinates 1) 1) p → p.t < ofReal 10 →
        ∃ s next, attempt f (controlOf 10 1 1) p = .accepted s next ∧ s.error = 0.0 ∧
          s.y = coordinates 1) ∧
      ∃ last samples, (∀ i ≤ last, cappedTime 0 1 i < 10) ∧ 10 ≤ cappedTime 0 1 (last + 1) ∧
        adaptive f (ofReal 0) (coordinates 1) (ofReal 10) (ofReal 1) (ofReal 1) none = .ok samples ∧
        samples.toList = ⟨⟨ofReal 0, coordinates 1⟩, 0.0, 0.0⟩ ::
          ((List.range last).map (fun i =>
              ⟨⟨ofReal (cappedTime 0 1 (i + 1)), coordinates 1⟩, ofReal (cappedLength 1 i), 0.0⟩) ++
            [⟨⟨ofReal 10, coordinates 1⟩, ofReal (10 - cappedTime 0 1 last), 0.0⟩]) := by
  intro f
  have hf : ∀ t, f (ofReal t) (coordinates 1) = coordinates 0 := by
    intro t
    norm_num [coordinates_one, f]
  obtain ⟨hfixed, hadaptive⟩ := rests_at_equilibrium hf
  obtain ⟨haccepted, hsamples⟩ := hadaptive 0 10 1 1 (by norm_num) one_pos one_pos
  exact ⟨hf, by norm_num, one_pos, hfixed 0 1 10, haccepted, hsamples⟩

end PhasePortrait.Integrator
