import PhasePortrait.Proofs.Flow.Prefixes

/-!
# The undefined state absorbs

A formula may ignore its variables, so that finite derivatives come out of a state that is not finite.
The step from such a state is undefined nevertheless: its outcome is a sum with the state as a term, and
a sum with a term that is not finite is not finite either. So an iteration that has left the finite
states does not come back, and a trajectory that ends there misses no finite state.

## Main definitions

* `Trajectory.Absorbing step isFinite undefined` — a step has finite outcomes or the undefined one, and
  the undefined one from every state that is not finite.
-/
namespace PhasePortrait

/-! ## Iterations -/

namespace Trajectory

variable {σ : Type} {step : σ → σ} {isFinite : σ → Bool} {undefined s : σ} {j k count : Nat}

/-- Outcomes of the step are finite or undefined, and undefined from a state that is not finite. -/
structure Absorbing (step : σ → σ) (isFinite : σ → Bool) (undefined : σ) : Prop where
  finite_or_undefined (s : σ) : isFinite (step s) = true ∨ step s = undefined
  undefined_of_not_finite (s : σ) : isFinite s = false → step s = undefined
  not_finite : isFinite undefined = false

namespace Absorbing

theorem of_forall (hundefined : isFinite undefined = false)
    (h : ∀ s, step s = undefined ∨ isFinite s = true ∧ isFinite (step s) = true) :
    Absorbing step isFinite undefined where
  finite_or_undefined s := (h s).symm.imp_left And.right
  undefined_of_not_finite s hs := (h s).resolve_right fun hfinite => by
    rw [hs] at hfinite
    exact absurd hfinite.1 Bool.false_ne_true
  not_finite := hundefined

/-- All states after one that is not finite are undefined. -/
theorem iterate_eq (h : Absorbing step isFinite undefined) (hj : isFinite (step^[j] s) = false)
    (hjk : j < k) : step^[k] s = undefined := by
  induction k, Nat.succ_le_of_lt hjk using Nat.le_induction with
  | base =>
    rw [Function.iterate_succ_apply']
    exact h.undefined_of_not_finite _ hj
  | succ k hle ih =>
    rw [Function.iterate_succ_apply', ih hle]
    exact h.undefined_of_not_finite _ h.not_finite

theorem isFinite_of_le (h : Absorbing step isFinite undefined)
    (hk : isFinite (step^[k] s) = true) (hjk : j ≤ k) : isFinite (step^[j] s) = true := by
  rcases hjk.eq_or_lt with rfl | hlt
  · exact hk
  · refine (Bool.eq_false_or_eq_true _).resolve_right fun hj => ?_
    rw [h.iterate_eq hj hlt, h.not_finite] at hk
    cases hk

/-- No finite state is cut off. -/
theorem mem_upTo (h : Absorbing step isFinite undefined) (hk : isFinite (step^[k] s) = true)
    (hle : k ≤ count) : (k, step^[k] s) ∈ upTo step isFinite s count := by
  cases k with
  | zero => exact List.mem_cons_self
  | succ k =>
    obtain ⟨more, rfl⟩ := Nat.exists_eq_add_of_le hle
    have hall : ∀ j ∈ List.range (k + 1), isFinite (step^[j + 1] s) = true := fun j hj =>
      h.isFinite_of_le hk (Nat.succ_le_of_lt (List.mem_range.mp hj))
    refine List.mem_cons_of_mem _ (List.mem_map.mpr ⟨k, ?_, rfl⟩)
    rw [List.range_add, List.takeWhile_append_of_pos hall]
    exact List.mem_append_left _ (List.mem_range.mpr k.lt_succ_self)

end Absorbing

end Trajectory

/-! ## Steps of systems -/

open Scalar Trajectory

namespace PlanarSystem

/-- A step is undefined, or goes from a finite state to a finite one. -/
theorem step_eq_or (s : PlanarSystem Float) (dt : Float) (p : Point Float) :
    s.step dt p = .undefined ∨ p.isFinite = true ∧ (s.step dt p).isFinite = true := by
  rw [step]
  split
  · dsimp only
    split
    · split
      · next hfinite =>
        -- the coordinates are the first terms of the sums that are finite here
        obtain ⟨hx, hy⟩ := Bool.and_eq_true_iff.mp hfinite
        refine .inr ⟨Bool.and_eq_true_iff.mpr ⟨?_, ?_⟩, hfinite⟩
        · exact (Double.isFinite_of_add hx).1
        · exact (Double.isFinite_of_add hy).1
      · exact .inl rfl
    · exact .inl rfl
  · exact .inl rfl

theorem absorbing_step (s : PlanarSystem Float) (dt : Float) :
    Absorbing (s.step dt) Point.isFinite .undefined :=
  .of_forall rfl (s.step_eq_or dt)

end PlanarSystem

namespace LineSystem

variable {s : LineSystem Float} {params : ParameterValues Float} {dt : Float} {step : Float → Float}

theorem finiteOrNaN_add_eq_or (x d : Float) :
    finiteOrNaN (x + d) = nan ∨ isFinite x = true ∧ isFinite (finiteOrNaN (x + d)) = true := by
  rw [finiteOrNaN]
  split
  · next hfinite => exact .inr ⟨(Double.isFinite_of_add hfinite).1, hfinite⟩
  · exact .inl rfl

/-- Either kind of step is `nan`, or goes from a finite state to a finite one. -/
theorem step_eq_or (h : step ∈ [s.rk4Step params dt, s.eulerStep params dt]) (x : Float) :
    step x = nan ∨ isFinite x = true ∧ isFinite (step x) = true := by
  rcases List.mem_pair.mp h with rfl | rfl
  · rw [rk4Step]
    split
    · exact finiteOrNaN_add_eq_or x _
    · exact .inl rfl
  · rw [eulerStep]
    split
    · exact finiteOrNaN_add_eq_or x _
    · exact .inl rfl

theorem absorbing_step (h : step ∈ [s.rk4Step params dt, s.eulerStep params dt]) :
    Absorbing step isFinite nan :=
  .of_forall rfl (step_eq_or h)

end LineSystem

/-- **Steps are finite or undefined, and the undefined state absorbs.** A step of a planar system has two
finite coordinates or is undefined in both, a step of a line system is finite or `nan`, and from a state
that is not finite it is undefined. So all states after one that is not finite are undefined, and no
finite state is cut off from a trajectory. -/
theorem steps_absorbing :
    (∀ (s : PlanarSystem Float) (dt : Float), Absorbing (s.step dt) Point.isFinite .undefined ∧
      ∀ start : Point Float,
        (∀ j k, ((s.step dt)^[j] start).isFinite = false → j < k →
          (s.step dt)^[k] start = .undefined) ∧
        ∀ k steps, ((s.step dt)^[k] start).isFinite = true → k ≤ steps →
          (k, (s.step dt)^[k] start) ∈ s.trajectory dt steps start) ∧
    ∀ (s : LineSystem Float) (params : ParameterValues Float) (dt : Float),
      ∀ step ∈ [s.rk4Step params dt, s.eulerStep params dt], Absorbing step isFinite nan ∧
        ∀ x₀ : Float,
          (∀ j k, isFinite (step^[j] x₀) = false → j < k → step^[k] x₀ = nan) ∧
          ∀ k horizon count, isFinite (step^[k] x₀) = true → Ends dt horizon count → k ≤ count →
            (k, step^[k] x₀) ∈ LineSystem.trajectory step dt horizon x₀ := by
  refine ⟨fun s dt => ?_, fun s params dt step hstep => ?_⟩
  · have h := s.absorbing_step dt
    refine ⟨h, fun start => ⟨fun j k hj hjk => h.iterate_eq hj hjk, fun k steps hk hle => ?_⟩⟩
    rw [← Array.mem_toList_iff, s.toList_trajectory]
    exact h.mem_upTo hk hle
  · have h := LineSystem.absorbing_step hstep
    refine ⟨h, fun x₀ => ⟨fun j k hj hjk => h.iterate_eq hj hjk,
      fun k horizon count hk hcount hle => ?_⟩⟩
    rw [← Array.mem_toList_iff, LineSystem.toList_trajectory step x₀ hcount]
    exact h.mem_upTo hk hle

/-- A drift that does not look at the state: an infinite start is undefined two steps on all the same,
and finite states are entries. -/
theorem steps_absorbing_drift :
    (((PlanarSystem.ofTexts "1" "1").step 0.5)^[0] (⟨1.0 / 0.0, 0.0⟩ : Point Float)).isFinite = false ∧
    ((PlanarSystem.ofTexts "1" "1").step 0.5)^[2] (⟨1.0 / 0.0, 0.0⟩ : Point Float) = .undefined ∧
    (1, ((PlanarSystem.ofTexts "1" "1").step 0.5)^[1] (⟨0.0, 0.0⟩ : Point Float)) ∈
      (PlanarSystem.ofTexts "1" "1").trajectory 0.5 3 ⟨0.0, 0.0⟩ ∧
    ((LineSystem.ofText "1" []).eulerStep [] 0.5)^[2] (1.0 / 0.0 : Float) = nan ∧
    ∃ count, Ends 0.5 1.0 count ∧
      (0, (0.0 : Float)) ∈
        LineSystem.trajectory ((LineSystem.ofText "1" []).rk4Step [] 0.5) 0.5 1.0 0.0 := by
  obtain ⟨-, hplanar⟩ := steps_absorbing.1 (PlanarSystem.ofTexts "1" "1") 0.5
  obtain ⟨-, heuler⟩ := steps_absorbing.2 (LineSystem.ofText "1" []) [] 0.5
    ((LineSystem.ofText "1" []).eulerStep [] 0.5) (List.mem_pair.mpr (.inr rfl))
  obtain ⟨-, hrk4⟩ := steps_absorbing.2 (LineSystem.ofText "1" []) [] 0.5
    ((LineSystem.ofText "1" []).rk4Step [] 0.5) (List.mem_pair.mpr (.inl rfl))
  have hstart : (((PlanarSystem.ofTexts "1" "1").step 0.5)^[0]
      (⟨1.0 / 0.0, 0.0⟩ : Point Float)).isFinite = false := by decide +kernel
  obtain ⟨count, hcount⟩ := exists_ends 0.5 1.0
  exact ⟨hstart, (hplanar _).1 0 2 hstart (by decide),
    (hplanar _).2 1 3 (by decide +kernel) (by decide),
    (heuler _).1 0 2 (by decide +kernel) (by decide),
    count, hcount, (hrk4 _).2 0 1.0 count (by decide +kernel) hcount (Nat.zero_le _)⟩

end PhasePortrait
