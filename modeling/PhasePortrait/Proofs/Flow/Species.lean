import Mathlib.LinearAlgebra.Pi
import PhasePortrait.Flow.Model
import PhasePortrait.Proofs.Flow.Errors
import PhasePortrait.Proofs.Flow.Segments

/-!
# Species on their own

Where one of two species is absent, neither model brings it in, and the other one follows a linear
law of its own. The states with only one component that is not zero are a line, and on this line the
right-hand side of the pair is that of the species alone, put in place. Putting in place is linear,
so it commutes with the stages of a step; and it keeps distances, so an attempt of the pair has the
error of the same attempt of the species alone and goes the same way. Hence the two runs go side by
side for any number of steps, rejected attempts included.

## Main definitions

* `Sample.map E`, `AdaptiveSample.map E`, `Integrator.Attempt.map E` — the states mapped by `E`.
* `Integrator.RunsAs E g f y` — all runs of `f` from `E y` are those of `g` from `y`, put in place.
* `Integrator.PutsInPlace E e g f` — at states that `E` puts in place, `f` does what `g` does.
* `Model.alone rate` — a species that grows or decays at a rate.
* `Model.only k` — the states of which the component `k` alone is present.
-/
namespace PhasePortrait
open Scalar Exact

/-! ## Samples in place -/

section
variable {α : Type} {m n : ℕ} (E : Vector α m → Vector α n)

def Sample.map (s : Sample α m) : Sample α n := ⟨s.t, E s.y⟩

def AdaptiveSample.map (s : AdaptiveSample α m) : AdaptiveSample α n := ⟨s.toSample.map E, s.h, s.error⟩

namespace Integrator

def Progress.map (p : Progress α m) : Progress α n := ⟨p.t, E p.y, p.h⟩

def Attempt.map : Attempt α m → Attempt α n
  | .accepted sample next => .accepted (sample.map E) (next.map E)
  | .rejected next => .rejected (next.map E)
  | .diverged => .diverged
  | .stalled => .stalled

end Integrator

end

namespace Integrator
variable {α : Type} [Scalar α] [Exact α] {m n : ℕ}

/-- Runs of `f` from the state `E y` are those of `g` from `y`, with the states put in place by
`E`. -/
structure RunsAs (E : Vector α m → Vector α n) (g : Rhs α m) (f : Rhs α n) (y : Vector α m) : Prop where
  fixed : ∀ (t₀ h : ℝ) (steps : ℕ), rk4 f (ofReal t₀) (E y) (ofReal h) steps =
    (rk4 g (ofReal t₀) y (ofReal h) steps).map (Sample.map E)
  adaptive : ∀ (t₀ tEnd h₀ tolerance : ℝ) (maxSteps : Option ℕ),
    adaptive f (ofReal t₀) (E y) (ofReal tEnd) (ofReal h₀) (ofReal tolerance) maxSteps =
      (adaptive g (ofReal t₀) y (ofReal tEnd) (ofReal h₀) (ofReal tolerance) maxSteps).map
        (Array.map (AdaptiveSample.map E))

/-- Between real coordinates `E` is a linear map `e` that keeps distances, and the derivatives of
`f` at the states in place are those of `g`, put in place. -/
structure PutsInPlace (E : Vector α m → Vector α n) (e : (Fin m → ℝ) →ₗ[ℝ] Fin n → ℝ) (g : Rhs α m)
    (f : Rhs α n) : Prop where
  linear : ∀ v, E (coordinates v) = coordinates (e v)
  isometric : ∀ v w, distance (e v) (e w) = distance v w
  derivative : ∃ d : ℝ → (Fin m → ℝ) → Fin m → ℝ, ∀ t v,
    g (ofReal t) (coordinates v) = coordinates (d t v) ∧
      f (ofReal t) (coordinates (e v)) = coordinates (e (d t v))

namespace PutsInPlace
variable {E : Vector α m → Vector α n} {e : (Fin m → ℝ) →ₗ[ℝ] Fin n → ℝ} {g : Rhs α m} {f : Rhs α n}
  {c : Control α} {tEnd h₀ : ℝ}

/-! ## Steps side by side -/

theorem exists_step (hE : PutsInPlace E e g f) (t h : ℝ) (v : Fin m → ℝ) :
    ∃ w, rk4Step g (ofReal t) (coordinates v) (ofReal h) = coordinates w ∧
      rk4Step f (ofReal t) (coordinates (e v)) (ofReal h) = coordinates (e w) := by
  obtain ⟨d, hd⟩ := hE.derivative
  exact ⟨_, rk4Step_coordinates (fun t v => (hd t v).1) t h v,
    rk4Step_linearMap (fun t v => (hd t v).2) t h v⟩

theorem exists_doubleStep (hE : PutsInPlace E e g f) (t h : ℝ) (v : Fin m → ℝ) :
    ∃ w, doubleStep g (ofReal t) (coordinates v) (ofReal h) = coordinates w ∧
      doubleStep f (ofReal t) (coordinates (e v)) (ofReal h) = coordinates (e w) := by
  obtain ⟨w, hg, hf⟩ := hE.exists_step t (h / 2) v
  rw [doubleStep_ofReal, doubleStep_ofReal, hg, hf]
  exact hE.exists_step (t + h / 2) (h / 2) w

theorem exists_stateAt (hE : PutsInPlace E e g f) (t₀ h : ℝ) (v : Fin m → ℝ) (i : ℕ) :
    ∃ w, stateAt g (ofReal t₀) (coordinates v) (ofReal h) i = coordinates w ∧
      stateAt f (ofReal t₀) (coordinates (e v)) (ofReal h) i = coordinates (e w) := by
  induction i with
  | zero => exact ⟨v, rfl, rfl⟩
  | succ i ih =>
    obtain ⟨w, hg, hf⟩ := ih
    rw [stateAt, stateAt, hg, hf, timeAt_ofReal]
    exact hE.exists_step _ h w

theorem map_startAt (hE : PutsInPlace E e g f) (t h : ℝ) (v : Fin m → ℝ) :
    (startAt t (coordinates v) h).map E = startAt t (coordinates (e v)) h := by
  simp only [startAt, Progress.map, hE.linear]

/-- An attempt in place comes to the same, put in place. -/
theorem attempt_map (hE : PutsInPlace E e g f) (hc : c.InReals tEnd h₀) (t h : ℝ) (v : Fin m → ℝ) :
    attempt f c (startAt t (coordinates (e v)) h) =
      (attempt g c (startAt t (coordinates v) h)).map E := by
  obtain ⟨full, hgfull, hffull⟩ := hE.exists_step t (min h (tEnd - t)) v
  obtain ⟨double, hgdouble, hfdouble⟩ := hE.exists_doubleStep t (min h (tEnd - t)) v
  rw [attempt_coordinates hc hgfull hgdouble, attempt_coordinates hc hffull hfdouble, hE.isometric]
  split
  · split
    · rfl
    · simp only [Attempt.map, AdaptiveSample.map, Sample.map, Progress.map, hE.linear]
  · rw [Attempt.map, hE.map_startAt]

/-- A run of the species alone goes on from real coordinates. -/
theorem exists_of_round (hE : PutsInPlace E e g f) (hc : c.InReals tEnd h₀) {t h : ℝ} {v : Fin m → ℝ}
    {next : Progress α m} (hround : Round g c (startAt t (coordinates v) h) next) :
    ∃ t' h' w, next = startAt t' (coordinates w) h' := by
  obtain ⟨d, hd⟩ := hE.derivative
  exact AtReals.round (fun t v => (hd t v).1) hc ⟨t, h, v, rfl⟩ hround

/-! ## Runs side by side -/

theorem runAttempts_map (hE : PutsInPlace E e g f) (hc : c.InReals tEnd h₀) (limit : ℕ) (t h : ℝ)
    (v : Fin m → ℝ) (samples : Array (AdaptiveSample α m)) :
    runAttempts f c limit (startAt t (coordinates (e v)) h) (samples.map (AdaptiveSample.map E)) =
      (runAttempts g c limit (startAt t (coordinates v) h) samples).map (AdaptiveSample.map E) := by
  induction limit generalizing t h v samples with
  | zero => rfl
  | succ limit ih =>
    rw [runAttempts, runAttempts, hE.attempt_map hc]
    by_cases hend : (ofReal t : α) < c.tEnd
    · rw [if_pos (by exact hend), if_pos (by exact hend)]
      cases hattempt : attempt g c (startAt t (coordinates v) h) with
      | accepted s next =>
        obtain ⟨t', h', w, rfl⟩ := hE.exists_of_round hc (.accepted s hend hattempt)
        simp only [Attempt.map, hE.map_startAt, ← Array.map_push]
        exact ih t' h' w (samples.push s)
      | rejected next =>
        obtain ⟨t', h', w, rfl⟩ := hE.exists_of_round hc (.rejected hend hattempt)
        simp only [Attempt.map, hE.map_startAt]
        exact ih t' h' w samples
      | diverged => rfl
      | stalled => rfl
    · rw [if_neg (by exact hend), if_neg (by exact hend)]

/-- All runs go side by side. -/
theorem runsAs (hE : PutsInPlace E e g f) (v : Fin m → ℝ) : RunsAs E g f (coordinates v) where
  fixed t₀ h steps := by
    rw [← Array.toList_inj, Array.toList_map, toList_rk4_eq_map, toList_rk4_eq_map, List.map_map,
      hE.linear]
    refine List.map_congr_left fun i _ => ?_
    cases i with
    | zero => simp only [Function.comp_apply, sampleAt, Sample.map, hE.linear]
    | succ i =>
      obtain ⟨w, hg, hf⟩ := hE.exists_stateAt t₀ h v (i + 1)
      simp only [Function.comp_apply, sampleAt, Sample.map, hg, hf, hE.linear]
  adaptive t₀ tEnd h₀ tolerance maxSteps := by
    unfold Integrator.adaptive
    split
    · rfl
    · next hpos =>
      split
      · rfl
      · rw [zero_eq_ofReal, ofReal_le, not_le] at hpos
        have hc : (controlOf tEnd h₀ tolerance : Control α).InReals tEnd h₀ :=
          controlOf_inReals hpos tolerance
        have hrun := hE.runAttempts_map hc
          (maxSteps.getD (attemptBound (ofReal t₀ : α) (ofReal tEnd) (ofReal h₀))) t₀ h₀ v
          #[⟨⟨ofReal t₀, coordinates v⟩, 0.0, 0.0⟩]
        rw [hE.linear, Except.map]
        refine congrArg _ (Eq.trans ?_ hrun)
        simp only [Array.map_singleton, AdaptiveSample.map, Sample.map, hE.linear]
        rfl

end PutsInPlace

end Integrator

/-! ## One species of two -/

namespace Model
open Integrator
variable {α : Type} [Scalar α] {n : ℕ}

/-- Growth or decay at a rate: `x' = rate x`. -/
def alone (rate : α) : Rhs α 1 := fun _ y => y.map (rate * ·)

/-- The state of which the component `k` alone is present. -/
def only (k : Fin n) (y : Vector α 1) : Vector α n := .ofFn fun i => if i = k then y.get 0 else 0.0

/-- The only component that is present, as a linear map. -/
noncomputable def place (k : Fin n) : (Fin 1 → ℝ) →ₗ[ℝ] Fin n → ℝ :=
  LinearMap.single ℝ (fun _ => ℝ) k ∘ₗ LinearMap.proj 0

theorem place_apply (k : Fin n) (v : Fin 1 → ℝ) : place k v = Pi.single k (v 0) := rfl

theorem distance_place (k : Fin n) (v w : Fin 1 → ℝ) : distance (place k v) (place k w) = distance v w := by
  unfold distance
  congr 1
  rw [Fintype.sum_eq_single k, Fin.sum_univ_one, place_apply, place_apply, Pi.single_eq_same,
    Pi.single_eq_same]
  intro i hi
  rw [place_apply, place_apply, Pi.single_eq_of_ne hi, Pi.single_eq_of_ne hi, sub_self, mul_zero]

variable [Exact α]

theorem only_coordinates (k : Fin n) (v : Fin 1 → ℝ) :
    only k (coordinates v : Vector α 1) = coordinates (place k v) := by
  ext i hi
  simp only [only, coordinates, Vector.getElem_ofFn, place_apply, Pi.single_apply, zero_eq_ofReal]
  split <;> rfl

/-- A species runs as if it were alone if it is the only one whose derivative is not zero, where it
is the only one that is present. -/
theorem runsAs_alone {k : Fin n} {rate : ℝ} {f : Rhs α n}
    (hf : ∀ t x, f (ofReal t) (coordinates (Pi.single k x)) = coordinates (Pi.single k (rate * x)))
    (x : ℝ) : RunsAs (only k) (alone (ofReal rate)) f #v[ofReal x] := by
  have hplace : PutsInPlace (only k) (place k) (alone (ofReal rate)) f :=
    { linear := only_coordinates k
      isometric := distance_place k
      derivative := by
        refine ⟨fun _ v _ => rate * v 0, fun t v => ⟨?_, hf t (v 0)⟩⟩
        simp [coordinates_one, alone] }
  exact hplace.runsAs fun _ => x

/-- The derivatives of two species that meet each other: each has a rate of its own, and a share in
the encounters, of which there are none while one of the two is absent. -/
theorem runsAs_of_encounters {r s p q : ℝ} {f : Rhs α 2}
    (hf : ∀ t v, f (ofReal t) (coordinates v) =
      coordinates ![r * v 0 + p * (v 0 * v 1), s * v 1 + q * (v 0 * v 1)]) (x : ℝ) :
    RunsAs (only 0) (alone (ofReal r)) f #v[ofReal x] ∧
      RunsAs (only 1) (alone (ofReal s)) f #v[ofReal x] := by
  have hfirst : ∀ x : ℝ, ![x, 0] = Pi.single 0 x := by
    intro x
    ext i
    fin_cases i <;> rfl
  have hsecond : ∀ x : ℝ, ![0, x] = Pi.single 1 x := by
    intro x
    ext i
    fin_cases i <;> rfl
  constructor
  · refine runsAs_alone (fun t x => ?_) x
    rw [hf, ← hfirst (r * x)]
    simp
  · refine runsAs_alone (fun t x => ?_) x
    rw [hf, ← hsecond (s * x)]
    simp

theorem lotkaVolterra_coordinates (a b c d : ℝ) (t : α) (v : Fin 2 → ℝ) :
    lotkaVolterra (ofReal a) (ofReal b) (ofReal c) (ofReal d) t (coordinates v) =
      coordinates ![a * v 0 + -b * (v 0 * v 1), -c * v 1 + d * (v 0 * v 1)] := by
  simp [coordinates_two, lotkaVolterra, Rhs.autonomous, Point.ofVector, Point.toVector, sub_eq_add_neg,
    mul_assoc]

theorem sharkTuna_coordinates (delta p beta q : ℝ) (t : α) (v : Fin 2 → ℝ) :
    sharkTuna (ofReal delta) (ofReal p) (ofReal beta) (ofReal q) t (coordinates v) =
      coordinates ![-delta * v 0 + p * (v 0 * v 1), beta * v 1 + -q * (v 0 * v 1)] := by
  simp [coordinates_two, sharkTuna, Rhs.autonomous, Point.ofVector, Point.toVector, sub_eq_add_neg,
    mul_assoc]

/-- **An absent species never appears.** In exact arithmetic, if one of the two populations is
absent at the start, it is so in every sample of every run, with a fixed step or with step doubling
under any settings, and the other population has the samples of a run of its own: prey and tuna grow
at their rate, predators and sharks decay at theirs. -/
theorem absent_species_never_appears (x : ℝ) :
    (∀ a b c d : ℝ,
      RunsAs (α := α) (only 0) (alone (ofReal a))
        (lotkaVolterra (ofReal a) (ofReal b) (ofReal c) (ofReal d)) #v[ofReal x] ∧
      RunsAs (α := α) (only 1) (alone (ofReal (-c)))
        (lotkaVolterra (ofReal a) (ofReal b) (ofReal c) (ofReal d)) #v[ofReal x]) ∧
    ∀ delta p beta q : ℝ,
      RunsAs (α := α) (only 0) (alone (ofReal (-delta)))
        (sharkTuna (ofReal delta) (ofReal p) (ofReal beta) (ofReal q)) #v[ofReal x] ∧
      RunsAs (α := α) (only 1) (alone (ofReal beta))
        (sharkTuna (ofReal delta) (ofReal p) (ofReal beta) (ofReal q)) #v[ofReal x] :=
  ⟨fun a b c d => runsAs_of_encounters (fun t => lotkaVolterra_coordinates a b c d (ofReal t)) x,
    fun delta p beta q =>
      runsAs_of_encounters (fun t => sharkTuna_coordinates delta p beta q (ofReal t)) x⟩

end Model

end PhasePortrait
