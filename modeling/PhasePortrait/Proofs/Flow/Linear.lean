import Mathlib.Algebra.BigOperators.Fin
import Mathlib.LinearAlgebra.Matrix.Notation
import Mathlib.Tactic.Module
import PhasePortrait.Proofs.Flow.Stages

/-!
# Linear systems

In exact arithmetic a state of real coordinates stays one, as long as the right-hand side gives real
derivatives: a step of the integrator is then the classical step on vectors of real numbers
(`rk4Step_coordinates`). On `y' = A y` the four stages are products with `A` one after the other, so the
weights of the step put together the exponential series of `h A` up to its fourth term. A run applies this
one matrix again and again.

## Main definitions

* `coordinates v` — the state whose coordinates are the real numbers `v`.
* `classicalStep g t y h` — the step of fourth order for `y' = g t y` on real vectors.
* `truncatedExp B` — the terms of the exponential of `B` up to the fourth power.
* `linear A` — the right-hand side `y' = A y`, row by row.
-/
namespace PhasePortrait.Integrator
open Scalar Exact Matrix

variable {α : Type} [Scalar α] [Exact α] {n : ℕ} {f : Rhs α n}

/-! ## Real coordinates -/

/-- The state with these coordinates. -/
def coordinates (v : Fin n → ℝ) : Vector α n := Vector.ofFn fun i => ofReal (v i)

@[simp] theorem get_coordinates (v : Fin n → ℝ) (i : Fin n) :
    (coordinates v : Vector α n).get i = ofReal (v i) :=
  Vector.getElem_ofFn i.isLt

theorem coordinates_one (v : Fin 1 → ℝ) : (coordinates v : Vector α 1) = #v[ofReal (v 0)] := rfl

theorem coordinates_two (v : Fin 2 → ℝ) :
    (coordinates v : Vector α 2) = #v[ofReal (v 0), ofReal (v 1)] := rfl

@[simp] theorem coordinates_add (v w : Fin n → ℝ) :
    (coordinates v : Vector α n) + coordinates w = coordinates (v + w) := by
  ext i hi
  simp [coordinates]

@[simp] theorem mul_coordinates (c : ℝ) (v : Fin n → ℝ) :
    (ofReal c : α) * (coordinates v : Vector α n) = coordinates (c • v) := by
  ext i hi
  simp [coordinates]

theorem timeAt_ofReal (t₀ h : ℝ) (i : ℕ) :
    timeAt (ofReal t₀ : α) (ofReal h) i = ofReal (t₀ + i * h) := by
  rw [timeAt, natCast_eq, ofReal_mul, ofReal_add]

/-- The weighted mean of four slopes, the inner ones counted twice. -/
noncomputable def classicalStep (g : ℝ → (Fin n → ℝ) → Fin n → ℝ) (t : ℝ) (y : Fin n → ℝ) (h : ℝ) : Fin n → ℝ :=
  let k₁ := g t y
  let k₂ := g (t + h / (2 : ℕ)) (y + (h / (2 : ℕ)) • k₁)
  let k₃ := g (t + h / (2 : ℕ)) (y + (h / (2 : ℕ)) • k₂)
  let k₄ := g (t + h) (y + h • k₃)
  y + (h / (6 : ℕ)) • (k₁ + ((2 : ℕ) : ℝ) • k₂ + ((2 : ℕ) : ℝ) • k₃ + k₄)

theorem half_ofReal (h : ℝ) : (ofReal h : α) / 2.0 = ofReal (h / 2) := by
  rw [ofScientific_eq, ofReal_div _ _ (by norm_num)]
  norm_num

/-- The stages of a step at a real time and of a real length. -/
theorem rk4Step_ofReal (f : Rhs α n) (t h : ℝ) (y : Vector α n) :
    rk4Step f (ofReal t) y (ofReal h) =
      let k₁ := f (ofReal t) y
      let k₂ := f (ofReal (t + h / 2)) (y + (ofReal (h / 2) : α) * k₁)
      let k₃ := f (ofReal (t + h / 2)) (y + (ofReal (h / 2) : α) * k₂)
      let k₄ := f (ofReal (t + h)) (y + (ofReal h : α) * k₃)
      y + (ofReal (h / 6) : α) * (k₁ + (ofReal 2 : α) * k₂ + (ofReal 2 : α) * k₃ + k₄) := by
  have htwo : (2.0 : α) = ofReal 2 := by
    rw [ofScientific_eq]
    norm_num
  have hsixth : (ofReal h : α) / 6.0 = ofReal (h / 6) := by
    rw [ofScientific_eq, ofReal_div _ _ (by norm_num)]
    norm_num
  simp only [rk4Step, half_ofReal, hsixth, ofReal_add]
  rw [htwo]

/-- Where the derivatives of the states that `e` puts in place are put in place by it as well, so is the
step. -/
theorem rk4Step_linearMap {m : ℕ} {e : (Fin m → ℝ) →ₗ[ℝ] Fin n → ℝ} {g : ℝ → (Fin m → ℝ) → Fin m → ℝ}
    (hf : ∀ t y, f (ofReal t) (coordinates (e y)) = coordinates (e (g t y))) (t h : ℝ) (y : Fin m → ℝ) :
    rk4Step f (ofReal t) (coordinates (e y)) (ofReal h) = coordinates (e (classicalStep g t y h)) := by
  rw [rk4Step_ofReal]
  simp only [hf, mul_coordinates, coordinates_add, ← map_smul, ← map_add]
  rfl

/-- Where the derivatives are real, so is the step. -/
theorem rk4Step_coordinates {g : ℝ → (Fin n → ℝ) → Fin n → ℝ}
    (hf : ∀ t y, f (ofReal t) (coordinates y) = coordinates (g t y)) (t h : ℝ) (y : Fin n → ℝ) :
    rk4Step f (ofReal t) (coordinates y) (ofReal h) = coordinates (classicalStep g t y h) :=
  rk4Step_linearMap (e := LinearMap.id) hf t h y

/-! ## The truncated exponential -/

/-- The terms of the exponential series up to the fourth power. -/
noncomputable def truncatedExp (B : Matrix (Fin n) (Fin n) ℝ) : Matrix (Fin n) (Fin n) ℝ :=
  1 + B + ((2 : ℕ) : ℝ)⁻¹ • B ^ 2 + ((6 : ℕ) : ℝ)⁻¹ • B ^ 3 + ((24 : ℕ) : ℝ)⁻¹ • B ^ 4

/-- A step multiplies the state by the truncated exponential. -/
theorem classicalStep_mulVec (A : Matrix (Fin n) (Fin n) ℝ) (t h : ℝ) (y : Fin n → ℝ) :
    classicalStep (fun _ y => A *ᵥ y) t y h = truncatedExp (h • A) *ᵥ y := by
  -- both sides are combinations of the products of `y` with the powers of `A`
  simp only [classicalStep, truncatedExp, smul_pow, mulVec_add, mulVec_smul, mulVec_mulVec,
    add_mulVec, smul_mulVec, one_mulVec]
  simp only [pow_succ, pow_zero, one_mul, mul_assoc, Nat.cast_ofNat]
  module

/-- Powers of the truncated exponential lead along a run. -/
theorem stateAt_coordinates {A : Matrix (Fin n) (Fin n) ℝ}
    (hf : ∀ t y, f (ofReal t) (coordinates y) = coordinates (A *ᵥ y)) (t₀ h : ℝ) (y₀ : Fin n → ℝ)
    (i : ℕ) : stateAt f (ofReal t₀) (coordinates y₀) (ofReal h) i =
      coordinates (truncatedExp (h • A) ^ i *ᵥ y₀) := by
  induction i with
  | zero => rw [stateAt, pow_zero, one_mulVec]
  | succ i ih => rw [stateAt, timeAt_ofReal, ih, rk4Step_coordinates hf, classicalStep_mulVec,
      mulVec_mulVec, pow_succ']

/-- **On a linear system the integrator applies the truncated exponential.** In exact arithmetic, for
`y' = A y` of any dimension, the sample of a run after `i` of its steps is at the time `t₀ + i h` and has
the `i`-th power of `1 + h A + (h A)² / 2 + (h A)³ / 6 + (h A)⁴ / 24` applied to the start. -/
theorem rk4_eq_truncatedExp {A : Matrix (Fin n) (Fin n) ℝ}
    (hf : ∀ t y, f (ofReal t) (coordinates y) = coordinates (A *ᵥ y)) (t₀ h : ℝ) (y₀ : Fin n → ℝ)
    (steps : ℕ) : (rk4 f (ofReal t₀) (coordinates y₀) (ofReal h) steps).toList =
      (List.range (steps + 1)).map fun i =>
        ⟨ofReal (t₀ + i * h), coordinates (truncatedExp (h • A) ^ i *ᵥ y₀)⟩ := by
  rw [toList_rk4, List.range_succ_eq_map, List.map_cons, List.map_map]
  congr 1
  · simp
  · refine List.map_congr_left fun i _ => ?_
    rw [timeAt_ofReal, stateAt_coordinates hf]
    rfl

/-! ## Right-hand sides by rows -/

/-- Each derivative is a row of `A` times the state. -/
def linear (A : Fin n → Fin n → α) : Rhs α n :=
  fun _ y => .ofFn fun i => (List.finRange n).foldl (fun sum j => sum + A i j * y.get j) 0.0

theorem foldl_add_ofReal (g : Fin n → ℝ) (js : List (Fin n)) (x : ℝ) :
    js.foldl (fun sum j => sum + ofReal (g j)) (ofReal x : α) = ofReal (x + (js.map g).sum) := by
  induction js generalizing x with
  | nil => simp
  | cons j js ih => rw [List.foldl_cons, ofReal_add, ih, List.map_cons, List.sum_cons, add_assoc]

theorem linear_coordinates (A : Matrix (Fin n) (Fin n) ℝ) (t : α) (y : Fin n → ℝ) :
    linear (fun i j => ofReal (A i j)) t (coordinates y) = coordinates (A *ᵥ y) := by
  unfold linear
  simp only [get_coordinates, ofReal_mul, zero_eq_ofReal, foldl_add_ofReal, zero_add,
    ← Fin.sum_univ_def]
  rfl

/-- Ten steps on a rotation. -/
theorem rk4_eq_truncatedExp_rotation :
    let A : Matrix (Fin 2) (Fin 2) ℝ := !![0, 1; -1, 0]
    let f : Rhs PartialReal 2 := linear fun i j => ofReal (A i j)
    (∀ t y, f (ofReal t) (coordinates y) = coordinates (A *ᵥ y)) ∧
      (rk4 f (ofReal 0) (coordinates ![1, 0]) (ofReal (1 / 10)) 10).toList =
        (List.range 11).map fun i => ⟨ofReal (0 + i * (1 / 10)),
          coordinates (truncatedExp ((1 / 10 : ℝ) • A) ^ i *ᵥ ![1, 0])⟩ := by
  intro A f
  have hf : ∀ t y, f (ofReal t) (coordinates y) = coordinates (A *ᵥ y) :=
    fun t y => linear_coordinates A (ofReal t) y
  exact ⟨hf, rk4_eq_truncatedExp hf 0 (1 / 10) ![1, 0] 10⟩

end PhasePortrait.Integrator
