import PhasePortrait.Proofs.Flow.Linear
import PhasePortrait.Proofs.Flow.Termination

/-!
# Attempts between real coordinates

Where the full step and the two half steps of an attempt come to real coordinates, nothing of it is
left open: its error is the distance of the two outcomes, and whether it is accepted hangs on this
error and on its length alone. So attempts that start at the same time with the same length and come
to states equally far apart go the same way, whatever the states are, and an attempt whose outcomes
coincide is accepted. Where the right-hand side gives real derivatives, a run never leaves the real
coordinates.

## Main definitions

* `distance v w` — the Euclidean distance of two states of real coordinates.
* `AtReals p` — the run stands at a real time, at real coordinates and with a real length.
-/
namespace PhasePortrait.Integrator
open Scalar Exact

/-- The length of the difference. -/
noncomputable def distance {n : ℕ} (v w : Fin n → ℝ) : ℝ := √(∑ i, (v i - w i) * (v i - w i))

@[simp] theorem distance_self {n : ℕ} (v : Fin n → ℝ) : distance v v = 0 := by
  simp [distance]

variable {α : Type} [Scalar α] [Exact α] {n : ℕ} {f : Rhs α n} {c : Control α}

@[simp] theorem coordinates_sub (v w : Fin n → ℝ) :
    (coordinates v : Vector α n) - coordinates w = coordinates (v - w) := by
  ext i hi
  simp [coordinates]

theorem isFinite_coordinates (v : Fin n → ℝ) :
    (coordinates v : Vector α n).all isFinite = true := by
  simp [coordinates]

theorem norm_coordinates_sub (v w : Fin n → ℝ) :
    norm (coordinates v - coordinates w : Vector α n) = ofReal (distance v w) := by
  have hsquares : (coordinates (v - w) : Vector α n).foldl (fun sum x => sum + x * x) 0.0 =
      ofReal (∑ i, (v i - w i) * (v i - w i)) := by
    have hlist : (coordinates (v - w) : Vector α n).toList =
        (List.finRange n).map fun i => ofReal ((v - w) i) := by
      rw [coordinates, Vector.toList_ofFn, List.ofFn_eq_map]
    rw [← Vector.foldl_toList, hlist, List.foldl_map]
    simp only [ofReal_mul, zero_eq_ofReal, foldl_add_ofReal, zero_add, ← Fin.sum_univ_def]
    rfl
  rw [coordinates_sub, norm, hsquares, distance]
  exact sqrt_ofReal _ (Finset.sum_nonneg fun i _ => mul_self_nonneg _)

/-- Two half steps, one after the other. -/
theorem doubleStep_ofReal (f : Rhs α n) (t h : ℝ) (y : Vector α n) :
    doubleStep f (ofReal t) y (ofReal h) =
      rk4Step f (ofReal (t + h / 2)) (rk4Step f (ofReal t) y (ofReal (h / 2))) (ofReal (h / 2)) := by
  rw [doubleStep, half_ofReal, ofReal_add]

/-- An attempt by the outcomes of its steps. -/
theorem attempt_coordinates {tEnd h₀ t h : ℝ} {y full double : Fin n → ℝ} (hc : c.InReals tEnd h₀)
    (hfull : rk4Step f (ofReal t) (coordinates y) (ofReal (min h (tEnd - t))) = coordinates full)
    (hdouble : doubleStep f (ofReal t) (coordinates y) (ofReal (min h (tEnd - t))) =
      coordinates double) :
    attempt f c (startAt t (coordinates y) h) =
      if (ofReal (distance double full) : α) < c.tolerance ∨ min h (tEnd - t) < 1e-10 then
        if min h (tEnd - t) = 0 then .stalled
        else .accepted
          ⟨⟨ofReal (t + min h (tEnd - t)), coordinates double⟩, ofReal (min h (tEnd - t)),
            ofReal (distance double full)⟩
          ⟨ofReal (t + min h (tEnd - t)), coordinates double,
            c.grow (ofReal (min h (tEnd - t))) (ofReal (distance double full))⟩
      else .rejected (startAt t (coordinates y) (min h (tEnd - t) * 0.5)) := by
  have hclip : c.clip (startAt t (coordinates y) h : Progress α n) = ofReal (min h (tEnd - t)) :=
    clip_eq_min hc rfl rfl
  have hstill : same (ofReal (t + min h (tEnd - t)) : α) (ofReal t) = true ↔ min h (tEnd - t) = 0 := by
    rw [same, Bool.and_eq_true, decide_eq_true_iff, decide_eq_true_iff, ofReal_le, ofReal_le,
      ← le_antisymm_iff, add_eq_left]
  have herror : norm (coordinates double - coordinates full : Vector α n) =
      ofReal (distance double full) := norm_coordinates_sub double full
  unfold attempt
  rw [hclip]
  simp only [startAt, hfull, hdouble, herror, minStep_eq, shrinkage_eq, ofReal_add, ofReal_mul, ofReal_lt,
    isFinite_coordinates, hstill, Bool.or_eq_true, decide_eq_true_iff, Bool.not_true, Bool.false_eq_true,
    if_false]

/-! ## Rounds -/

/-- Time, coordinates and length of where the run stands are real. -/
def AtReals (p : Progress α n) : Prop := ∃ t h v, p = startAt t (coordinates v) h

theorem atReals_of_eq {p : Progress α n} {t h : ℝ} {v : Fin n → ℝ} (htime : p.t = ofReal t)
    (hstate : p.y = coordinates v) (hlength : p.h = ofReal h) : AtReals p :=
  ⟨t, h, v, by rw [startAt, ← htime, ← hstate, ← hlength]⟩

section
variable {g : ℝ → (Fin n → ℝ) → Fin n → ℝ} {tEnd h₀ : ℝ} {p next last : Progress α n}
  (hf : ∀ t y, f (ofReal t) (coordinates y) = coordinates (g t y)) (hc : c.InReals tEnd h₀)
include hf hc

namespace AtReals

/-- The two half steps of an attempt come to real coordinates. -/
theorem exists_state (hp : AtReals p) :
    ∃ w, doubleStep f p.t p.y (c.clip p) = (coordinates w : Vector α n) := by
  obtain ⟨t, h, v, rfl⟩ := hp
  rw [clip_eq_min hc rfl rfl, startAt, doubleStep_ofReal, rk4Step_coordinates hf,
    rk4Step_coordinates hf]
  exact ⟨_, rfl⟩

/-- A round leads from real coordinates to real coordinates. -/
theorem round (hp : AtReals p) (hround : Round f c p next) : AtReals next := by
  obtain ⟨w, hw⟩ := hp.exists_state hf hc
  obtain ⟨t, h, v, rfl⟩ := hp
  have hclip : c.clip (startAt t (coordinates v) h : Progress α n) = ofReal (min h (tEnd - t)) :=
    clip_eq_min hc rfl rfl
  cases hround with
  | accepted s _ hattempt =>
    obtain ⟨htime, hgrow⟩ := of_accepted hattempt
    rw [hclip] at htime hgrow
    have htime' : next.t = ofReal (t + min h (tEnd - t)) := htime.trans (ofReal_add _ _)
    have hstate : next.y = coordinates w := by
      cases attempted_of_eq hattempt
      exact hw
    obtain hsame | hlonger := grow_eq_or hc (min h (tEnd - t)) s.error
    · exact atReals_of_eq htime' hstate (hgrow.trans hsame)
    · exact atReals_of_eq htime' hstate (hgrow.trans hlonger)
  | rejected _ hattempt =>
    obtain ⟨-, htime, hlength⟩ := of_rejected hattempt
    have hstate := congrArg Sample.y (sample_of_attempt hattempt)
    rw [hclip, shrinkage_eq, ofReal_mul] at hlength
    exact atReals_of_eq htime hstate hlength

theorem rounds {k : ℕ} (hrounds : Rounds f c k p last) (hp : AtReals p) : AtReals last := by
  induction hrounds with
  | none p => exact hp
  | next hround _ ih => exact ih (hp.round hf hc hround)

end AtReals
end

end PhasePortrait.Integrator
