import PhasePortrait.Proofs.Flow.Stages

/-!
# Segments of a run

A run with a fixed step keeps nothing but its last state, and takes the time of each step from its number.
So how far a run goes decides only where its samples are cut off: a shorter run is the beginning of a
longer one. Where the right-hand side does not depend on time, the states do not depend on it either, and
the rest of a run is the run from any of its states, whenever that one starts.

## Main definitions

* `Rhs.Steady f` — the right-hand side does not depend on time.
* `Integrator.sampleAt f t₀ y₀ h i` — the sample of a run after `i` steps.
-/
namespace PhasePortrait
variable {α : Type} {n : Nat}

/-- The derivative is the same at all times. -/
def Rhs.Steady (f : Rhs α n) : Prop := ∀ t t' y, f t y = f t' y

theorem Rhs.steady_autonomous (field : Point α → Point α) : (Rhs.autonomous field).Steady :=
  fun _ _ _ => rfl

namespace Integrator
variable [Scalar α] {f : Rhs α n} {t₀ h : α} {y₀ : Vector α n}

/-! ## A shorter and a longer run -/

/-- The start is at its own time, whatever the count would make of it. -/
def sampleAt (f : Rhs α n) (t₀ : α) (y₀ : Vector α n) (h : α) : Nat → Sample α n
  | 0 => ⟨t₀, y₀⟩
  | i + 1 => ⟨timeAt t₀ h (i + 1), stateAt f t₀ y₀ h (i + 1)⟩

@[simp] theorem y_sampleAt (f : Rhs α n) (t₀ : α) (y₀ : Vector α n) (h : α) (i : Nat) :
    (sampleAt f t₀ y₀ h i).y = stateAt f t₀ y₀ h i := by
  cases i <;> rfl

theorem toList_rk4_eq_map (f : Rhs α n) (t₀ : α) (y₀ : Vector α n) (h : α) (steps : Nat) :
    (rk4 f t₀ y₀ h steps).toList = (List.range (steps + 1)).map (sampleAt f t₀ y₀ h) := by
  rw [toList_rk4, List.range_succ_eq_map, List.map_cons, List.map_map]
  rfl

theorem getElem?_rk4 (f : Rhs α n) (t₀ : α) (y₀ : Vector α n) (h : α) {steps i : Nat} (hi : i ≤ steps) :
    (rk4 f t₀ y₀ h steps)[i]? = some (sampleAt f t₀ y₀ h i) := by
  rw [← Array.getElem?_toList, toList_rk4_eq_map, List.getElem?_map,
    List.getElem?_range (Nat.lt_succ_of_le hi), Option.map_some]

theorem size_rk4 (f : Rhs α n) (t₀ : α) (y₀ : Vector α n) (h : α) (steps : Nat) :
    (rk4 f t₀ y₀ h steps).size = steps + 1 := by
  rw [← Array.length_toList, toList_rk4_eq_map, List.length_map, List.length_range]

theorem toList_rk4_take (f : Rhs α n) (t₀ : α) (y₀ : Vector α n) (h : α) {count steps : Nat}
    (hle : count ≤ steps) :
    (rk4 f t₀ y₀ h count).toList = (rk4 f t₀ y₀ h steps).toList.take (count + 1) := by
  rw [toList_rk4_eq_map, toList_rk4_eq_map, ← List.map_take, List.take_range,
    Nat.min_eq_left (Nat.succ_le_succ hle)]

/-! ## The rest of a run -/

theorem rk4Step_eq_of_steady (hf : f.Steady) (t t' : α) (y : Vector α n) (h : α) :
    rk4Step f t y h = rk4Step f t' y h := by
  simp only [rk4Step, hf t t', hf (t + h / 2.0) (t' + h / 2.0), hf (t + h) (t' + h)]

/-- The states after some steps are those of a run from there. -/
theorem stateAt_stateAt (hf : f.Steady) (t₁ : α) (count i : Nat) :
    stateAt f t₁ (stateAt f t₀ y₀ h count) h i = stateAt f t₀ y₀ h (count + i) := by
  induction i with
  | zero => rfl
  | succ i ih =>
    rw [← Nat.add_assoc, stateAt, stateAt, ih]
    exact rk4Step_eq_of_steady hf _ _ _ _

theorem states_rk4 (f : Rhs α n) (t₀ : α) (y₀ : Vector α n) (h : α) (steps : Nat) :
    (rk4 f t₀ y₀ h steps).toList.map Sample.y =
      (List.range (steps + 1)).map (stateAt f t₀ y₀ h) := by
  rw [toList_rk4_eq_map, List.map_map]
  exact List.map_congr_left fun i _ => y_sampleAt f t₀ y₀ h i

theorem states_rk4_drop (hf : f.Steady) (t₁ : α) {count steps : Nat} (hle : count ≤ steps) :
    (rk4 f t₁ (stateAt f t₀ y₀ h count) h (steps - count)).toList.map Sample.y =
      ((rk4 f t₀ y₀ h steps).toList.drop count).map Sample.y := by
  obtain ⟨further, rfl⟩ := Nat.exists_eq_add_of_le hle
  have hrange : (List.range (count + further + 1)).drop count =
      (List.range (further + 1)).map (count + ·) := by
    rw [Nat.add_assoc, List.range_add, List.drop_left' List.length_range]
  rw [Nat.add_sub_cancel_left, List.map_drop, states_rk4, states_rk4, ← List.map_drop, hrange,
    List.map_map]
  exact List.map_congr_left fun i _ => stateAt_stateAt hf t₁ count i

end Integrator

open Integrator

/-- **Runs compose.** Each sample of a run with a fixed step is one step after the sample before it, at the
time that is counted from the start, and a run of fewer steps has the first of these samples. Where the
right-hand side does not depend on time, as is so for all systems, the run that starts from one of the
states, at whatever time, goes through the states that are left. -/
theorem rk4_composes {α : Type} [Elementary α] {n : Nat} (f : Rhs α n) (t₀ : α) (y₀ : Vector α n) (h : α)
    {count steps : Nat} (hle : count ≤ steps) :
    (rk4 f t₀ y₀ h steps).size = steps + 1 ∧
    (rk4 f t₀ y₀ h count).toList = (rk4 f t₀ y₀ h steps).toList.take (count + 1) ∧
    (rk4 f t₀ y₀ h steps)[0]? = some ⟨t₀, y₀⟩ ∧
    (∀ i a b, (rk4 f t₀ y₀ h steps)[i]? = some a → (rk4 f t₀ y₀ h steps)[i + 1]? = some b →
      b = ⟨timeAt t₀ h (i + 1), rk4Step f (timeAt t₀ h i) a.y h⟩) ∧
    (∃ a, (rk4 f t₀ y₀ h steps)[count]? = some a ∧ (f.Steady → ∀ t₁,
      (rk4 f t₁ a.y h (steps - count)).toList.map Sample.y =
        ((rk4 f t₀ y₀ h steps).toList.drop count).map Sample.y)) ∧
    (∀ s : PlanarSystem α, s.rhs.Steady) ∧
    ∀ (s : LineSystem α) (params : ParameterValues α), (s.rhs params).Steady := by
  refine ⟨size_rk4 f t₀ y₀ h steps, toList_rk4_take f t₀ y₀ h hle, getElem?_rk4 f t₀ y₀ h steps.zero_le,
    fun i a b ha hb => ?_, ?_, fun s => Rhs.steady_autonomous s.field, fun _ _ _ _ _ => rfl⟩
  · have hi : i + 1 < (rk4 f t₀ y₀ h steps).size := (Array.getElem?_eq_some_iff.mp hb).1
    rw [size_rk4] at hi
    rw [getElem?_rk4 f t₀ y₀ h (by omega)] at ha hb
    rw [← Option.some.inj ha, ← Option.some.inj hb, y_sampleAt]
    rfl
  · refine ⟨_, getElem?_rk4 f t₀ y₀ h hle, fun hf t₁ => ?_⟩
    rw [y_sampleAt]
    exact states_rk4_drop hf t₁ hle

/-- Ten steps of an oscillator between doubles, and the last seven of them once more at another time. -/
theorem rk4_composes_oscillator :
    let f := (PlanarSystem.oscillator (α := Float)).rhs
    let y₀ : Vector Float 2 := #v[1.0, 0.0]
    3 ≤ 10 ∧ f.Steady ∧
      (rk4 f 0.0 y₀ 0.1 3).toList = (rk4 f 0.0 y₀ 0.1 10).toList.take 4 ∧
      ∃ a, (rk4 f 0.0 y₀ 0.1 10)[3]? = some a ∧
        (rk4 f 5.0 a.y 0.1 7).toList.map Sample.y =
          ((rk4 f 0.0 y₀ 0.1 10).toList.drop 3).map Sample.y := by
  intro f y₀
  obtain ⟨-, htake, -, -, ⟨a, ha, hrest⟩, hsteady, -⟩ :=
    rk4_composes f 0.0 y₀ 0.1 (show 3 ≤ 10 by decide)
  exact ⟨by decide, hsteady _, htake, a, ha, hrest (hsteady _) 5.0⟩

end PhasePortrait
