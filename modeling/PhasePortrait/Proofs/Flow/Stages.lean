import Mathlib.Logic.Function.Iterate
import PhasePortrait.Flow.System
import PhasePortrait.Proofs.Evaluation.Shielding
import PhasePortrait.Proofs.Flow.Decoupling
import PhasePortrait.Proofs.Number.Functions

/-!
# Steps of systems are steps of the integrator

A system has a step of its own, which binds its formulas to plain operands, takes half of the time step as
a product and gives up where a stage is not finite. The integrator knows nothing of this: it steps the
right-hand side of the system, which shields its operands, and takes half of the time step as a quotient.
In exact arithmetic both go through the same stages as long as the derivatives at these are finite. For
where a bound formula arrives at a finite value, its evaluation arrives at the same one, so the two move
from stage to stage together; and the outcome of finite numbers is finite. The argument then holds for any
number of steps in a row.

## Main definitions

* `Stages.of d move half whole start` — the derivatives at the four stages of a step.
* `PlanarSystem.stages`, `LineSystem.stages` — those of the steps of systems.
* `Integrator.stateAt f t₀ y₀ h i` — the state of a run with a fixed step after `i` steps.
-/
namespace PhasePortrait
open Formula Scalar Exact

/-! ## Stages -/

/-- The derivatives at the four stages of a step. -/
structure Stages (σ : Type) where
  first : σ
  second : σ
  third : σ
  fourth : σ

namespace Stages
variable {σ τ α : Type}

/-- The derivatives at the start, twice at a state half a step ahead, and a whole step ahead; `move c k`
is the start moved along `k` for the time `c`. -/
def of (d : σ → σ) (move : α → σ → σ) (half whole : α) (start : σ) : Stages σ :=
  let k₁ := d start
  let k₂ := d (move half k₁)
  let k₃ := d (move half k₂)
  let k₄ := d (move whole k₃)
  ⟨k₁, k₂, k₃, k₄⟩

def map (g : σ → τ) (k : Stages σ) : Stages τ := ⟨g k.first, g k.second, g k.third, g k.fourth⟩

/-- The stages weighted by their share in a step. -/
def total [Scalar α] (k : Stages α) : α := k.first + 2.0 * k.second + 2.0 * k.third + k.fourth

/-- A property of all stages. -/
structure All (P : σ → Prop) (k : Stages σ) : Prop where
  first : P k.first
  second : P k.second
  third : P k.third
  fourth : P k.fourth

theorem All.map {P : σ → Prop} {Q : τ → Prop} {g : σ → τ} {k : Stages σ} (h : k.All P)
    (hPQ : ∀ x, P x → Q (g x)) : (k.map g).All Q :=
  ⟨hPQ _ h.first, hPQ _ h.second, hPQ _ h.third, hPQ _ h.fourth⟩

theorem All.and_eq_true {p : σ → Bool} {k : Stages σ} (h : k.All fun x => p x = true) :
    (p k.first && p k.second && p k.third && p k.fourth) = true := by
  rw [h.first, h.second, h.third, h.fourth]
  rfl

/-- Derivatives that agree wherever the first one is good go through the same stages, if all those of the
first one are good. -/
theorem of_eq_of_all {d d' : σ → σ} {move : α → σ → σ} {half whole : α} {start : σ} {P : σ → Prop}
    (h : ∀ q, P (d q) → d' q = d q) (hgood : (of d move half whole start).All P) :
    of d' move half whole start = of d move half whole start := by
  -- each stage is where the one before it has led
  simp only [of, h _ hgood.first, h _ hgood.second, h _ hgood.third, h _ hgood.fourth]

/-- All stages of a derivative that keeps a property are good if moving does so as well. -/
theorem of_all {d : σ → σ} {move : α → σ → σ} {half whole : α} {start : σ} {P : σ → Prop}
    (hd : ∀ q, P q → P (d q)) (hhalf : ∀ k, P k → P (move half k)) (hwhole : ∀ k, P k → P (move whole k))
    (hstart : P start) : (of d move half whole start).All P := by
  have h₁ := hd _ hstart
  have h₂ := hd _ (hhalf _ h₁)
  have h₃ := hd _ (hhalf _ h₂)
  exact ⟨h₁, h₂, h₃, hd _ (hwhole _ h₃)⟩

theorem isFinite_total [Scalar α] [Exact α] {k : Stages α} (h : k.All fun x => isFinite x = true) :
    isFinite k.total = true := by
  have htwo : isFinite (2.0 : α) = true := by rw [ofScientific_eq, isFinite_ofReal]
  exact isFinite_add (isFinite_add (isFinite_add h.first (isFinite_mul htwo h.second))
    (isFinite_mul htwo h.third)) h.fourth

end Stages

/-! ## Time steps -/

section
variable {α : Type} [Scalar α] [Exact α] {dt : α}

theorem half_mul (hdt : isFinite dt = true) : 0.5 * dt = dt / 2.0 := by
  obtain ⟨x, rfl⟩ := (isFinite_iff dt).mp hdt
  rw [ofScientific_eq, ofScientific_eq, ofReal_mul, ofReal_div _ _ (by norm_num)]
  congr 1
  norm_num [div_eq_inv_mul]

theorem isFinite_half_mul (hdt : isFinite dt = true) : isFinite (0.5 * dt) = true :=
  isFinite_mul (by rw [ofScientific_eq, isFinite_ofReal]) hdt

theorem isFinite_sixth (hdt : isFinite dt = true) : isFinite (dt / 6.0) = true := by
  obtain ⟨x, rfl⟩ := (isFinite_iff dt).mp hdt
  rw [ofScientific_eq, ofReal_div _ _ (by norm_num), isFinite_ofReal]

end

/-! ## Runs with a fixed step -/

namespace Integrator
variable {α σ : Type} [Scalar α] {n : Nat} {f : Rhs α n} {t₀ h : α} {y₀ : Vector α n}

/-- The state after so many steps. -/
def stateAt (f : Rhs α n) (t₀ : α) (y₀ : Vector α n) (h : α) : Nat → Vector α n
  | 0 => y₀
  | i + 1 => rk4Step f (timeAt t₀ h i) (stateAt f t₀ y₀ h i) h

/-- The samples of a run and its state after one more step. -/
def advanced (f : Rhs α n) (t₀ h : α) (i : Nat) (run : Array (Sample α n) × Vector α n) :
    Array (Sample α n) × Vector α n :=
  let y := rk4Step f (timeAt t₀ h i) run.2 h
  (run.1.push ⟨timeAt t₀ h (i + 1), y⟩, y)

theorem rk4_eq_fold (f : Rhs α n) (t₀ : α) (y₀ : Vector α n) (h : α) (steps : Nat) :
    rk4 f t₀ y₀ h steps =
      (steps.fold (fun i _ run => advanced f t₀ h i run) (#[⟨t₀, y₀⟩], y₀)).1 := rfl

/-- The start and the state after each step. -/
theorem toList_rk4 (f : Rhs α n) (t₀ : α) (y₀ : Vector α n) (h : α) (steps : Nat) :
    (rk4 f t₀ y₀ h steps).toList = ⟨t₀, y₀⟩ ::
      (List.range steps).map fun i => ⟨timeAt t₀ h (i + 1), stateAt f t₀ y₀ h (i + 1)⟩ := by
  have hfold : ∃ samples, steps.fold (fun i _ run => advanced f t₀ h i run) (#[⟨t₀, y₀⟩], y₀) =
        (samples, stateAt f t₀ y₀ h steps) ∧
      samples.toList = ⟨t₀, y₀⟩ ::
        (List.range steps).map fun i => ⟨timeAt t₀ h (i + 1), stateAt f t₀ y₀ h (i + 1)⟩ := by
    induction steps with
    | zero => exact ⟨_, rfl, rfl⟩
    | succ steps ih =>
      obtain ⟨samples, heq, hlist⟩ := ih
      rw [Nat.fold_succ, heq]
      refine ⟨_, rfl, ?_⟩
      rw [Array.toList_push, hlist, List.range_succ, List.map_append, List.cons_append]
      rfl
  obtain ⟨samples, heq, hlist⟩ := hfold
  rw [rk4_eq_fold, heq, hlist]

theorem back?_rk4 (f : Rhs α n) (t₀ : α) (y₀ : Vector α n) (h : α) (steps : Nat) :
    (rk4 f t₀ y₀ h steps).back?.map Sample.y = some (stateAt f t₀ y₀ h steps) := by
  rw [← Array.getLast?_toList, toList_rk4]
  cases steps with
  | zero => rfl
  | succ steps =>
    rw [List.range_succ, List.map_append, ← List.cons_append]
    exact congrArg (Option.map Sample.y) List.getLast?_concat

/-- A step that does what the integrator does from every good and settled state leads to the states of
its run. -/
theorem stateAt_eq_iterate (step : σ → σ) (toVector : σ → Vector α n) {good settled : σ → Prop}
    (hstep : ∀ s, good s → settled s →
      good (step s) ∧ ∀ t, rk4Step f t (toVector s) h = toVector (step s))
    {s : σ} (hs : good s) {count : Nat} (hsettled : ∀ i < count, settled (step^[i] s)) :
    good (step^[count] s) ∧ stateAt f t₀ (toVector s) h count = toVector (step^[count] s) := by
  induction count with
  | zero => exact ⟨hs, rfl⟩
  | succ count ih =>
    obtain ⟨hgood, hstate⟩ := ih fun i hi => hsettled i (Nat.lt_succ_of_lt hi)
    obtain ⟨hnext, heq⟩ := hstep _ hgood (hsettled count count.lt_succ_self)
    rw [Function.iterate_succ_apply', stateAt, hstate]
    exact ⟨hnext, heq _⟩

end Integrator

/-! ## Bound and evaluated formulas -/

namespace Equation
variable {α : Type} [Elementary α]

theorem value_eq_of_isFinite (hnan : isFinite (nan : α) = false) (q : Equation α)
    {xs ys : List (Operand α)} (h : List.Forall₂ Operand.Exposes xs ys)
    (hfinite : isFinite (q.value xs) = true) : q.value ys = q.value xs := by
  have hne : q.value xs ≠ nan := fun heq => by
    rw [heq, hnan] at hfinite
    cases hfinite
  cases hq : q.outcome with
  | ok c =>
    rw [value_eq hq] at hne ⊢
    rw [value_eq hq]
    exact ((Line.refines_value (Bindings.exposes_zip _ h) _).nan_or_eq.resolve_left hne).symm
  | error fault =>
    refine absurd ?_ hne
    rw [value, hq]

/-- A formula whose evaluation comes to a number at every argument has these as its values. -/
theorem value_of_eval {text : String} {s : Scope} {t : Tree String} {v : List α → α}
    (hread : read (Text.strip text) s = .ok t)
    (htrials : ∀ trial ∈ Battery.trials (α := α) s, trial.2.length = s.names.length)
    (heval : ∀ plain (args : List α), args.length = s.names.length →
      ∃ p, (lineOf t s.names).eval ((Symbol.ofNames s.names).zip (args.map (.ofValue plain))) =
        .ok (.ofValue p (v args)))
    (plain : Bool) (args : List α) (hargs : args.length = s.names.length) :
    (ofText text s).value (args.map (.ofValue plain)) = finiteOrNaN (v args) := by
  have hvalid := outcome_of_passes (α := α) hread fun trial htrial => by
    obtain ⟨p, hp⟩ := heval false trial.2 (htrials trial htrial)
    exact .inl (by rw [outcomeAt, hp]; rfl)
  obtain ⟨p, hp⟩ := heval plain args hargs
  rw [value_eq hvalid, Line.value, hp]
  rfl

end Equation

/-! ## Planar systems -/

section
variable {α : Type} [Scalar α]

/-- The point moved along `k` for the time `c`. -/
def Point.along (p : Point α) (c : α) (k : Point α) : Point α := ⟨p.x + c * k.x, p.y + c * k.y⟩

theorem Point.toVector_add (p q : Point α) :
    p.toVector + q.toVector = (⟨p.x + q.x, p.y + q.y⟩ : Point α).toVector := by
  ext i hi
  match i with
  | 0 => simp [toVector]
  | 1 => simp [toVector]

theorem Point.mul_toVector (c : α) (p : Point α) :
    c * p.toVector = (⟨c * p.x, c * p.y⟩ : Point α).toVector := by
  ext i hi
  match i with
  | 0 => simp [toVector]
  | 1 => simp [toVector]

/-- The point that the stages of a step lead to. -/
def Point.outcome (p : Point α) (dt : α) (k : Stages (Point α)) : Point α :=
  p.along (dt / 6.0) ⟨(k.map Point.x).total, (k.map Point.y).total⟩

theorem Integrator.rk4Step_autonomous (field : Point α → Point α) (t h : α) (p : Point α) :
    rk4Step (.autonomous field) t p.toVector h =
      (p.outcome h (.of field p.along (h / 2.0) h p)).toVector := by
  simp only [rk4Step, Rhs.autonomous, Point.mul_toVector, Point.toVector_add, Point.ofVector_toVector]
  rfl

end

namespace PlanarSystem
variable {α : Type} [Elementary α] {s : PlanarSystem α} {dt : α} {p : Point α}

/-- The derivatives at the stages of a step, over plain or shielded coordinates. -/
def stages (s : PlanarSystem α) (plain : Bool) (dt : α) (p : Point α) : Stages (Point α) :=
  .of (fun q => s.derivatives plain q.x q.y) p.along (0.5 * dt) dt p

/-- The step, which is over plain coordinates, goes through finite derivatives. -/
def FiniteStages (s : PlanarSystem α) (dt : α) (p : Point α) : Prop :=
  (s.stages true dt p).All fun k => k.isFinite = true

/-- Where all derivatives at finite points are finite, so are those at the stages. -/
theorem finiteStages_of_forall [Exact α]
    (h : ∀ q : Point α, q.isFinite = true → (s.derivatives true q.x q.y).isFinite = true)
    (hdt : isFinite dt = true) (hp : p.isFinite = true) : s.FiniteStages dt p := by
  obtain ⟨hx, hy⟩ := Bool.and_eq_true_iff.mp hp
  have halong : ∀ c : α, isFinite c = true → ∀ k : Point α, k.isFinite = true →
      (p.along c k).isFinite = true := by
    intro c hc k hk
    obtain ⟨hkx, hky⟩ := Bool.and_eq_true_iff.mp hk
    exact Bool.and_eq_true_iff.mpr
      ⟨isFinite_add hx (isFinite_mul hc hkx), isFinite_add hy (isFinite_mul hc hky)⟩
  exact Stages.of_all h (halong _ (isFinite_half_mul hdt)) (halong _ hdt) hp

theorem step_eq_outcome (hvalid : s.isValid = true) (hstages : s.FiniteStages dt p)
    (hfinite : (p.outcome dt (s.stages true dt p)).isFinite = true) :
    s.step dt p = p.outcome dt (s.stages true dt p) := by
  rw [step, if_pos hvalid]
  exact (if_pos hstages.and_eq_true).trans (if_pos hfinite)

variable (hnan : isFinite (nan : α) = false)
include hnan

theorem derivatives_eq_of_isFinite {x y : α} (h : (s.derivatives true x y).isFinite = true) :
    s.derivatives false x y = s.derivatives true x y := by
  obtain ⟨hx, hy⟩ := Bool.and_eq_true_iff.mp h
  have hexposes : List.Forall₂ Operand.Exposes [Operand.ofValue true x, .ofValue true y]
      [.ofValue false x, .ofValue false y] :=
    .cons (Operand.exposes_ofValue true x) (.cons (Operand.exposes_ofValue true y) .nil)
  rw [derivatives, derivatives, s.xPrime.value_eq_of_isFinite hnan hexposes hx,
    s.yPrime.value_eq_of_isFinite hnan hexposes hy]

theorem isValid_of_isFinite {x y : α} (h : (s.derivatives true x y).isFinite = true) :
    s.isValid = true := by
  obtain ⟨hx, hy⟩ := Bool.and_eq_true_iff.mp h
  have hvalid : ∀ {q : Equation α} {operands : List (Operand α)},
      isFinite (q.value operands) = true → q.isValid = true := by
    intro q operands hq
    unfold Equation.value at hq
    unfold Equation.isValid
    split at hq
    · next houtcome => rw [houtcome]; rfl
    · rw [hnan] at hq
      cases hq
  exact Bool.and_eq_true_iff.mpr ⟨hvalid hx, hvalid hy⟩

theorem stages_eq (h : s.FiniteStages dt p) :
    s.stages false dt p = s.stages true dt p :=
  Stages.of_eq_of_all (fun _ hq => derivatives_eq_of_isFinite hnan hq) h

/-- One step from a finite point through finite stages. -/
theorem step_spec [Exact α] (hdt : isFinite dt = true) (hp : p.isFinite = true) (h : s.FiniteStages dt p) :
    (s.step dt p).isFinite = true ∧
      ∀ t, Integrator.rk4Step s.rhs t p.toVector dt = (s.step dt p).toVector := by
  have hvalid : s.isValid = true := isValid_of_isFinite hnan h.first
  have hfinite : (p.outcome dt (s.stages true dt p)).isFinite = true := by
    obtain ⟨hx, hy⟩ := Bool.and_eq_true_iff.mp hp
    have hxs := Stages.isFinite_total (h.map (g := Point.x) fun k hk => (Bool.and_eq_true_iff.mp hk).1)
    have hys := Stages.isFinite_total (h.map (g := Point.y) fun k hk => (Bool.and_eq_true_iff.mp hk).2)
    exact Bool.and_eq_true_iff.mpr ⟨isFinite_add hx (isFinite_mul (isFinite_sixth hdt) hxs),
      isFinite_add hy (isFinite_mul (isFinite_sixth hdt) hys)⟩
  have hfield : s.field = fun q => s.derivatives false q.x q.y := by
    funext q
    rw [field, if_pos hvalid]
  rw [step_eq_outcome hvalid h hfinite]
  refine ⟨hfinite, fun t => ?_⟩
  rw [rhs, Integrator.rk4Step_autonomous, hfield, ← half_mul hdt, ← stages_eq hnan h]
  rfl

end PlanarSystem

/-! ## Line systems -/

namespace LineSystem
variable {α : Type} [Elementary α] {s : LineSystem α} {params : ParameterValues α} {dt x : α}

/-- The derivatives at the stages of a step, over a plain or shielded state. -/
def stages (s : LineSystem α) (params : ParameterValues α) (plain : Bool) (dt x : α) : Stages α :=
  .of (fun x => s.xPrime.value (s.xPrime.lineOperands plain x params)) (fun c k => x + c * k) (0.5 * dt)
    dt x

/-- The step, which is over a plain state, goes through finite derivatives. -/
def FiniteStages (s : LineSystem α) (params : ParameterValues α) (dt x : α) : Prop :=
  (s.stages params true dt x).All fun k => isFinite k = true

/-- Where all derivatives at finite states are finite, so are those at the stages. -/
theorem finiteStages_of_forall [Exact α]
    (h : ∀ y, isFinite y = true →
      isFinite (s.xPrime.value (s.xPrime.lineOperands true y params)) = true)
    (hdt : isFinite dt = true) (hx : isFinite x = true) : s.FiniteStages params dt x := by
  have halong : ∀ c : α, isFinite c = true → ∀ k, isFinite k = true → isFinite (x + c * k) = true :=
    fun c hc k hk => isFinite_add hx (isFinite_mul hc hk)
  exact Stages.of_all h (halong _ (isFinite_half_mul hdt)) (halong _ hdt) hx

theorem rk4Step_eq (hstages : s.FiniteStages params dt x) :
    s.rk4Step params dt x = finiteOrNaN (x + dt / 6.0 * (s.stages params true dt x).total) :=
  if_pos hstages.and_eq_true

theorem rk4Step_rhs (s : LineSystem α) (params : ParameterValues α) (t h x : α) :
    Integrator.rk4Step (s.rhs params) t #v[x] h =
      #v[x + h / 6.0 *
        (Stages.of (s.derivative params) (fun c k => x + c * k) (h / 2.0) h x).total] := by
  have hadd (a b : α) : #v[a] + #v[b] = #v[a + b] := by
    ext i hi
    obtain rfl : i = 0 := by omega
    simp
  have hmul (c a : α) : c * #v[a] = #v[c * a] := by
    ext i hi
    obtain rfl : i = 0 := by omega
    simp
  simp only [Integrator.rk4Step, rhs, hadd, hmul]
  rfl

variable (hnan : isFinite (nan : α) = false)
include hnan

theorem stages_eq (h : s.FiniteStages params dt x) :
    s.stages params false dt x = s.stages params true dt x := by
  refine Stages.of_eq_of_all (fun y hy => ?_) h
  exact s.xPrime.value_eq_of_isFinite hnan
    (.cons (Operand.exposes_ofValue true y) (List.forall₂_same.mpr fun z _ => .refl z)) hy

/-- One step from a finite state through finite stages. -/
theorem rk4Step_spec [Exact α] (hdt : isFinite dt = true) (hx : isFinite x = true)
    (h : s.FiniteStages params dt x) :
    isFinite (s.rk4Step params dt x) = true ∧
      ∀ t, Integrator.rk4Step (s.rhs params) t #v[x] dt = #v[s.rk4Step params dt x] := by
  have hfinite : isFinite (x + dt / 6.0 * (s.stages params true dt x).total) = true :=
    isFinite_add hx (isFinite_mul (isFinite_sixth hdt) (Stages.isFinite_total h))
  rw [rk4Step_eq h, finiteOrNaN, if_pos hfinite]
  refine ⟨hfinite, fun t => ?_⟩
  rw [rk4Step_rhs, ← half_mul hdt, ← stages_eq hnan h]
  rfl

end LineSystem

/-! ## An oscillator and a decay -/

namespace PlanarSystem
variable {α : Type} [Elementary α]

/-- A point that turns around the origin. -/
def oscillator : PlanarSystem α := .ofTexts "Y" "-X"

theorem oscillator_derivatives (plain : Bool) (x y : α) :
    (oscillator (α := α)).derivatives plain x y = ⟨finiteOrNaN y, finiteOrNaN (-x)⟩ := by
  have htrials : ∀ trial ∈ Battery.trials (α := α) .planar,
      trial.2.length = Scope.planar.names.length := by
    simp [Battery.trials, Battery.points, Battery.cycled, Scope.planar, Scope.names]
  have hsecond : read (Text.strip "Y") .planar = .ok (.symbol "Y") := by with_unfolding_all rfl
  have hnegated : read (Text.strip "-X") .planar = .ok (.negate (.symbol "X")) := by
    with_unfolding_all rfl
  refine congrArg₂ Point.mk ?_ ?_
  · refine Equation.value_of_eval (v := fun args => args.getD 1 nan) hsecond htrials
      (fun plain args hargs => ?_) plain [x, y] rfl
    obtain ⟨x, y, rfl⟩ := List.length_eq_two.mp hargs
    exact ⟨plain, rfl⟩
  · refine Equation.value_of_eval (v := fun args => -args.getD 0 nan) hnegated htrials
      (fun plain args hargs => ?_) plain [x, y] rfl
    obtain ⟨x, y, rfl⟩ := List.length_eq_two.mp hargs
    exact ⟨plain, rfl⟩

theorem oscillator_finiteStages [Exact α] {dt : α} {p : Point α} (hdt : isFinite dt = true)
    (hp : p.isFinite = true) : (oscillator (α := α)).FiniteStages dt p := by
  refine finiteStages_of_forall (fun q hq => ?_) hdt hp
  obtain ⟨hx, hy⟩ := Bool.and_eq_true_iff.mp hq
  obtain ⟨x, hx⟩ := (isFinite_iff q.x).mp hx
  obtain ⟨y, hy⟩ := (isFinite_iff q.y).mp hy
  rw [oscillator_derivatives, hx, hy]
  simp [Point.isFinite, finiteOrNaN]

end PlanarSystem

namespace LineSystem
variable {α : Type} [Elementary α]

/-- A state that goes back to zero. -/
def decay : LineSystem α := .ofText "-X" []

theorem decay_value (plain : Bool) (x : α) :
    (decay (α := α)).xPrime.value [.ofValue plain x] = finiteOrNaN (-x) := by
  have hnegated : read (Text.strip "-X") (.line []) = .ok (.negate (.symbol "X")) := by
    with_unfolding_all rfl
  refine Equation.value_of_eval (v := fun args => -args.getD 0 nan) hnegated
    (fun trial htrial => Battery.length_of_mem_trials htrial)
    (fun plain args hargs => ?_) plain [x] rfl
  obtain ⟨x, rfl⟩ := List.length_eq_one_iff.mp hargs
  exact ⟨plain, rfl⟩

theorem decay_finiteStages [Exact α] {dt x : α} (hdt : isFinite dt = true) (hx : isFinite x = true) :
    (decay (α := α)).FiniteStages [] dt x := by
  refine finiteStages_of_forall (fun y hy => ?_) hdt hx
  obtain ⟨y, rfl⟩ := (isFinite_iff y).mp hy
  have hvalue : decay.xPrime.value (decay.xPrime.lineOperands true (ofReal y) []) =
      finiteOrNaN (-ofReal y : α) := decay_value true (ofReal y)
  rw [hvalue]
  simp [finiteOrNaN]

end LineSystem

/-- **Steps of systems are steps of the integrator.** In exact arithmetic, from a finite state and with a
finite time step, a step of a system through finite stages is the integrator's step of its right-hand
side, at whatever time, and both go through the same stages; so a number of such steps leads to the last
state of the integrator's run. An invalid system has no finite stage. -/
theorem steps_eq_rk4 {α : Type} [Elementary α] [Exact α] (hnan : isFinite (nan : α) = false) {dt : α}
    (hdt : isFinite dt = true) :
    (∀ (s : PlanarSystem α) (p : Point α), p.isFinite = true →
      (s.FiniteStages dt p → s.stages false dt p = s.stages true dt p ∧
        ∀ t, Integrator.rk4Step s.rhs t p.toVector dt = (s.step dt p).toVector) ∧
      ∀ count, (∀ i < count, s.FiniteStages dt ((s.step dt)^[i] p)) →
        ∀ t₀, (Integrator.rk4 s.rhs t₀ p.toVector dt count).back?.map Sample.y =
          some ((s.step dt)^[count] p).toVector) ∧
    ∀ (s : LineSystem α) (params : ParameterValues α) (x : α), isFinite x = true →
      (s.FiniteStages params dt x → s.stages params false dt x = s.stages params true dt x ∧
        ∀ t, Integrator.rk4Step (s.rhs params) t #v[x] dt = #v[s.rk4Step params dt x]) ∧
      ∀ count, (∀ i < count, s.FiniteStages params dt ((s.rk4Step params dt)^[i] x)) →
        ∀ t₀, (Integrator.rk4 (s.rhs params) t₀ #v[x] dt count).back?.map Sample.y =
          some #v[(s.rk4Step params dt)^[count] x] := by
  constructor
  · intro s p hp
    refine ⟨fun h => ⟨PlanarSystem.stages_eq hnan h, (PlanarSystem.step_spec hnan hdt hp h).2⟩,
      fun count h t₀ => ?_⟩
    rw [Integrator.back?_rk4]
    exact congrArg some (Integrator.stateAt_eq_iterate (s.step dt) Point.toVector
      (fun q hq (hsettled : s.FiniteStages dt q) => PlanarSystem.step_spec hnan hdt hq hsettled) hp h).2
  · intro s params x hx
    refine ⟨fun h => ⟨LineSystem.stages_eq hnan h, (LineSystem.rk4Step_spec hnan hdt hx h).2⟩,
      fun count h t₀ => ?_⟩
    rw [Integrator.back?_rk4]
    exact congrArg some (Integrator.stateAt_eq_iterate (s.rk4Step params dt) (fun y : α => #v[y])
      (fun y hy (hsettled : s.FiniteStages params dt y) =>
        LineSystem.rk4Step_spec hnan hdt hy hsettled) hx h).2

/-- Ten steps of an oscillator, and ten steps of a decay. -/
theorem steps_eq_rk4_oscillator :
    let dt := PartialReal.real (1 / 10)
    (∀ t, Integrator.rk4Step PlanarSystem.oscillator.rhs t (⟨.real 1, .real 0⟩ : Point _).toVector dt =
        (PlanarSystem.oscillator.step dt ⟨.real 1, .real 0⟩).toVector) ∧
      (Integrator.rk4 PlanarSystem.oscillator.rhs (.real 0) (⟨.real 1, .real 0⟩ : Point _).toVector dt
          10).back?.map Sample.y =
        some ((PlanarSystem.oscillator.step dt)^[10] ⟨.real 1, .real 0⟩).toVector ∧
      (∀ t, Integrator.rk4Step (LineSystem.decay.rhs []) t #v[.real 1] dt =
        #v[LineSystem.decay.rk4Step [] dt (.real 1)]) ∧
      (Integrator.rk4 (LineSystem.decay.rhs []) (.real 0) #v[.real 1] dt 10).back?.map Sample.y =
        some #v[(LineSystem.decay.rk4Step [] dt)^[10] (.real 1)] := by
  have hnan := PartialReal.isFinite_nan
  have hdt : isFinite (PartialReal.real (1 / 10)) = true := rfl
  have hplane : ∀ p : Point PartialReal, p.isFinite = true →
      PlanarSystem.oscillator.FiniteStages (.real (1 / 10)) p :=
    fun _ hp => PlanarSystem.oscillator_finiteStages hdt hp
  have hline : ∀ x : PartialReal, isFinite x = true →
      LineSystem.decay.FiniteStages [] (.real (1 / 10)) x :=
    fun _ hx => LineSystem.decay_finiteStages hdt hx
  have hplanes (i : Nat) : Point.isFinite
      ((PlanarSystem.oscillator.step (.real (1 / 10)))^[i] ⟨PartialReal.real 1, .real 0⟩) = true :=
    Function.Iterate.rec (fun q : Point PartialReal => q.isFinite = true) rfl
      (fun q hq => (PlanarSystem.step_spec hnan hdt hq (hplane q hq)).1) i
  have hlines (i : Nat) : isFinite
      ((LineSystem.decay.rk4Step [] (.real (1 / 10)))^[i] (PartialReal.real 1)) = true :=
    Function.Iterate.rec (fun x : PartialReal => isFinite x = true) rfl
      (fun x hx => (LineSystem.rk4Step_spec hnan hdt hx (hline x hx)).1) i
  obtain ⟨honplane, honline⟩ := steps_eq_rk4 hnan hdt
  obtain ⟨hstep, hrun⟩ := honplane .oscillator ⟨.real 1, .real 0⟩ rfl
  obtain ⟨hstep', hrun'⟩ := honline .decay [] (.real 1) rfl
  exact ⟨(hstep (hplane _ rfl)).2, hrun 10 (fun i _ => hplane _ (hplanes i)) _,
    (hstep' (hline _ rfl)).2, hrun' 10 (fun i _ => hline _ (hlines i)) _⟩

end PhasePortrait
