import PhasePortrait.Flow.Refusal
import PhasePortrait.Number.Scalar

/-!
# Runge–Kutta integration

Fourth-order integration of `y' = f t y` in any dimension, with a fixed step or with step doubling.
The doubling integrator compares one step with two half steps, takes the distance of the outcomes
for the local error, and adapts the step length to it. How far a run may go is an argument; without
one, `attemptBound` is enough for runs in exact arithmetic.
-/
namespace PhasePortrait
open Scalar
variable {α : Type} [Scalar α] {n : Nat}

/-- A right-hand side: the derivative at a time and a state. -/
abbrev Rhs (α : Type) (n : Nat) := α → Vector α n → Vector α n

structure Sample (α : Type) (n : Nat) where
  t : α
  y : Vector α n

/-- A state reached by step doubling, with the length of the step and its local error. -/
structure AdaptiveSample (α : Type) (n : Nat) extends Sample α n where
  h : α
  error : α

namespace Integrator

@[specialize] def rk4Step (f : Rhs α n) (t : α) (y : Vector α n) (h : α) : Vector α n :=
  let k₁ := f t y
  let k₂ := f (t + h / 2.0) (y + (h / 2.0) * k₁)
  let k₃ := f (t + h / 2.0) (y + (h / 2.0) * k₂)
  let k₄ := f (t + h) (y + h * k₃)
  y + (h / 6.0) * (k₁ + (2.0 : α) * k₂ + (2.0 : α) * k₃ + k₄)

/-- The time of a sample, counted from the start rather than summed up. -/
def timeAt (t₀ h : α) (i : Nat) : α := t₀ + (i : α) * h

/-- The start and the states after each of a number of equal steps. -/
@[specialize] def rk4 (f : Rhs α n) (t₀ : α) (y₀ : Vector α n) (h : α) (steps : Nat) :
    Array (Sample α n) :=
  (steps.fold (fun i _ (samples, y) =>
      let y := rk4Step f (timeAt t₀ h i) y h
      (samples.push ⟨timeAt t₀ h (i + 1), y⟩, y))
    ((#[⟨t₀, y₀⟩] : Array (Sample α n)), y₀)).1

/-! ## Step doubling -/

/-- Steps below this length are taken whatever their error. -/
def minStep : α := 1e-10
def growth : α := 1.5
def shrinkage : α := 0.5
/-- Steps grow to at most this multiple of the first one. -/
def maxGrowth : α := 4.0

def norm (v : Vector α n) : α := sqrt (v.foldl (fun sum x => sum + x * x) 0.0)

/-- Where a run stands: the last accepted state and the length of the next attempt. -/
structure Progress (α : Type) (n : Nat) where
  t : α
  y : Vector α n
  h : α

/-- What an attempted step comes to. -/
inductive Attempt (α : Type) (n : Nat) where
  | accepted (sample : AdaptiveSample α n) (next : Progress α n)
  | rejected (next : Progress α n)
  /-- The new state is not finite. -/
  | diverged
  /-- The step is too short to move the time. -/
  | stalled

/-- The settings of a run. -/
structure Control (α : Type) where
  tEnd : α
  tolerance : α
  maxH : α

/-- The length of the next attempt, which does not go past the end. -/
def Control.clip (c : Control α) (p : Progress α n) : α :=
  if c.tEnd < p.t + p.h then c.tEnd - p.t else p.h

/-- The length after a step of length `h` with the given error. -/
def Control.grow (c : Control α) (h error : α) : α :=
  if error < c.tolerance / 10.0 then (if c.maxH < h * growth then c.maxH else h * growth) else h

/-- The state after two half steps. -/
@[specialize] def doubleStep (f : Rhs α n) (t : α) (y : Vector α n) (h : α) : Vector α n :=
  rk4Step f (t + h / 2.0) (rk4Step f t y (h / 2.0)) (h / 2.0)

@[specialize] def attempt (f : Rhs α n) (c : Control α) (p : Progress α n) : Attempt α n :=
  let h := c.clip p
  let y := doubleStep f p.t p.y h
  let error := norm (y - rk4Step f p.t p.y h)
  if error < c.tolerance || h < minStep then
    if !y.all isFinite then .diverged
    else if same (p.t + h) p.t then .stalled
    else .accepted ⟨⟨p.t + h, y⟩, h, error⟩ ⟨p.t + h, y, c.grow h error⟩
  else .rejected ⟨p.t, p.y, h * shrinkage⟩

/-- The accepted samples of at most so many attempts, after those in `samples`. -/
@[specialize] def runAttempts (f : Rhs α n) (c : Control α) :
    Nat → Progress α n → Array (AdaptiveSample α n) → Array (AdaptiveSample α n)
  | 0, _, samples => samples
  | limit + 1, p, samples =>
    if p.t < c.tEnd then
      match attempt f c p with
      | .accepted sample next => runAttempts f c limit next (samples.push sample)
      | .rejected next => runAttempts f c limit next samples
      | .diverged | .stalled => samples
    else samples

/-- A number of attempts that no run exceeds in exact arithmetic: no step but the last is shorter
than the first one or half of `minStep`, and each rejection undoes a growth or halves the first
step. -/
def attemptBound (t₀ tEnd h₀ : α) : Nat :=
  let least : α := if h₀ < minStep / 2.0 then h₀ else minStep / 2.0
  4 * (ceilNat ((tEnd - t₀) / least) + 2) + ceilNat (h₀ / least)

@[specialize] def adaptive (f : Rhs α n) (t₀ : α) (y₀ : Vector α n) (tEnd h₀ tolerance : α)
    (maxSteps : Option Nat) : Except Refusal (Array (AdaptiveSample α n)) :=
  if h₀ ≤ 0.0 then .error .stepNotPositive
  else if tolerance ≤ 0.0 then .error .toleranceNotPositive
  else .ok <|
    runAttempts f ⟨tEnd, tolerance, h₀ * maxGrowth⟩ (maxSteps.getD (attemptBound t₀ tEnd h₀))
      ⟨t₀, y₀, h₀⟩ #[⟨⟨t₀, y₀⟩, 0.0, 0.0⟩]

def defaultStep : α := 0.01
def defaultTolerance : α := 1e-6

end Integrator

end PhasePortrait
