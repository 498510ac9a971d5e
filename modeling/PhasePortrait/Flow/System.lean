import PhasePortrait.Flow.Field
import PhasePortrait.Flow.Trajectory
import PhasePortrait.Formula.Equation

/-!
# Systems given by formulas

A planar system couples `X' = f(X, Y)` and `Y' = g(X, Y)`; a line system is `X' = f(X)` with
parameters, whose values come with each call. Stepping binds the state to plain operands, sampling
to shielded ones. A step whose outcome or any of whose stages is not finite gives `nan`.
-/
namespace PhasePortrait
open Scalar
variable {α : Type} [Elementary α]

structure PlanarSystem (α : Type) where
  xPrime : Equation α
  yPrime : Equation α

namespace PlanarSystem

def ofTexts (x y : String) : PlanarSystem α :=
  ⟨Equation.ofText x .planar, Equation.ofText y .planar⟩

def isValid (s : PlanarSystem α) : Bool := s.xPrime.isValid && s.yPrime.isValid

def errorMessage (s : PlanarSystem α) : String :=
  let x := s.xPrime.fault?.map fun fault => "X': " ++ fault.message
  let y := s.yPrime.fault?.map fun fault => "Y': " ++ fault.message
  String.intercalate "; " (x.toList ++ y.toList)

/-- Both derivatives, over plain or shielded coordinates. -/
def derivatives (s : PlanarSystem α) (plain : Bool) (x y : α) : Point α :=
  let operands := [Operand.ofValue plain x, Operand.ofValue plain y]
  ⟨s.xPrime.value operands, s.yPrime.value operands⟩

/-- The field at a point. -/
def field (s : PlanarSystem α) (p : Point α) : Point α :=
  if s.isValid then s.derivatives false p.x p.y else .undefined

/-- One fourth-order step; both components share the intermediate states. -/
def step (s : PlanarSystem α) (dt : α) (p : Point α) : Point α :=
  if s.isValid then
    let k₁ := s.derivatives true p.x p.y
    let k₂ := s.derivatives true (p.x + 0.5 * dt * k₁.x) (p.y + 0.5 * dt * k₁.y)
    let k₃ := s.derivatives true (p.x + 0.5 * dt * k₂.x) (p.y + 0.5 * dt * k₂.y)
    let k₄ := s.derivatives true (p.x + dt * k₃.x) (p.y + dt * k₃.y)
    if k₁.isFinite && k₂.isFinite && k₃.isFinite && k₄.isFinite then
      let next : Point α :=
        ⟨p.x + dt / 6.0 * (k₁.x + 2.0 * k₂.x + 2.0 * k₃.x + k₄.x),
          p.y + dt / 6.0 * (k₁.y + 2.0 * k₂.y + 2.0 * k₃.y + k₄.y)⟩
      if next.isFinite then next else .undefined
    else .undefined
  else .undefined

/-- The system as a right-hand side, which does not depend on time. -/
def rhs (s : PlanarSystem α) : Rhs α 2 := .autonomous s.field

/-- The states after each of a number of steps, up to the first one that is not finite. -/
def trajectory (s : PlanarSystem α) (dt : α) (steps : Nat) (start : Point α) :
    Array (Nat × Point α) :=
  Trajectory.ofCount (s.step dt) Point.isFinite steps start

def outline (s : PlanarSystem α) : String :=
  "DynamicalSystem(X'=" ++ Text.quoted s.xPrime.text ++ ", Y'=" ++ Text.quoted s.yPrime.text ++ ")"

end PlanarSystem

/-- Formulas for the components of a derivative, in the time and the components of the state. -/
structure ComponentSystem (α : Type) (n : Nat) where
  components : Vector (Equation α) n

namespace ComponentSystem

/-- The right-hand side of the components; an invalid one is `nan`. -/
def rhs {n : Nat} (s : ComponentSystem α n) : Rhs α n := fun t y =>
  s.components.map fun q => q.value ((t :: y.toList).map (Operand.ofValue false))

/-- The right-hand side, if every valid component is one in the time and `n` more variables. -/
def rhs? {n : Nat} (s : ComponentSystem α n) : Except CountMismatch (Rhs α n) := do
  for q in s.components do
    let _ ← q.evaluate (List.replicate (n + 1) nan)
  return s.rhs

end ComponentSystem

structure LineSystem (α : Type) where
  xPrime : Equation α

/-- Values for parameters, by name. -/
abbrev ParameterValues (α : Type) := List (String × α)

structure TimePoint (α : Type) where
  t : α
  x : α

namespace LineSystem

/-- The system of a text over parameters of which none is declared twice. -/
def ofText (text : String) (parameters : List String) : LineSystem α :=
  ⟨Equation.ofText text (.line parameters)⟩

/-- The system of a text over any parameters. -/
def ofText? (text : String) (parameters : List String) : Except NoEquation (LineSystem α) :=
  (Equation.ofText? text (.line parameters)).map (⟨·⟩)

def parameters (s : LineSystem α) : List String := s.xPrime.scope.parameters.getD []

def isValid (s : LineSystem α) : Bool := s.xPrime.isValid

def errorMessage (s : LineSystem α) : String := s.xPrime.errorMessage

def derivative (s : LineSystem α) (params : ParameterValues α) (x : α) : α :=
  s.xPrime.value (s.xPrime.lineOperands false x params)

def eulerStep (s : LineSystem α) (params : ParameterValues α) (dt x : α) : α :=
  let d := s.derivative params x
  if Scalar.isFinite d then finiteOrNaN (x + dt * d) else nan

def rk4Step (s : LineSystem α) (params : ParameterValues α) (dt x : α) : α :=
  let f (x : α) : α := s.xPrime.value (s.xPrime.lineOperands true x params)
  let k₁ := f x
  let k₂ := f (x + 0.5 * dt * k₁)
  let k₃ := f (x + 0.5 * dt * k₂)
  let k₄ := f (x + dt * k₃)
  if Scalar.isFinite k₁ && Scalar.isFinite k₂ && Scalar.isFinite k₃ && Scalar.isFinite k₄ then
    finiteOrNaN (x + dt / 6.0 * (k₁ + 2.0 * k₂ + 2.0 * k₃ + k₄))
  else nan

/-- The states after each of the given steps, up to the horizon or to the first one that is not
finite. -/
def trajectory (step : α → α) (dt horizon x₀ : α) : Array (Nat × α) :=
  Trajectory.untilTime step Scalar.isFinite dt horizon x₀

/-- Fourth-order samples from time zero to the horizon; an invalid system has none. -/
def series (s : LineSystem α) (params : ParameterValues α) (x₀ horizon dt : α) :
    Except Refusal (Array (TimePoint α)) :=
  if dt ≤ 0.0 then .error .timeStepNotPositive
  else if s.isValid then
    .ok <| (trajectory (s.rk4Step params dt) dt horizon x₀).map fun (i, x) =>
      ⟨Trajectory.timeAt dt i, x⟩
  else .ok #[]

def defaultStep : α := 0.01

/-- The system as a right-hand side, which does not depend on time. -/
def rhs (s : LineSystem α) (params : ParameterValues α) : Rhs α 1 := fun _ y =>
  #v[s.derivative params y[0]]

def outline (s : LineSystem α) : String :=
  "DynamicalSystem1D(X'=" ++ Text.quoted s.xPrime.text ++ ", parameters=["
    ++ Text.joined (s.parameters.map Text.quoted) ++ "])"

end LineSystem

end PhasePortrait
