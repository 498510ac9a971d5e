import PhasePortrait.Formula.Fault
import PhasePortrait.Formula.Rules
import PhasePortrait.Number.Scalar

/-!
# Trying out a formula

Before a formula is accepted it is evaluated at seven points, in order. Failures that only concern
the point are fine; anything else ends the trial, and no further point is tried. As a rule it
refuses the formula. Exceptions that are no failures, such as a request to stop the program, are not
held back: they go on to the caller. The evaluator is any function of the call's number and its
arguments.
-/
namespace PhasePortrait

/-- What a call of an evaluator comes to, with exceptions of the type `ε` that are not held back. -/
inductive Outcome (ε : Type) where
  | number
  /-- Some value that is no number. -/
  | notNumber
  /-- A failure of the arithmetic or of a domain. -/
  | undefined
  /-- Any other failure, put into words. -/
  | failure (reason : String)
  /-- An exception that is no failure, or one that came up as a failure was put into words. -/
  | escape (exception : ε)
deriving DecidableEq, Repr

/-- A coordinate, and how it is shown. -/
structure Coordinate (α : Type) where
  shown : String
  value : α

namespace Battery
variable {α : Type} [Scalar α]

/-- The points for two variables. -/
def points : List (List (Coordinate α)) :=
  [ [⟨"0", 0.0⟩, ⟨"0", 0.0⟩],
    [⟨"1", 1.0⟩, ⟨"1", 1.0⟩],
    [⟨"-1", -1.0⟩, ⟨"-1", -1.0⟩],
    [⟨"0.1", 0.1⟩, ⟨"0.1", 0.1⟩],
    [⟨"3.14159", 3.141592653589793⟩, ⟨"2.71828", 2.718281828459045⟩],
    [⟨"10", 10.0⟩, ⟨"-10", -10.0⟩],
    [⟨"-5", -5.0⟩, ⟨"5", 5.0⟩] ]

/-- A point repeated and cut to a number of variables. -/
def cycled (count : Nat) (point : List (Coordinate α)) : List (Coordinate α) :=
  (List.replicate count point).flatten.take count

/-- Each trial: how the point is shown, and the arguments of the call. A single state variable is
tried at the first six points' first coordinates and -5, with every parameter at one. -/
def trials (s : Scope) : List (String × List α) :=
  match s.parameters with
  | none => points.map fun point =>
      let p := cycled s.vars.length point
      (Text.joined (p.map Coordinate.shown), p.map Coordinate.value)
  | some parameters => points.filterMap List.head? |>.map fun c =>
      (c.shown, c.value :: parameters.map fun _ => 1.0)

/-- What ends a trial before its last point. -/
inductive Interruption (ε : Type) where
  | refusal (fault : Fault)
  | escape (exception : ε)
deriving DecidableEq, Repr

/-- Where every exception is held back, only a fault ends a trial. -/
def Interruption.fault : Interruption Empty → Fault
  | refusal fault => fault

variable {ε : Type}

/-- Whether an outcome at a point ends the trial, and how. -/
def interruptionAt (point : String) : Outcome ε → Option (Interruption ε)
  | .number | .undefined => none
  | .notNumber => some (.refusal (.failedAt point "function must return a number"))
  | .failure reason => some (.refusal (.failedAt point reason))
  | .escape exception => some (.escape exception)

/-- Run trials from call number `index` on: the arguments of the calls made, and what the last of
them ends the trial with if it does. -/
def run (evaluator : Nat → List α → Outcome ε) : Nat → List (String × List α) →
    List (List α) × Option (Interruption ε)
  | _, [] => ([], none)
  | index, (point, args) :: rest =>
    match interruptionAt point (evaluator index args) with
    | some interruption => ([args], some interruption)
    | none =>
      let (calls, interruption) := run evaluator (index + 1) rest
      (args :: calls, interruption)

/-- Try an evaluator on the whole battery. -/
def smokeTest (evaluator : Nat → List α → Outcome ε) (s : Scope) :
    List (List α) × Option (Interruption ε) :=
  run evaluator 0 (trials s)

end Battery

end PhasePortrait
