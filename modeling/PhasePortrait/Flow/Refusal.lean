/-!
# Refused computations

Computations whose settings make no sense are refused before they start.
-/
namespace PhasePortrait

inductive Refusal where
  | stepNotPositive
  | toleranceNotPositive
  | timeStepNotPositive
  | gridTooSmall
  | emptyRange
  | tooFewSamples
  /-- A planar computation was asked of a system in another dimension. -/
  | notPlanar (dimension : Nat)
deriving DecidableEq, Repr

def Refusal.message : Refusal → String
  | stepNotPositive => "h0 must be positive"
  | toleranceNotPositive => "tolerance must be positive"
  | timeStepNotPositive => "dt must be positive"
  | gridTooSmall => "grid_size must be at least 1"
  | emptyRange => "x_max must be greater than x_min"
  | tooFewSamples => "samples must be at least 2"
  | notPlanar dimension =>
    if dimension < 2 then s!"not enough values to unpack (expected 2, got {dimension})"
    else "too many values to unpack (expected 2)"

end PhasePortrait
