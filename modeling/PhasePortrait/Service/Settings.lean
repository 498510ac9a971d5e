import PhasePortrait.Service.Amount

/-!
# Settings

The limits that requests are held to, and the values that stand for what a request leaves out.
-/
namespace PhasePortrait

structure Settings where
  maxSteps : Int := 100000
  maxGridSize : Int := 200
  maxPhaseSamples : Int := 5000
  defaultStep : Amount := .real 0.01
  defaultTolerance : Amount := .real 1e-6
  minTolerance : Amount := .real 1e-14

namespace Settings

/-- The amount that a JSON number stands for. -/
def amount? : Json → Option Amount
  | .int n => some (.whole n)
  | .float x => some (.real x)
  | _ => none

def whole? : Json → Option Int
  | .int n => some n
  | _ => none

/-- Change the setting of a name; unknown names and values of another type change nothing. -/
def override (s : Settings) (name : String) (value : Json) : Settings :=
  match name with
  | "MAX_STEPS" => { s with maxSteps := (whole? value).getD s.maxSteps }
  | "MAX_GRID_SIZE" => { s with maxGridSize := (whole? value).getD s.maxGridSize }
  | "MAX_PHASE_SAMPLES" => { s with maxPhaseSamples := (whole? value).getD s.maxPhaseSamples }
  | "DEFAULT_DT" => { s with defaultStep := (amount? value).getD s.defaultStep }
  | "DEFAULT_TOLERANCE" => { s with defaultTolerance := (amount? value).getD s.defaultTolerance }
  | "MIN_TOLERANCE" => { s with minTolerance := (amount? value).getD s.minTolerance }
  | _ => s

def overrideAll (s : Settings) (config : Json) : Settings :=
  config.fields.foldl (fun s (name, value) => s.override name value) s

end Settings

end PhasePortrait
