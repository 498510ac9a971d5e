import PhasePortrait.Flow.PhaseLine
import PhasePortrait.Number.Double
import PhasePortrait.Service.Parameters
import PhasePortrait.Service.Settings

/-!
# Answering requests

Four requests on formulas and systems: `validate` one equation, `simulate` a system, sample its
`field`, and draw its `phaseLine`. Each takes the body of a request and gives the body of an answer,
or fails. Numbers are read first, in a fixed order, then held to the limits of the settings, and
only then are formulas read.
-/
namespace PhasePortrait

structure Reply where
  status : Nat
  body : Json

namespace Routes

abbrev Answer := Except Failure Json

def refuse {β : Type} (message : String) : Except Failure β := .error (.validation message)

def refuseIf (condition : Bool) (message : String) : Except Failure Unit :=
  if condition then refuse message else .ok ()

/-- A formula that was refused. -/
def faulty {β : Type} (message : String) (label : Option String) : Except Failure β :=
  .error (.refused .parse message label)

/-- A computation that was refused. -/
def computed {β : Type} : Except Refusal β → Except Failure β
  | .ok x => .ok x
  | .error r => .error (.refused .calculation ("Calculation error: " ++ r.message) none)

def requireObject : Json → Except Failure Unit
  | .object _ => .ok ()
  | _ => refuse "Request body must be a JSON object"

/-- The text under a key; absent values and falsy ones are empty. -/
def textField (data : Json) (key : String) : String :=
  match data.get? key with
  | some j => if j.isFalsy then "" else j.display
  | none => ""

def realField (data : Json) (key label : String) (default : Option Amount) :
    Except Failure Amount :=
  Amount.readField id data key label default false

def wholeField (data : Json) (key label : String) (default : Option Int) : Except Failure Int :=
  let whole : Amount → Int
    | .whole n => n
    | .real _ => 0
  Amount.readField whole data key label default true

/-- A double as a number, or null where it is not finite. -/
def finiteJson (x : Float) : Json := if x.isFinite then .float x else .null

/-! ## Systems -/

def planarSystem (data : Json) : Except Failure (PlanarSystem Float) := do
  let x := Text.strip (textField data "x_prime")
  let y := Text.strip (textField data "y_prime")
  refuseIf (x == "" || y == "") "Both X' and Y' equations are required"
  let s := PlanarSystem.ofTexts x y
  if s.isValid then return s else faulty s.errorMessage none

/-- Parameters of a request: absent ones are none, and only text can be read. -/
def parameters (data : Json) : Except Failure (ParameterValues Float) :=
  match (data.get? "parameters").getD (.text "") with
  | .text s =>
    match Parameters.read s with
    | .ok ps => .ok ps
    | .error fault => refuse fault.message
  | j => if j.isFalsy then .ok [] else .error (.brokenDown .parametersNotText)

def lineSystem (data : Json) : Except Failure (LineSystem Float × ParameterValues Float) := do
  let text := Text.strip (textField data "equation")
  refuseIf (text == "") "Equation X' is required"
  let params ← parameters data
  let s := LineSystem.ofText text (params.map Prod.fst)
  if s.isValid then return (s, params) else faulty s.errorMessage none

def parametersJson (params : ParameterValues Float) : Json :=
  .object (params.map fun (name, x) => (name, .float x))

/-! ## Validation -/

/-- The names that a value declares. A text lists them with commas, an object by its keys. -/
def declaredNames : Json → Except Failure (List Json)
  | .text s => .ok (((Text.pieces ',' s).map Text.strip).filter (· != "") |>.map .text)
  | .list items => .ok items
  | .object fs => .ok (fs.map fun (name, _) => .text name)
  | _ => .error (.brokenDown .namesNotListed)

/-- Whether a value could be looked up by. -/
def isAtomic : Json → Bool
  | .list _ | .object _ => false
  | _ => true

def nameText? : Json → Option String
  | .text s => some s
  | _ => none

/-- What is wrong with a declared name of any type. -/
def nameFault : Json → Option Fault
  | .text s => Formula.declaredNameFault s
  | j => some (.notIdentifier j.display j.shown)

/-- The fault of a formula some of whose declared names are no texts. -/
def misnamedFault (text : String) (names : List Json) : Option Fault :=
  match Formula.checkShape text with
  | .error fault => some fault
  | .ok _ => names.findSome? nameFault

def acceptedJson (text : String) : Json :=
  .object [("status", .text "success"), ("valid", .bool true), ("equation", .text text)]

def acceptedOr (text : String) : Option Fault → Answer
  | none => .ok (acceptedJson text)
  | some fault => faulty fault.message (some fault.kind.label)

/-- The answer on an equation, which echoes its formula. -/
def echoed (q : Equation Float) : Answer :=
  match q.outcome with
  | .error fault => faulty fault.message (some fault.kind.label)
  | .ok c =>
    if (Term.echo? c.tree).isSome then .ok (acceptedJson q.text)
    else .error (.brokenDown .longNumber)

/-- Read a formula in one variable over declared names. -/
def validateLine (text : String) (names : List Json) : Answer :=
  if !names.all isAtomic then .error (.brokenDown .nameNotAtomic)
  else match names.mapM nameText? with
    | some names =>
      match (Equation.ofText? text (.line names) : Except NoEquation (Equation Float)) with
      | .ok q => echoed q
      | .error .repeatedName => .error (.brokenDown .repeatedName)
    | none => acceptedOr (Text.strip text) (misnamedFault (Text.strip text) names)

def validate (data : Json) : Answer := do
  requireObject data
  let text := textField data "equation"
  match (data.get? "mode").getD (.text "2d") with
  | .text "1d" =>
    let names ← declaredNames ((data.get? "parameter_names").getD (.list []))
    validateLine text names
  | .text "2d" =>
    echoed (Equation.ofText text .planar)
  | mode => refuse ("Invalid mode: " ++ mode.display ++ ". Valid modes are: 1d, 2d")

/-! ## Simulation -/

inductive Method where
  | rk4 | adaptive | rk4Line | eulerLine
deriving DecidableEq, Repr

namespace Method

def all : List Method := [rk4, adaptive, rk4Line, eulerLine]

def key : Method → String
  | rk4 => "rk4"
  | adaptive => "adaptive"
  | rk4Line => "rk4_1d"
  | eulerLine => "euler_1d"

def title : Method → String
  | rk4 => "Runge-Kutta 4"
  | adaptive => "Adaptive Runge-Kutta 4"
  | rk4Line => "Runge-Kutta 4 (1D)"
  | eulerLine => "Euler Method (1D)"

def ofKey? (key : String) : Option Method := all.find? fun m => m.key == key

end Method

/-- The results of a simulation and the values it was run with. -/
structure Run where
  results : List Json
  values : List (String × Json)

/-- The time of an entry, whole if the step is; the start is at a double zero. -/
def timeJson (dt : Amount) : Nat → Json
  | 0 => .float 0.0
  | i + 1 => (dt.times (i + 1)).json

def pointJson (dt : Amount) (i : Nat) (p : Point Float) : Json :=
  .object [("t", timeJson dt i), ("x", .float p.x), ("y", .float p.y)]

def linePointJson (dt : Amount) (i : Nat) (x : Float) : Json :=
  .object [("t", timeJson dt i), ("x", .float x)]

/-- A planar simulation with a fixed step. -/
def planarEntries (s : PlanarSystem Float) (dt : Amount) (steps : Nat) (start : Point Float) :
    List Json :=
  (s.trajectory dt.toFloat steps start).toList.map fun (i, p) => pointJson dt i p

/-- A simulation in one variable, with either kind of step. -/
def lineEntries (step : Float → Float) (dt : Amount) (horizon x₀ : Float) : List Json :=
  (LineSystem.trajectory step dt.toFloat horizon x₀).toList.map fun (i, x) => linePointJson dt i x

/-- Lengths of steps, in order: the amount given until the first change, doubles from there on. -/
def stepsJson (dt : Amount) (hs : List Float) : List Json :=
  (hs.takeWhile (· == dt.toFloat)).map (fun _ => dt.json)
    ++ (hs.dropWhile (· == dt.toFloat)).map .float

def adaptivePointJson (s : AdaptiveSample Float 2) (h : Json) : Json :=
  let p := Point.ofVector s.y
  .object [("t", .float s.t), ("x", .float p.x), ("y", .float p.y), ("h", h),
    ("error", .float s.error)]

/-- The samples of an adaptive run; no step leads to the first one. -/
def adaptiveJson (dt : Amount) (samples : List (AdaptiveSample Float 2)) : List Json :=
  samples.zipWith adaptivePointJson
    (.float 0.0 :: stepsJson dt (samples.tail.map AdaptiveSample.h))

def refuseStep (dt : Amount) : Except Failure Unit :=
  refuseIf (dt.toFloat ≤ 0.0) "Step size must be greater than 0"

/-- Hold a horizon to the steps that may be made. -/
def refuseHorizon (settings : Settings) (horizon dt : Amount) : Except Failure Unit :=
  refuseIf (Amount.isAbove (horizon.toFloat / dt.toFloat) settings.maxSteps)
    "Step size is too small for the given end time"

def refuseEnd (horizon : Amount) : Except Failure Unit :=
  refuseIf (horizon.toFloat ≤ 0.0) "End time must be greater than 0"

def refuseTolerance (settings : Settings) (tolerance : Amount) : Except Failure Unit :=
  refuseIf (tolerance.toFloat < settings.minTolerance.toFloat)
    ("Tolerance must be at least " ++ Written.general 6 settings.minTolerance.toFloat)

def runRk4 (settings : Settings) (data : Json) : Except Failure Run := do
  let x₀ ← realField data "x0" "Initial condition X₀" none
  let y₀ ← realField data "y0" "Initial condition Y₀" none
  let dt ← realField data "dt" "Step size (dt)" (some settings.defaultStep)
  let steps ← wholeField data "steps" "Number of steps" none
  refuseStep dt
  refuseIf (!(0 < steps && steps ≤ settings.maxSteps))
    s!"Number of steps must be between 1 and {settings.maxSteps}"
  let s ← planarSystem data
  return ⟨planarEntries s dt steps.toNat ⟨x₀.toFloat, y₀.toFloat⟩,
    [("x0", x₀.json), ("y0", y₀.json), ("dt", dt.json), ("steps", .int steps)]⟩

def runAdaptive (settings : Settings) (data : Json) : Except Failure Run := do
  let x₀ ← realField data "x0" "Initial condition X₀" none
  let y₀ ← realField data "y0" "Initial condition Y₀" none
  let dt ← realField data "dt" "Step size (dt)" (some settings.defaultStep)
  let tEnd ← realField data "t_end" "End time" none
  let tolerance ← realField data "tolerance" "Tolerance" (some settings.defaultTolerance)
  refuseStep dt
  refuseEnd tEnd
  refuseTolerance settings tolerance
  refuseHorizon settings tEnd dt
  let s ← planarSystem data
  let samples ← computed <|
    Integrator.adaptive s.rhs 0.0 (Point.mk x₀.toFloat y₀.toFloat).toVector tEnd.toFloat
      dt.toFloat tolerance.toFloat (some settings.maxSteps.toNat)
  return ⟨adaptiveJson dt samples.toList,
    [("x0", x₀.json), ("y0", y₀.json), ("dt", dt.json), ("t_end", tEnd.json),
      ("tolerance", tolerance.json)]⟩

/-- Simulations in one variable differ in the step only. -/
def runLine (step : LineSystem Float → ParameterValues Float → Float → Float → Float)
    (settings : Settings) (data : Json) : Except Failure Run := do
  let x₀ ← realField data "x0" "Initial condition X₀" none
  let tMax ← realField data "t_max" "End time" none
  let dt ← realField data "dt" "Step size (dt)" (some settings.defaultStep)
  refuseStep dt
  refuseEnd tMax
  refuseHorizon settings tMax dt
  let (s, params) ← lineSystem data
  return ⟨lineEntries (step s params dt.toFloat) dt tMax.toFloat x₀.toFloat,
    [("x0", x₀.json), ("t_max", tMax.json), ("dt", dt.json), ("parameters", parametersJson params)]⟩

def run (settings : Settings) (data : Json) : Method → Except Failure Run
  | .rk4 => runRk4 settings data
  | .adaptive => runAdaptive settings data
  | .rk4Line => runLine LineSystem.rk4Step settings data
  | .eulerLine => runLine LineSystem.eulerStep settings data

def simulate (settings : Settings) (data : Json) : Answer := do
  requireObject data
  let key := Text.strip ((data.get? "method").getD (.text "rk4")).display
  match Method.ofKey? key with
  | none =>
    refuse ("Invalid method: " ++ key ++ ". Valid methods are: "
      ++ Text.joined (Method.all.map Method.key))
  | some m =>
    let r ← run settings data m
    return .object ([("status", .text "success"), ("method", .text m.title),
      ("results", .list r.results), ("num_points", .int r.results.length),
      ("message", .text ("System successfully integrated using " ++ m.title))] ++ r.values)

/-! ## Fields -/

def refuseRange (low high : Amount) (message : String) : Except Failure Unit :=
  refuseIf (high.toFloat ≤ low.toFloat) message

def refuseGrid (settings : Settings) (size : Int) : Except Failure Unit :=
  refuseIf (!(0 < size && size ≤ settings.maxGridSize))
    s!"Grid size must be between 1 and {settings.maxGridSize}"

def fieldSampleJson (s : FieldSample Float) : Json :=
  .object [("x", finiteJson s.position.x), ("y", finiteJson s.position.y), ("dx", finiteJson s.d.x),
    ("dy", finiteJson s.d.y), ("normalized_dx", finiteJson s.direction.x),
    ("normalized_dy", finiteJson s.direction.y), ("magnitude", finiteJson s.magnitude)]

def equilibriumJson (p : Point Float) : Json :=
  .object [("x", .float p.x), ("y", .float p.y), ("stability", .text Stability.unknown.label)]

def field (settings : Settings) (data : Json) : Answer := do
  requireObject data
  let xMin ← realField data "x_min" "X min" (some (.real (-5.0)))
  let xMax ← realField data "x_max" "X max" (some (.real 5.0))
  let yMin ← realField data "y_min" "Y min" (some (.real (-5.0)))
  let yMax ← realField data "y_max" "Y max" (some (.real 5.0))
  let size ← wholeField data "grid_size" "Grid size" (some 20)
  let equilibriumSize ← wholeField data "equilibrium_grid_size" "Equilibrium grid size" (some 50)
  let tolerance ← realField data "tolerance" "Tolerance" (some settings.defaultTolerance)
  refuseRange xMin xMax "Range maximum must be greater than its minimum"
  refuseRange yMin yMax "Range maximum must be greater than its minimum"
  refuseGrid settings size
  refuseGrid settings equilibriumSize
  let s ← planarSystem data
  let samples ← computed <|
    Field.samples s.rhs xMin.toFloat xMax.toFloat yMin.toFloat yMax.toFloat size.toNat
  let equilibria ← computed <|
    Field.equilibria s.rhs xMin.toFloat xMax.toFloat yMin.toFloat yMax.toFloat tolerance.toFloat
      equilibriumSize.toNat
  return .object [("status", .text "success"), ("field", .list (samples.map fieldSampleJson)),
    ("equilibria", .list (equilibria.toList.map equilibriumJson)),
    ("num_points", .int samples.length)]

/-! ## Phase lines -/

def phaseLinePointJson (p : PhaseLinePoint Float) : Json :=
  .object [("x", .float p.x), ("stability", .text p.stability.label), ("kind", .text p.kind.label)]

def intervalJson (i : Interval Float) : Json := .list [.float i.low, .float i.high]

def phaseLine (settings : Settings) (data : Json) : Answer := do
  requireObject data
  let xMin ← realField data "x_min" "X min" none
  let xMax ← realField data "x_max" "X max" none
  let samples ← wholeField data "samples" "Number of samples" (some 400)
  refuseRange xMin xMax "X max must be greater than X min"
  refuseIf (!(2 ≤ samples && samples ≤ settings.maxPhaseSamples))
    s!"Number of samples must be between 2 and {settings.maxPhaseSamples}"
  let (s, params) ← lineSystem data
  let line ← computed <|
    s.phaseLine params xMin.toFloat xMax.toFloat samples.toNat PhaseLine.defaultTolerance
  return .object [("status", .text "success"), ("parameters", parametersJson params),
    ("equilibria", .list (line.equilibria.map phaseLinePointJson)),
    ("degenerate_intervals", .list (line.degenerate.map intervalJson))]

/-! ## Replies -/

/-- The answer of the route with a path, if there is one. -/
def answer? (settings : Settings) (path : String) (data : Json) : Option Answer :=
  match path with
  | "/validate" => some (validate data)
  | "/simulate" => some (simulate settings data)
  | "/field" => some (field settings data)
  | "/phase-line" => some (phaseLine settings data)
  | _ => none

/-- What is sent back: the answer, or why there is none. A request that broke down has no body. -/
def reply : Answer → Reply
  | .ok body => ⟨200, body⟩
  | .error (.refused kind message label) =>
    ⟨400, .object ([("status", .text "error"), ("message", .text message),
      ("error_type", .text kind.label)] ++ (label.map fun l => ("error_kind", .text l)).toList)⟩
  | .error (.brokenDown _) => ⟨500, .null⟩

end Routes

end PhasePortrait
