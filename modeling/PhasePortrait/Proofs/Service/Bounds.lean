import PhasePortrait.Proofs.Flow.Attempts
import PhasePortrait.Proofs.Service.Overflow

/-!
# Simulations are bounded

The settings allow for a number of steps, and each method of simulation is held to it in its own way: by
the count that a request asks for, by a cap on the attempts, or by the quotient of the end time and the
step. Only the last of them is left to arithmetic: the loop asks at every index whether its time, a
product, is before the end, and between doubles such a product need not agree with the quotient. So the
calculation with times is set apart as a clock. With doubles for its times a simulation is the one that
answers requests; with exact times the quotient bounds the loop, whatever comes of the states.

## Main definitions

* `Routes.Clock τ` — how the times of a loop are calculated.
* `Routes.counted clock settings data` — the simulation of a request and the number of steps attempted.
* `Routes.Reports data m body results` — the body shows the results, from the initial condition on.
* `Routes.Bounded limit attempts results` — the steps and the results are held to a limit.
-/
namespace PhasePortrait
open Scalar

namespace Routes

/-! ## Clocks -/

/-- The times that doubles stand for, and when a quotient of them is above a whole number. -/
structure Clock (τ : Type) where
  ofFloat : Float → τ
  isAbove : τ → Int → Bool

namespace Clock

def double : Clock Float := ⟨id, Amount.isAbove⟩

noncomputable def exact (τ : Type) [Scalar τ] [Exact τ] : Clock τ where
  ofFloat a := Exact.ofReal (Double.real a)
  isAbove q n := Exact.ofReal (n : ℝ) < q

theorem exact_ofFloat {τ : Type} [Scalar τ] [Exact τ] {a : Float} {x : ℝ} (h : Double.Is a x) :
    (exact τ).ofFloat a = Exact.ofReal x :=
  congrArg Exact.ofReal h.real_eq

end Clock

/-! ## Counting steps -/

/-- A result and the number of steps that were attempted for it. -/
structure Counted (β : Type) where
  value : β
  attempts : Nat

variable {τ : Type} [Scalar τ] (clock : Clock τ) (settings : Settings) (data : Json)

/-- The entries of a simulation in one variable by the times of a clock. -/
def lineEntriesBy (step : Float → Float) (dt : Amount) (horizon x₀ : Float) : List Json :=
  (Trajectory.untilTime step isFinite (clock.ofFloat dt.toFloat) (clock.ofFloat horizon) x₀).toList.map
    fun (i, x) => linePointJson dt i x

def refuseHorizonBy (horizon dt : Amount) : Except Failure Unit :=
  refuseIf (clock.isAbove (clock.ofFloat horizon.toFloat / clock.ofFloat dt.toFloat) settings.maxSteps)
    "Step size is too small for the given end time"

def countedRk4 : Except Failure (Counted Run) := do
  let x₀ ← realField data "x0" "Initial condition X₀" none
  let y₀ ← realField data "y0" "Initial condition Y₀" none
  let dt ← realField data "dt" "Step size (dt)" (some settings.defaultStep)
  let steps ← wholeField data "steps" "Number of steps" none
  refuseStep dt
  refuseIf (!(0 < steps && steps ≤ settings.maxSteps))
    s!"Number of steps must be between 1 and {settings.maxSteps}"
  let s ← planarSystem data
  let start : Point Float := ⟨x₀.toFloat, y₀.toFloat⟩
  return ⟨⟨planarEntries s dt steps.toNat start,
    [("x0", x₀.json), ("y0", y₀.json), ("dt", dt.json), ("steps", .int steps)]⟩,
    s.attempts dt.toFloat steps.toNat start⟩

def countedAdaptive : Except Failure (Counted Run) := do
  let x₀ ← realField data "x0" "Initial condition X₀" none
  let y₀ ← realField data "y0" "Initial condition Y₀" none
  let dt ← realField data "dt" "Step size (dt)" (some settings.defaultStep)
  let tEnd ← realField data "t_end" "End time" none
  let tolerance ← realField data "tolerance" "Tolerance" (some settings.defaultTolerance)
  refuseStep dt
  refuseEnd tEnd
  refuseTolerance settings tolerance
  refuseHorizon settings tEnd dt
  let s ← planarSystem data
  let start : Point Float := ⟨x₀.toFloat, y₀.toFloat⟩
  let samples ← computed <|
    Integrator.adaptive s.rhs 0.0 start.toVector tEnd.toFloat dt.toFloat tolerance.toFloat
      (some settings.maxSteps.toNat)
  return ⟨⟨adaptiveJson dt samples.toList,
    [("x0", x₀.json), ("y0", y₀.json), ("dt", dt.json), ("t_end", tEnd.json),
      ("tolerance", tolerance.json)]⟩,
    Integrator.adaptiveAttempts s.rhs 0.0 start.toVector tEnd.toFloat dt.toFloat tolerance.toFloat
      settings.maxSteps.toNat⟩

def countedLine (step : LineSystem Float → ParameterValues Float → Float → Float → Float) :
    Except Failure (Counted Run) := do
  let x₀ ← realField data "x0" "Initial condition X₀" none
  let tMax ← realField data "t_max" "End time" none
  let dt ← realField data "dt" "Step size (dt)" (some settings.defaultStep)
  refuseStep dt
  refuseEnd tMax
  refuseHorizonBy clock settings tMax dt
  let (s, params) ← lineSystem data
  return ⟨⟨lineEntriesBy clock (step s params dt.toFloat) dt tMax.toFloat x₀.toFloat,
    [("x0", x₀.json), ("t_max", tMax.json), ("dt", dt.json), ("parameters", parametersJson params)]⟩,
    Trajectory.untilAttempts (step s params dt.toFloat) isFinite (clock.ofFloat dt.toFloat)
      (clock.ofFloat tMax.toFloat) x₀.toFloat⟩

def countedRun : Method → Except Failure (Counted Run)
  | .rk4 => countedRk4 settings data
  | .adaptive => countedAdaptive settings data
  | .rk4Line => countedLine clock settings data LineSystem.rk4Step
  | .eulerLine => countedLine clock settings data LineSystem.eulerStep

/-- The body of the answer to a simulation, by the times of a clock, and the steps attempted. -/
def counted : Except Failure (Counted Json) := do
  requireObject data
  let key := Text.strip ((data.get? "method").getD (.text "rk4")).display
  match Method.ofKey? key with
  | none =>
    refuse ("Invalid method: " ++ key ++ ". Valid methods are: "
      ++ Text.joined (Method.all.map Method.key))
  | some m =>
    let r ← countedRun clock settings data m
    return ⟨.object ([("status", .text "success"), ("method", .text m.title),
      ("results", .list r.value.results), ("num_points", .int r.value.results.length),
      ("message", .text ("System successfully integrated using " ++ m.title))] ++ r.value.values),
      r.attempts⟩

/-! ## Counting changes nothing -/

theorem value_countedRk4 : Counted.value <$> countedRk4 settings data = runRk4 settings data := by
  simp only [countedRk4, runRk4, map_bind, map_pure]

theorem value_countedAdaptive :
    Counted.value <$> countedAdaptive settings data = runAdaptive settings data := by
  simp only [countedAdaptive, runAdaptive, map_bind, map_pure]

theorem value_countedLine (step : LineSystem Float → ParameterValues Float → Float → Float → Float) :
    Counted.value <$> countedLine .double settings data step = runLine step settings data := by
  simp only [countedLine, runLine, map_bind, map_pure]
  rfl

theorem value_countedRun (m : Method) :
    Counted.value <$> countedRun .double settings data m = run settings data m := by
  cases m with
  | rk4 => exact value_countedRk4 settings data
  | adaptive => exact value_countedAdaptive settings data
  | rk4Line => exact value_countedLine settings data _
  | eulerLine => exact value_countedLine settings data _

/-- With doubles for its times, the simulation is the one that answers requests. -/
theorem value_counted : Counted.value <$> counted .double settings data = simulate settings data := by
  rw [counted, simulate, map_bind]
  congr 1
  funext _
  dsimp only
  cases Method.ofKey? (Text.strip ((data.get? "method").getD (.text "rk4")).display) with
  | none => rfl
  | some m => simp only [← value_countedRun, map_bind, bind_map_left, map_pure]

/-! ## What is counted and reported -/

variable {settings data} {clock}

/-- The time zero and the initial condition that a request gives. -/
structure Initial (data : Json) (m : Method) (entry : Json) : Prop where
  time : entry.get? "t" = some (.float 0.0)
  x : ∃ x₀, Given data "x0" x₀ ∧ entry.get? "x" = some (.float x₀.toFloat)
  y : m = .rk4 ∨ m = .adaptive → ∃ y₀, Given data "y0" y₀ ∧ entry.get? "y" = some (.float y₀.toFloat)

/-- The body of an answer shows the results and their number, from the initial condition on. -/
structure Reports (data : Json) (m : Method) (body : Json) (results : List Json) : Prop where
  shown : body.get? "results" = some (.list results)
  count : body.get? "num_points" = some (.int results.length)
  first : ∃ entry, results.head? = some entry ∧ Initial data m entry

/-- The steps that are attempted and the results are held to a limit. -/
structure Bounded (limit : Int) (attempts : Nat) (results : List Json) : Prop where
  attempts_le : attempts ≤ limit
  length_pos : 1 ≤ results.length
  length_le : results.length ≤ limit + 1

/-- A first result for the initial condition, and at most one more for each attempt. -/
def Begun (data : Json) (m : Method) (r : Counted Run) : Prop :=
  ∃ entry further, r.value.results = entry :: further ∧ further.length ≤ r.attempts ∧
    Initial data m entry

theorem Begun.bounded {m : Method} {r : Counted Run} {limit : Int} (h : Begun data m r)
    (hlimit : r.attempts ≤ limit) : Bounded limit r.attempts r.value.results := by
  obtain ⟨entry, further, hresults, hlength, -⟩ := h
  rw [hresults]
  exact ⟨hlimit, by simp, by rw [List.length_cons]; omega⟩

theorem begun_countedRk4 {r : Counted Run} (h : countedRk4 settings data = .ok r) :
    Begun data .rk4 r ∧ r.attempts ≤ settings.maxSteps := by
  obtain ⟨x₀, hx₀, h⟩ := exists_of_bind h
  obtain ⟨y₀, hy₀, h⟩ := exists_of_bind h
  obtain ⟨dt, -, h⟩ := exists_of_bind h
  obtain ⟨steps, -, h⟩ := exists_of_bind h
  obtain ⟨_, -, h⟩ := exists_of_bind h
  obtain ⟨_, hsteps, h⟩ := exists_of_bind h
  obtain ⟨s, -, h⟩ := exists_of_bind h
  cases h
  have hsteps : 0 < steps ∧ steps ≤ settings.maxSteps := by
    simpa using eq_false_of_refuseIf hsteps
  obtain ⟨further, hentries, hlength⟩ :=
    s.exists_toList_trajectory dt.toFloat steps.toNat ⟨x₀.toFloat, y₀.toFloat⟩
  constructor
  · refine ⟨_, _, by rw [planarEntries, hentries, List.map_cons], by rwa [List.length_map], rfl,
      ⟨x₀, given_of_realField hx₀, rfl⟩, fun _ => ⟨y₀, given_of_realField hy₀, rfl⟩⟩
  · have hle := s.attempts_le dt.toFloat steps.toNat ⟨x₀.toFloat, y₀.toFloat⟩
    dsimp only
    omega

theorem adaptiveJson_cons (dt : Amount) (first : AdaptiveSample Float 2)
    (further : List (AdaptiveSample Float 2)) :
    ∃ entries, adaptiveJson dt (first :: further) = adaptivePointJson first (.float 0.0) :: entries ∧
      entries.length = further.length := by
  have hlength := (forall₂_shown_stepsJson dt (further.map AdaptiveSample.h)).length_eq
  rw [List.length_map] at hlength
  exact ⟨_, rfl, by rw [List.length_zipWith, List.tail_cons, ← hlength, min_self]⟩

theorem begun_countedAdaptive {r : Counted Run} (hlimit : 1 ≤ settings.maxSteps)
    (h : countedAdaptive settings data = .ok r) :
    Begun data .adaptive r ∧ r.attempts ≤ settings.maxSteps := by
  obtain ⟨x₀, hx₀, h⟩ := exists_of_bind h
  obtain ⟨y₀, hy₀, h⟩ := exists_of_bind h
  obtain ⟨dt, -, h⟩ := exists_of_bind h
  obtain ⟨tEnd, -, h⟩ := exists_of_bind h
  obtain ⟨tolerance, -, h⟩ := exists_of_bind h
  obtain ⟨_, -, h⟩ := exists_of_bind h
  obtain ⟨_, -, h⟩ := exists_of_bind h
  obtain ⟨_, -, h⟩ := exists_of_bind h
  obtain ⟨_, -, h⟩ := exists_of_bind h
  obtain ⟨s, -, h⟩ := exists_of_bind h
  obtain ⟨samples, hsamples, h⟩ := exists_of_bind h
  cases h
  obtain ⟨further, hfurther, hle⟩ := Integrator.exists_toList_adaptive (eq_ok_of_computed hsamples)
  constructor
  · obtain ⟨entries, hentries, hlength⟩ := adaptiveJson_cons dt _ further
    exact ⟨_, entries, by rw [hfurther, hentries], hlength.trans_le hle, rfl,
      ⟨x₀, given_of_realField hx₀, rfl⟩, fun _ => ⟨y₀, given_of_realField hy₀, rfl⟩⟩
  · have hle := Integrator.adaptiveAttempts_le s.rhs 0.0 (Point.mk x₀.toFloat y₀.toFloat).toVector
      tEnd.toFloat dt.toFloat tolerance.toFloat settings.maxSteps.toNat
    dsimp only
    omega

/-- What a simulation in one variable read, and the loop that it ran. -/
theorem exists_of_countedLine {step : LineSystem Float → ParameterValues Float → Float → Float → Float}
    {r : Counted Run} (h : countedLine clock settings data step = .ok r) :
    ∃ x₀ tMax dt s params, Given data "x0" x₀ ∧ Given data "t_max" tMax ∧
      refuseStep dt = .ok () ∧ refuseHorizonBy clock settings tMax dt = .ok () ∧
      r.value.results = lineEntriesBy clock (step s params dt.toFloat) dt tMax.toFloat x₀.toFloat ∧
      r.attempts = Trajectory.untilAttempts (step s params dt.toFloat) isFinite
        (clock.ofFloat dt.toFloat) (clock.ofFloat tMax.toFloat) x₀.toFloat := by
  obtain ⟨x₀, hx₀, h⟩ := exists_of_bind h
  obtain ⟨tMax, htMax, h⟩ := exists_of_bind h
  obtain ⟨dt, -, h⟩ := exists_of_bind h
  obtain ⟨_, hstep, h⟩ := exists_of_bind h
  obtain ⟨_, -, h⟩ := exists_of_bind h
  obtain ⟨_, hhorizon, h⟩ := exists_of_bind h
  obtain ⟨⟨s, params⟩, -, h⟩ := exists_of_bind h
  cases h
  exact ⟨x₀, tMax, dt, s, params, given_of_realField hx₀, given_of_realField htMax, hstep, hhorizon,
    rfl, rfl⟩

theorem begun_countedLine {step : LineSystem Float → ParameterValues Float → Float → Float → Float}
    {m : Method} (hm : ¬ (m = .rk4 ∨ m = .adaptive)) {r : Counted Run}
    (h : countedLine clock settings data step = .ok r) : Begun data m r := by
  obtain ⟨x₀, tMax, dt, s, params, hx₀, -, -, -, hresults, hattempts⟩ := exists_of_countedLine h
  obtain ⟨further, hentries, hlength, -⟩ := Trajectory.exists_toList_untilTime
    (step s params dt.toFloat) isFinite (clock.ofFloat dt.toFloat) (clock.ofFloat tMax.toFloat) x₀.toFloat
  rw [lineEntriesBy, hentries, List.map_cons] at hresults
  rw [← hattempts] at hlength
  exact ⟨_, _, hresults, by rwa [List.length_map], rfl, ⟨x₀, hx₀, rfl⟩, fun h => absurd h hm⟩

/-- The quotient that a request is held to is exact. -/
theorem isAbove_exact_eq [Exact τ] {horizon dt : Float} {e d : ℝ} (he : Double.Is horizon e)
    (hd : Double.Is dt d) (hd0 : 0 < d) (n : ℤ) :
    (Clock.exact τ).isAbove ((Clock.exact τ).ofFloat horizon / (Clock.exact τ).ofFloat dt) n =
      decide (n < e / d) := by
  rw [Clock.exact_ofFloat he, Clock.exact_ofFloat hd, Exact.ofReal_div _ _ hd0.ne']
  exact decide_eq_decide.mpr (Exact.ofReal_lt _ _)

/-- With exact times, the quotient that the request is held to bounds the loop. -/
theorem attempts_countedLine_le [Exact τ]
    {step : LineSystem Float → ParameterValues Float → Float → Float → Float}
    (hstep : ∀ (s : LineSystem Float) (params : ParameterValues Float) (dt : Float),
      step s params dt ∈ [s.rk4Step params dt, s.eulerStep params dt])
    (hlimit : 1 ≤ settings.maxSteps) {r : Counted Run}
    (h : countedLine (.exact τ) settings data step = .ok r) : r.attempts ≤ settings.maxSteps := by
  obtain ⟨x₀, tMax, dt, s, params, -, htMax, hpositive, hhorizon, -, hattempts⟩ :=
    exists_of_countedLine h
  obtain ⟨limit, hcast⟩ := Int.eq_ofNat_of_zero_le (show 0 ≤ settings.maxSteps by omega)
  have hpos : 1 ≤ limit := by omega
  rw [refuseHorizonBy, hcast] at hhorizon
  rw [hattempts, hcast, Nat.cast_le]
  cases hfinite : dt.toFloat.isFinite with
  | true =>
    obtain ⟨d, hd⟩ := Double.isFinite_iff.mp hfinite
    obtain ⟨e, he⟩ := Double.isFinite_iff.mp htMax.isFinite
    have hd0 : 0 < d := pos_of_refuseStep hd hpositive
    rw [isAbove_exact_eq he hd hd0] at hhorizon
    have hquotient : e / d ≤ limit := not_lt.mp (not_of_refuseIf hhorizon)
    rw [Clock.exact_ofFloat hd, Clock.exact_ofFloat he]
    exact Trajectory.untilAttempts_le hd0 hpos hquotient
  | false =>
    -- such a length stands for no time, but the first step of it is not finite
    have hdiverged : isFinite (step s params dt.toFloat x₀.toFloat) = false := by
      refine Bool.eq_false_iff.mpr fun h => ?_
      rw [LineSystem.isFinite_length (hstep s params dt.toFloat) h] at hfinite
      cases hfinite
    exact (Trajectory.attempts_le_one hdiverged).trans hpos

/-! ## Answers -/

theorem begun_countedRun {m : Method} (hlimit : 1 ≤ settings.maxSteps) {r : Counted Run}
    (h : countedRun clock settings data m = .ok r) :
    Begun data m r ∧ (m = .rk4 ∨ m = .adaptive → r.attempts ≤ settings.maxSteps) := by
  cases m with
  | rk4 => exact (begun_countedRk4 h).imp_right fun hle _ => hle
  | adaptive => exact (begun_countedAdaptive hlimit h).imp_right fun hle _ => hle
  | rk4Line => exact ⟨begun_countedLine (by simp) h, by simp⟩
  | eulerLine => exact ⟨begun_countedLine (by simp) h, by simp⟩

theorem attempts_countedRun_le [Exact τ] {m : Method} (hlimit : 1 ≤ settings.maxSteps)
    {r : Counted Run} (h : countedRun (.exact τ) settings data m = .ok r) :
    r.attempts ≤ settings.maxSteps := by
  cases m with
  | rk4 => exact (begun_countedRk4 h).2
  | adaptive => exact (begun_countedAdaptive hlimit h).2
  | rk4Line => exact attempts_countedLine_le (fun _ _ _ => by simp) hlimit h
  | eulerLine => exact attempts_countedLine_le (fun _ _ _ => by simp) hlimit h

/-- The body of an answer is made of the results of a run. -/
theorem exists_of_counted (hlimit : 1 ≤ settings.maxSteps) {r : Counted Json}
    (h : counted clock settings data = .ok r) :
    ∃ m run, method? data = some m ∧ countedRun clock settings data m = .ok run ∧
      r.attempts = run.attempts ∧ Reports data m r.value run.value.results := by
  obtain ⟨_, -, h⟩ := exists_of_bind h
  dsimp only at h
  split at h
  · cases h
  · next m hm =>
    obtain ⟨run, hrun, h⟩ := exists_of_bind h
    cases h
    obtain ⟨⟨entry, further, hresults, -, hentry⟩, -⟩ := begun_countedRun hlimit hrun
    exact ⟨m, run, hm, hrun, rfl, rfl, rfl, entry, by rw [hresults, List.head?_cons], hentry⟩

theorem eq_ok_of_reply {a : Answer} {body : Json} (h : reply a = ⟨200, body⟩) : a = .ok body := by
  match a with
  | .ok _ => exact congrArg Except.ok (Reply.mk.inj h).2
  | .error (.refused ..) => exact absurd (Reply.mk.inj h).1 (by decide)
  | .error (.brokenDown _) => exact absurd (Reply.mk.inj h).1 (by decide)

variable (settings data)

/-- **Simulations are bounded.** Whatever number of steps the settings allow for, an answered request
reports its results and their number, from the time zero and the initial condition of the request on.
The loop of a planar method attempts no more steps than are allowed, and there is at most one result for
each of them beside the first. So it is for the other two methods if their times are calculated
exactly. -/
theorem simulate_bounded (hlimit : 1 ≤ settings.maxSteps) :
    (∀ body, reply (simulate settings data) = ⟨200, body⟩ →
      ∃ m attempts results, method? data = some m ∧
        counted .double settings data = .ok ⟨body, attempts⟩ ∧ Reports data m body results ∧
        (m = .rk4 ∨ m = .adaptive → Bounded settings.maxSteps attempts results)) ∧
    ∀ (τ : Type) [Scalar τ] [Exact τ] (body : Json),
      reply (Counted.value <$> counted (.exact τ) settings data) = ⟨200, body⟩ →
      ∃ m attempts results, method? data = some m ∧
        counted (.exact τ) settings data = .ok ⟨body, attempts⟩ ∧ Reports data m body results ∧
        Bounded settings.maxSteps attempts results := by
  constructor
  · intro body hbody
    rw [← value_counted] at hbody
    obtain ⟨⟨_, attempts⟩, hr, rfl⟩ := exists_of_map (eq_ok_of_reply hbody)
    obtain ⟨m, run, hm, hrun, rfl, hreports⟩ := exists_of_counted hlimit hr
    obtain ⟨hbegun, hle⟩ := begun_countedRun hlimit hrun
    exact ⟨m, _, _, hm, hr, hreports, fun hplanar => hbegun.bounded (hle hplanar)⟩
  · intro τ _ _ body hbody
    obtain ⟨⟨_, attempts⟩, hr, rfl⟩ := exists_of_map (eq_ok_of_reply hbody)
    obtain ⟨m, run, hm, hrun, rfl, hreports⟩ := exists_of_counted hlimit hr
    exact ⟨m, _, _, hm, hr, hreports,
      (begun_countedRun hlimit hrun).1.bounded (attempts_countedRun_le hlimit hrun)⟩

variable {settings data}

/-- A request is simulated if each part of it is read and passes. -/
theorem exists_countedLine {step : LineSystem Float → ParameterValues Float → Float → Float → Float}
    {x₀ tMax dt : Amount} {u v w : Unit} {p : LineSystem Float × ParameterValues Float}
    (hx₀ : realField data "x0" "Initial condition X₀" none = .ok x₀)
    (htMax : realField data "t_max" "End time" none = .ok tMax)
    (hdt : realField data "dt" "Step size (dt)" (some settings.defaultStep) = .ok dt)
    (hstep : refuseStep dt = .ok u) (hend : refuseEnd tMax = .ok v)
    (hhorizon : refuseHorizonBy clock settings tMax dt = .ok w) (hsystem : lineSystem data = .ok p) :
    ∃ r, countedLine clock settings data step = .ok r := by
  simp only [countedLine, hx₀, htMax, hdt, hstep, hend, hhorizon, hsystem, bind, Except.bind]
  exact ⟨_, rfl⟩

theorem exists_counted {m : Method} {u : Unit} (hobject : requireObject data = .ok u)
    (hm : method? data = some m) (hrun : ∃ r, countedRun clock settings data m = .ok r) :
    ∃ r, counted clock settings data = .ok r := by
  obtain ⟨r, hrun⟩ := hrun
  rw [method?] at hm
  simp only [counted, hobject, hm, hrun, bind, Except.bind]
  exact ⟨_, rfl⟩

/-- A turning state, for two steps. -/
def oscillation : Json :=
  .object [("x_prime", .text "Y"), ("y_prime", .text "-X"), ("x0", .float 1.0), ("y0", .float 0.0),
    ("dt", .float 0.5), ("steps", .int 2)]

/-- A growing state, until a time that two steps reach. -/
def growth : Json :=
  .object [("method", .text "euler_1d"), ("equation", .text "X"), ("x0", .float 1.0),
    ("t_max", .float 1.0), ("dt", .float 0.5)]

theorem exists_counted_growth :
    ∃ r, counted (.exact PartialReal) { maxSteps := 2 } growth = .ok r := by
  obtain ⟨hmethod, hsystem⟩ : method? growth = some .eulerLine ∧ (lineSystem growth).isOk = true := by
    decide +kernel
  obtain ⟨p, hsystem⟩ := exists_of_isOk hsystem
  have hone : Double.Is (1.0 : Float) (1 : ℝ) := by
    have hunpack : (1.0 : Float).toModel.unpack = .finite .positive (2 ^ 52) (-52) (by decide) := rfl
    exact Double.is_of_unpack_positive hunpack (by norm_num)
  have hhorizon : refuseHorizonBy (.exact PartialReal) { maxSteps := 2 } (.real 1.0) (.real 0.5) =
      .ok () := by
    have habove := isAbove_exact_eq (τ := PartialReal) hone Double.is_half (by norm_num) 2
    rw [decide_eq_false (by norm_num)] at habove
    exact congrArg (refuseIf · _) habove
  have hx₀ : realField growth "x0" "Initial condition X₀" none = .ok (.real 1.0) := rfl
  exact exists_counted (u := ()) rfl hmethod
    (exists_countedLine (u := ()) (v := ()) hx₀ rfl rfl rfl rfl hhorizon hsystem)

theorem simulate_bounded_two :
    (1 : ℤ) ≤ ({ maxSteps := 2 } : Settings).maxSteps ∧
    (∃ body, reply (simulate { maxSteps := 2 } oscillation) = ⟨200, body⟩ ∧
      ∃ m attempts results, method? oscillation = some m ∧
        counted .double { maxSteps := 2 } oscillation = .ok ⟨body, attempts⟩ ∧
        Reports oscillation m body results ∧
        (m = .rk4 ∨ m = .adaptive → Bounded 2 attempts results)) ∧
    ∃ body,
      reply (Counted.value <$> counted (.exact PartialReal) { maxSteps := 2 } growth) = ⟨200, body⟩ ∧
      ∃ m attempts results, method? growth = some m ∧
        counted (.exact PartialReal) { maxSteps := 2 } growth = .ok ⟨body, attempts⟩ ∧
        Reports growth m body results ∧ Bounded 2 attempts results := by
  have hlimit : (1 : ℤ) ≤ ({ maxSteps := 2 } : Settings).maxSteps := by decide
  obtain ⟨body, hbody⟩ := exists_of_isOk (x := simulate { maxSteps := 2 } oscillation) (by decide +kernel)
  obtain ⟨r, hr⟩ := exists_counted_growth
  have hreply : reply (simulate { maxSteps := 2 } oscillation) = ⟨200, body⟩ := by rw [hbody, reply]
  have hexact : reply (Counted.value <$> counted (.exact PartialReal) { maxSteps := 2 } growth) =
      ⟨200, r.value⟩ := by rw [hr]; rfl
  exact ⟨hlimit, ⟨body, hreply, (simulate_bounded _ _ hlimit).1 body hreply⟩,
    ⟨r.value, hexact, (simulate_bounded _ _ hlimit).2 PartialReal r.value hexact⟩⟩

end Routes

end PhasePortrait
