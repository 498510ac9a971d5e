import PhasePortrait.Proofs.Except
import PhasePortrait.Proofs.Flow.Finiteness
import PhasePortrait.Proofs.Service.Answering
import PhasePortrait.Proofs.Service.Numbers

/-!
# Numbers out of range in an answer

Requests are held to finite numbers when they are read, and states when they are reached, so the
inputs, states, lengths of steps and samples of a field in a successful answer are finite or null. What
is computed from them besides may overflow. Every number in an answer that is not finite is listed here
with its reason.

## Main definitions

* `Routes.Excess settings path data body place x` — why the number `x` at a place in an answer need
  not be finite.
* `Routes.Run.Every P r` — the numbers of a simulation are as their places demand.
-/
namespace PhasePortrait

/-- The amounts that stand for what a request leaves out are finite. -/
structure Settings.Finite (settings : Settings) : Prop where
  step : settings.defaultStep.toFloat.isFinite = true
  tolerance : settings.defaultTolerance.toFloat.isFinite = true

namespace Routes
open Scalar Double

variable {settings : Settings} {data body : Json} {r : Run}

/-! ## Steps of an answer -/

theorem eq_false_of_refuseIf {condition : Bool} {message : String} {u : Unit}
    (h : refuseIf condition message = .ok u) : condition = false := by
  cases condition with
  | true => cases h
  | false => rfl

theorem not_of_refuseIf {p : Prop} [Decidable p] {message : String} {u : Unit}
    (h : refuseIf (decide p) message = .ok u) : ¬ p :=
  of_decide_eq_false (eq_false_of_refuseIf h)

theorem eq_ok_of_computed {β : Type} {r : Except Refusal β} {b : β} (h : computed r = .ok b) :
    r = .ok b := by
  cases r with
  | ok c =>
    cases h
    rfl
  | error _ => cases h

/-! ## Numbers out of range -/

/-- So large that twice the amount may be out of range. -/
def Huge (a : Amount) : Prop := ¬ Scalar.abs a.toFloat ≤ 8.9e307

/-- What makes a number in the body of a successful answer other than finite. -/
inductive Excess (settings : Settings) (path : String) (data body : Json) :
    List String → Float → Prop where
  /-- A parameter was given such a value. -/
  | parameter (params : ParameterValues Float) (name : String) (x : Float)
      (hread : readsParameters path data = true) (hparams : parameters data = .ok params)
      (hmem : (name, x) ∈ params) : Excess settings path data body ["parameters", name] x
  /-- The time after all steps is out of range. -/
  | steps (dt : Amount) (count : Int) (x : Float) (hpath : path = "/simulate")
      (hmethod : method? data = some .rk4)
      (hdt : realField data "dt" "Step size (dt)" (some settings.defaultStep) = .ok dt)
      (hcount : wholeField data "steps" "Number of steps" none = .ok count)
      (hlast : (Trajectory.timeAt dt.toFloat count.toNat).isFinite = false) :
      Excess settings path data body ["results", "t"] x
  /-- The end of a simulation is too far off. -/
  | horizon (key : String) (tEnd : Amount) (x : Float) (hpath : path = "/simulate")
      (hkey : key = "t_end" ∨ key = "t_max") (hgiven : Given data key tEnd) (hhuge : Huge tEnd) :
      Excess settings path data body ["results", "t"] x
  /-- A step was taken for its shortness, whatever its error. -/
  | shortStep (entries : List Json) (entry : Json) (h : Amount) (x : Float)
      (hpath : path = "/simulate") (hmethod : method? data = some .adaptive)
      (hentries : body.get? "results" = some (.list entries)) (hentry : entry ∈ entries)
      (hlength : entry.get? "h" = some h.json) (hshort : h.toFloat < Integrator.minStep)
      (herror : entry.get? "error" = some (.float x)) :
      Excess settings path data body ["results", "error"] x
  /-- An end of the range along an axis is too far off. -/
  | range (axis : String) (key : String) (bound : Amount) (place : List String) (x : Float)
      (hkey : key = axis ++ "_min" ∨ key = axis ++ "_max") (hgiven : Given data key bound)
      (hhuge : Huge bound)
      (hplace : place = ["equilibria", axis] ∨
        path = "/phase-line" ∧ axis = "x" ∧ place = ["degenerate_intervals"]) :
      Excess settings path data body place x

/-- A number in an answer is finite, or there is a reason for it not to be. -/
def Accounted (settings : Settings) (path : String) (data body : Json) (place : List String)
    (x : Float) : Prop :=
  x.isFinite = true ∨ Excess settings path data body place x

theorem accounted {path : String} {place : List String} {x : Float} (h : x.isFinite = true) :
    Accounted settings path data body place x := .inl h

/-! ## Simulations -/

/-- The numbers in the results and the values of a simulation. -/
structure Run.Every (P : List String → Float → Prop) (r : Run) : Prop where
  results : ∀ j ∈ r.results, j.Every fun place => P ("results" :: place)
  values : ∀ f ∈ r.values, f.2.Every fun place => P (f.1 :: place)

theorem every_json {P : List String → Float → Prop} {a : Amount} (h : P [] a.toFloat) :
    a.json.Every P := by
  cases a with
  | whole n => exact Json.every_int n
  | real x => exact (Json.every_float x).mpr h

theorem every_timeJson {P : List String → Float → Prop} {dt : Amount} {i : Nat}
    (h : P [] (Trajectory.timeAt dt.toFloat i)) : (timeJson dt i).Every P := by
  cases i with
  | zero => exact (Json.every_float _).mpr h
  | succ i =>
    cases dt with
    | whole n => exact Json.every_int _
    | real x => exact (Json.every_float _).mpr h

theorem pos_of_refuseStep {dt : Amount} {d : ℝ} {u : Unit} (hd : Is dt.toFloat d)
    (h : refuseStep dt = .ok u) : 0 < d := by
  have hpos := not_of_refuseIf h
  rwa [le_iff hd is_zero, EReal.coe_le_coe_iff, not_le] at hpos

theorem exists_step {label : String} {dt : Amount} {u : Unit}
    (hsettings : settings.Finite)
    (hdt : realField data "dt" label (some settings.defaultStep) = .ok dt)
    (hpositive : refuseStep dt = .ok u) :
    dt.toFloat.isFinite = true ∧ ∃ d : ℝ, Is dt.toFloat d ∧ 0 ≤ d := by
  have hfinite := isFinite_of_realField hsettings.step hdt
  obtain ⟨d, hd⟩ := isFinite_iff.mp hfinite
  exact ⟨hfinite, d, hd, (pos_of_refuseStep hd hpositive).le⟩

theorem every_runRk4 (hsettings : settings.Finite)
    (hmethod : method? data = some .rk4) (h : runRk4 settings data = .ok r) :
    r.Every (Accounted settings "/simulate" data body) := by
  obtain ⟨x₀, hx₀, h⟩ := exists_of_bind h
  obtain ⟨y₀, hy₀, h⟩ := exists_of_bind h
  obtain ⟨dt, hdt, h⟩ := exists_of_bind h
  obtain ⟨steps, hsteps, h⟩ := exists_of_bind h
  obtain ⟨_, hpositive, h⟩ := exists_of_bind h
  obtain ⟨_, -, h⟩ := exists_of_bind h
  obtain ⟨s, -, h⟩ := exists_of_bind h
  cases h
  have hx₀ := (given_of_realField hx₀).isFinite
  have hy₀ := (given_of_realField hy₀).isFinite
  obtain ⟨hfinite, d, hd, hd0⟩ := exists_step hsettings hdt hpositive
  have hcount := toNat_le_of_fitsWord (fitsWord_of_wholeField hsteps fun _ hd => nomatch hd)
  constructor
  · intro j hj
    obtain ⟨⟨i, p⟩, hentry, rfl⟩ := List.mem_map.mp hj
    obtain ⟨hi, hp⟩ := Trajectory.of_mem_ofCount (Array.mem_toList_iff.mp hentry)
    have hstate : p.x.isFinite = true ∧ p.y.isFinite = true := by
      rcases hp with rfl | hp
      · exact ⟨hx₀, hy₀⟩
      · exact Bool.and_eq_true_iff.mp hp
    have htime : Accounted settings "/simulate" data body ["results", "t"]
        (Trajectory.timeAt dt.toFloat i) := by
      cases hlast : (Trajectory.timeAt dt.toFloat steps.toNat).isFinite with
      | true => exact accounted (Trajectory.isFinite_timeAt_of_le hd hd0 hcount hlast hi)
      | false => exact .inr (.steps dt steps _ rfl hmethod hdt hsteps hlast)
    simp only [pointJson, Json.every_object, List.forall_mem_cons, Json.every_float]
    exact ⟨every_timeJson htime, accounted hstate.1, accounted hstate.2, List.forall_mem_nil _⟩
  · simp only [List.forall_mem_cons]
    exact ⟨every_json (accounted hx₀), every_json (accounted hy₀), every_json (accounted hfinite),
      Json.every_int _, List.forall_mem_nil _⟩

theorem exists_is_of_not_huge {a : Amount} (h : ¬ Huge a) :
    ∃ e : ℝ, Is a.toFloat e ∧ e ≤ PhaseLine.reach := by
  obtain ⟨e, he, hle⟩ := PhaseLine.within_reach (not_not.mp h)
  exact ⟨e, he, (le_abs_self e).trans hle⟩

theorem every_parametersJson {P : List String → Float → Prop} {params : ParameterValues Float} :
    (parametersJson params).Every P ↔ ∀ name x, (name, x) ∈ params → P [name] x := by
  rw [parametersJson, Json.every_object, List.forall_mem_map]
  simp only [Json.every_float, Prod.forall]

theorem parameters_of_lineSystem {s : LineSystem Float} {params : ParameterValues Float}
    (h : lineSystem data = .ok (s, params)) : parameters data = .ok params ∧ s.isValid = true := by
  obtain ⟨_, -, h⟩ := exists_of_bind h
  obtain ⟨ps, hps, h⟩ := exists_of_bind h
  dsimp only at h
  split at h
  · next hvalid =>
    obtain ⟨rfl, rfl⟩ := Prod.mk.inj (Except.ok.inj h)
    exact ⟨hps, hvalid⟩
  · cases h

theorem accounted_parameters (settings : Settings) {path : String} (body : Json)
    {params : ParameterValues Float} (hread : readsParameters path data = true)
    (hparams : parameters data = .ok params) :
    (parametersJson params).Every fun place =>
      Accounted settings path data body ("parameters" :: place) :=
  every_parametersJson.mpr fun name x hmem => .inr (.parameter params name x hread hparams hmem)

/-- Simulations in one variable. -/
theorem every_runLine {step : LineSystem Float → ParameterValues Float → Float → Float → Float}
    (hsettings : settings.Finite)
    (hread : readsParameters "/simulate" data = true) (h : runLine step settings data = .ok r) :
    r.Every (Accounted settings "/simulate" data body) := by
  obtain ⟨x₀, hx₀, h⟩ := exists_of_bind h
  obtain ⟨tMax, htMax, h⟩ := exists_of_bind h
  obtain ⟨dt, hdt, h⟩ := exists_of_bind h
  obtain ⟨_, hpositive, h⟩ := exists_of_bind h
  obtain ⟨_, -, h⟩ := exists_of_bind h
  obtain ⟨_, -, h⟩ := exists_of_bind h
  obtain ⟨⟨s, params⟩, hs, h⟩ := exists_of_bind h
  cases h
  obtain ⟨hparams, -⟩ := parameters_of_lineSystem hs
  have hx₀ := (given_of_realField hx₀).isFinite
  have hgiven := given_of_realField htMax
  obtain ⟨hfinite, d, hd, hd0⟩ := exists_step hsettings hdt hpositive
  constructor
  · intro j hj
    obtain ⟨⟨i, x⟩, hentry, rfl⟩ := List.mem_map.mp hj
    have hentry := Trajectory.of_mem_untilTime (Array.mem_toList_iff.mp hentry)
    have hstate : x.isFinite = true := by
      rcases hentry with heq | ⟨hx, -⟩
      · cases heq
        exact hx₀
      · exact hx
    have htime : Accounted settings "/simulate" data body ["results", "t"]
        (Trajectory.timeAt dt.toFloat i) := by
      rcases hentry with heq | ⟨-, k, rfl, hbefore, hk⟩
      · cases heq
        exact accounted (isFinite_iff.mpr ⟨0, is_zero⟩)
      · by_cases hhuge : Huge tMax
        · exact .inr (.horizon "t_max" tMax _ rfl (.inr rfl) hgiven hhuge)
        · obtain ⟨e, he, hle⟩ := exists_is_of_not_huge hhuge
          exact accounted (Trajectory.isFinite_timeAt_succ hd hd0 he hle hk hbefore)
    simp only [linePointJson, Json.every_object, List.forall_mem_cons, Json.every_float]
    exact ⟨every_timeJson htime, accounted hstate, List.forall_mem_nil _⟩
  · simp only [List.forall_mem_cons]
    exact ⟨every_json (accounted hx₀), every_json (accounted hgiven.isFinite),
      every_json (accounted hfinite), accounted_parameters _ _ hread hparams,
      List.forall_mem_nil _⟩

/-! ## Step doubling -/

/-- How the length of a step is shown: by an amount that is finite and short if the length is. -/
def Shown (h : Float) (j : Json) : Prop :=
  ∃ a : Amount, j = a.json ∧ (h.isFinite = true → a.toFloat.isFinite = true) ∧
    (h < Integrator.minStep → a.toFloat < Integrator.minStep)

theorem shown_float (h : Float) : Shown h (.float h) := ⟨.real h, rfl, id, id⟩

theorem shown_of_beq {dt : Amount} {h : Float} (heq : (h == dt.toFloat) = true) : Shown h dt.json := by
  obtain ⟨v, hv, hv'⟩ := exists_of_beq heq
  refine ⟨dt, rfl, fun hfinite => ?_, fun hshort => ?_⟩
  · obtain ⟨x, hx⟩ := isFinite_iff.mp hfinite
    exact isFinite_iff.mpr ⟨x, hv.unique hx ▸ hv'⟩
  · obtain ⟨w, z, hw, hz, hlt⟩ := exists_of_lt hshort
    exact (lt_iff hv' hz).mpr (hv.unique hw ▸ hlt)

theorem forall₂_shown_stepsJson (dt : Amount) (hs : List Float) :
    List.Forall₂ Shown hs (stepsJson dt hs) := by
  induction hs with
  | nil => exact .nil
  | cons h hs ih =>
    rw [stepsJson]
    cases heq : h == dt.toFloat with
    | true =>
      simp only [List.takeWhile_cons, List.dropWhile_cons, heq, if_true, List.map_cons,
        List.cons_append]
      exact .cons (shown_of_beq heq) ih
    | false =>
      simp only [List.takeWhile_cons, List.dropWhile_cons, heq]
      exact List.forall₂_map_right_iff.mpr (List.forall₂_same.mpr fun h _ => shown_float h)

/-- Each entry of an adaptive run shows a sample. -/
theorem exists_of_mem_adaptiveJson {dt : Amount} {samples : List (AdaptiveSample Float 2)} {j : Json}
    (h : j ∈ adaptiveJson dt samples) :
    ∃ s ∈ samples, ∃ length, Shown s.h length ∧ j = adaptivePointJson s length := by
  cases samples with
  | nil => cases h
  | cons first rest =>
    have hfirst : Shown first.h (.float 0.0) :=
      ⟨.real 0.0, rfl, fun _ => by decide +kernel, fun _ => by decide +kernel⟩
    have hshown : List.Forall₂ (fun s : AdaptiveSample Float 2 => Shown s.h) (first :: rest)
        (.float 0.0 :: stepsJson dt (rest.map AdaptiveSample.h)) :=
      .cons hfirst (List.forall₂_map_left_iff.mp (forall₂_shown_stepsJson dt _))
    rw [adaptiveJson, ← List.map_uncurry_zip_eq_zipWith] at h
    obtain ⟨⟨s, length⟩, hmem, rfl⟩ := List.mem_map.mp h
    exact ⟨s, (List.of_mem_zip hmem).1, length, List.forall₂_zip hshown hmem, rfl⟩

theorem every_runAdaptive (hsettings : settings.Finite)
    (hmethod : method? data = some .adaptive) (h : runAdaptive settings data = .ok r)
    (hbody : body.get? "results" = some (.list r.results)) :
    r.Every (Accounted settings "/simulate" data body) := by
  obtain ⟨x₀, hx₀, h⟩ := exists_of_bind h
  obtain ⟨y₀, hy₀, h⟩ := exists_of_bind h
  obtain ⟨dt, hdt, h⟩ := exists_of_bind h
  obtain ⟨tEnd, htEnd, h⟩ := exists_of_bind h
  obtain ⟨tolerance, htol, h⟩ := exists_of_bind h
  obtain ⟨_, hpositive, h⟩ := exists_of_bind h
  obtain ⟨_, -, h⟩ := exists_of_bind h
  obtain ⟨_, -, h⟩ := exists_of_bind h
  obtain ⟨_, -, h⟩ := exists_of_bind h
  obtain ⟨s, -, h⟩ := exists_of_bind h
  obtain ⟨samples, hsamples, h⟩ := exists_of_bind h
  cases h
  have hx₀ := (given_of_realField hx₀).isFinite
  have hy₀ := (given_of_realField hy₀).isFinite
  have hgiven := given_of_realField htEnd
  have htol := isFinite_of_realField hsettings.tolerance htol
  obtain ⟨hfinite, d, hd, hd0⟩ := exists_step hsettings hdt hpositive
  obtain ⟨e, he⟩ := isFinite_iff.mp hgiven.isFinite
  constructor
  · intro j hj
    obtain ⟨p, hp, length, ⟨a, rfl, hlength, hshort⟩, rfl⟩ := exists_of_mem_adaptiveJson hj
    have hstart : ∀ (i : Nat) (h : i < 2),
        Scalar.isFinite (Point.mk x₀.toFloat y₀.toFloat).toVector[i] = true
      | 0, _ => hx₀
      | 1, _ => hy₀
    have hmeasured := Integrator.measured_of_mem_adaptive he hd hd0 hstart
      (eq_ok_of_computed hsamples) (Array.mem_toList_iff.mp hp)
    have htime : Accounted settings "/simulate" data body ["results", "t"] p.t := by
      by_cases hhuge : Huge tEnd
      · exact .inr (.horizon "t_end" tEnd _ rfl (.inl rfl) hgiven hhuge)
      · obtain ⟨e', he', hle⟩ := exists_is_of_not_huge hhuge
        rw [EReal.coe_eq_coe_iff.mp (he'.unique he)] at hle
        exact accounted (hmeasured.time hle)
    have herror : Accounted settings "/simulate" data body ["results", "error"] p.error := by
      rcases hmeasured.error with hfinite | hbelow
      · exact accounted hfinite
      · exact .inr (.shortStep _ _ a _ rfl hmethod hbody hj rfl (hshort hbelow) rfl)
    simp only [adaptivePointJson, Json.every_object, List.forall_mem_cons, Json.every_float]
    exact ⟨htime, accounted (hmeasured.state 0 two_pos), accounted (hmeasured.state 1 one_lt_two),
      every_json (accounted (hlength hmeasured.length)), herror, List.forall_mem_nil _⟩
  · simp only [List.forall_mem_cons]
    exact ⟨every_json (accounted hx₀), every_json (accounted hy₀), every_json (accounted hfinite),
      every_json (accounted hgiven.isFinite), every_json (accounted htol), List.forall_mem_nil _⟩

/-! ## Routes -/

theorem every_simulate (hsettings : settings.Finite)
    (h : simulate settings data = .ok body) :
    body.Every (Accounted settings "/simulate" data body) := by
  obtain ⟨_, -, h⟩ := exists_of_bind h
  dsimp only at h
  split at h
  · cases h
  · next m hm =>
    have hmethod : method? data = some m := hm
    obtain ⟨r, hr, h⟩ := exists_of_bind h
    have hread : m.readsParameters = true → readsParameters "/simulate" data = true := by
      simp [readsParameters, hmethod]
    have hevery : ∀ body, body.get? "results" = some (.list r.results) →
        r.Every (Accounted settings "/simulate" data body) := by
      intro body hbody
      cases m with
      | rk4 => exact every_runRk4 hsettings hmethod hr
      | adaptive => exact every_runAdaptive hsettings hmethod hr hbody
      | rk4Line => exact every_runLine hsettings (hread rfl) hr
      | eulerLine => exact every_runLine hsettings (hread rfl) hr
    obtain rfl := Except.ok.inj h
    simp only [Json.every_object, List.forall_mem_append, List.forall_mem_cons, Json.every_list]
    exact ⟨⟨Json.every_text _, Json.every_text _, (hevery _ rfl).results, Json.every_int _,
      Json.every_text _, List.forall_mem_nil _⟩, (hevery _ rfl).values⟩

/-! ## Ranges -/

theorem given_of_huge {key label : String} {d a : Amount} (hd : ¬ Huge d) (ha : Huge a)
    (h : realField data key label (some d) = .ok a) : Given data key a := by
  refine (default_or_given h).resolve_left fun heq => ?_
  cases heq
  exact hd ha

/-- Along each axis an end of the range is too far off, or the range is moderate. -/
theorem excess_or_moderate (settings : Settings) (path : String) (body : Json) (axis : String)
    {place : List String} {low high : Amount} {count : Nat}
    (hplace : place = ["equilibria", axis] ∨
      path = "/phase-line" ∧ axis = "x" ∧ place = ["degenerate_intervals"])
    (hlow : Huge low → Given data (axis ++ "_min") low)
    (hhigh : Huge high → Given data (axis ++ "_max") high)
    (horder : ¬ high.toFloat ≤ low.toFloat) (hcount : count ≤ 2 ^ 65) (hpos : 0 < count) :
    (∀ x, Excess settings path data body place x) ∨
      PhaseLine.Moderate low.toFloat high.toFloat count := by
  by_cases hl : Huge low
  · exact .inl fun x => .range axis _ low place x (.inl rfl) (hlow hl) hl hplace
  · by_cases hh : Huge high
    · exact .inl fun x => .range axis _ high place x (.inr rfl) (hhigh hh) hh hplace
    · exact .inr ⟨not_not.mp hl, not_not.mp hh, horder,
        isFinite_iff.mpr ⟨_, is_natCast_of_le hcount⟩, hpos⟩

theorem every_finiteJson {P : List String → Float → Prop} {x : Float}
    (h : x.isFinite = true → P [] x) : (finiteJson x).Every P := by
  unfold finiteJson
  split
  · next hfinite => exact (Json.every_float x).mpr (h hfinite)
  · exact Json.every_null

theorem every_fieldSampleJson {P : List String → Float → Prop}
    (h : ∀ place x, x.isFinite = true → P place x) (s : FieldSample Float) :
    (fieldSampleJson s).Every P := by
  simp only [fieldSampleJson, Json.every_object, List.forall_mem_cons]
  exact ⟨every_finiteJson (h _ _), every_finiteJson (h _ _), every_finiteJson (h _ _),
    every_finiteJson (h _ _), every_finiteJson (h _ _), every_finiteJson (h _ _),
    every_finiteJson (h _ _), List.forall_mem_nil _⟩

theorem not_huge_five : ¬ Huge (.real (-5.0)) ∧ ¬ Huge (.real 5.0) :=
  ⟨not_not.mpr (by decide +kernel), not_not.mpr (by decide +kernel)⟩

theorem every_field (h : field settings data = .ok body) :
    body.Every (Accounted settings "/field" data body) := by
  obtain ⟨_, -, h⟩ := exists_of_bind h
  obtain ⟨xMin, hxMin, h⟩ := exists_of_bind h
  obtain ⟨xMax, hxMax, h⟩ := exists_of_bind h
  obtain ⟨yMin, hyMin, h⟩ := exists_of_bind h
  obtain ⟨yMax, hyMax, h⟩ := exists_of_bind h
  obtain ⟨size, -, h⟩ := exists_of_bind h
  obtain ⟨gridSize, hsize, h⟩ := exists_of_bind h
  obtain ⟨tolerance, -, h⟩ := exists_of_bind h
  obtain ⟨_, hx, h⟩ := exists_of_bind h
  obtain ⟨_, hy, h⟩ := exists_of_bind h
  obtain ⟨_, -, h⟩ := exists_of_bind h
  obtain ⟨_, hgrid, h⟩ := exists_of_bind h
  obtain ⟨s, -, h⟩ := exists_of_bind h
  obtain ⟨samples, -, h⟩ := exists_of_bind h
  obtain ⟨points, hpoints, h⟩ := exists_of_bind h
  have hpoints := eq_ok_of_computed hpoints
  have hcount := toNat_le_of_fitsWord
    (fitsWord_of_wholeField hsize fun d hd => Option.some.inj hd ▸ (by decide))
  have hpos : 0 < gridSize.toNat := by
    have hrange := eq_false_of_refuseIf hgrid
    simp only [Bool.not_eq_false', Bool.and_eq_true, decide_eq_true_eq] at hrange
    omega
  obtain ⟨hlow, hhigh⟩ := not_huge_five
  have hxs := excess_or_moderate settings "/field" body "x" (.inl rfl)
    (given_of_huge hlow · hxMin) (given_of_huge hhigh · hxMax) (not_of_refuseIf hx) hcount hpos
  have hys := excess_or_moderate settings "/field" body "y" (.inl rfl)
    (given_of_huge hlow · hyMin) (given_of_huge hhigh · hyMax) (not_of_refuseIf hy) hcount hpos
  have hequilibria : ∀ p ∈ points,
      Accounted settings "/field" data body ["equilibria", "x"] p.x ∧
      Accounted settings "/field" data body ["equilibria", "y"] p.y := by
    intro p hp
    obtain ⟨hpx, hpy⟩ := Field.mem_points_of_mem_equilibria hpoints hp
    exact ⟨hxs.symm.imp (·.isFinite_of_mem_points hpx) (· p.x),
      hys.symm.imp (·.isFinite_of_mem_points hpy) (· p.y)⟩
  clear hxs hys
  obtain rfl := Except.ok.inj h
  simp only [Json.every_object, List.forall_mem_cons, Json.every_list, List.forall_mem_map]
  refine ⟨Json.every_text _, fun s _ => every_fieldSampleJson (fun _ _ => accounted) s, fun p hp => ?_,
    Json.every_int _, List.forall_mem_nil _⟩
  obtain ⟨hpx, hpy⟩ := hequilibria p (Array.mem_toList_iff.mp hp)
  simp only [equilibriumJson, Json.every_object, List.forall_mem_cons, Json.every_float]
  exact ⟨hpx, hpy, Json.every_text _, List.forall_mem_nil _⟩

/-- What a phase line is drawn from, and the body that shows it. -/
theorem exists_of_phaseLine (h : phaseLine settings data = .ok body) :
    ∃ xMin xMax count f params, Given data "x_min" xMin ∧ Given data "x_max" xMax ∧
      parameters data = .ok params ∧
      ¬ xMax.toFloat ≤ xMin.toFloat ∧ 2 ≤ count ∧ count ≤ 2 ^ 65 ∧
      body = .object [("status", .text "success"), ("parameters", parametersJson params),
        ("equilibria", .list ((PhaseLine.ofFunction f xMin.toFloat xMax.toFloat count
          PhaseLine.defaultTolerance).equilibria.map phaseLinePointJson)),
        ("degenerate_intervals", .list ((PhaseLine.ofFunction f xMin.toFloat xMax.toFloat count
          PhaseLine.defaultTolerance).degenerate.map intervalJson))] := by
  obtain ⟨_, -, h⟩ := exists_of_bind h
  obtain ⟨xMin, hxMin, h⟩ := exists_of_bind h
  obtain ⟨xMax, hxMax, h⟩ := exists_of_bind h
  obtain ⟨samples, hsamples, h⟩ := exists_of_bind h
  obtain ⟨_, -, h⟩ := exists_of_bind h
  obtain ⟨_, -, h⟩ := exists_of_bind h
  obtain ⟨⟨s, params⟩, hs, h⟩ := exists_of_bind h
  obtain ⟨line, hline, h⟩ := exists_of_bind h
  obtain ⟨hparams, hvalid⟩ := parameters_of_lineSystem hs
  obtain ⟨horder, hcount, rfl⟩ :=
    LineSystem.eq_of_phaseLine_eq_ok hvalid (eq_ok_of_computed hline)
  have hfits := fitsWord_of_wholeField hsamples fun d hd => Option.some.inj hd ▸ (by decide)
  exact ⟨xMin, xMax, samples.toNat, s.derivative params, params, given_of_realField hxMin,
    given_of_realField hxMax, hparams, horder, hcount, toNat_le_of_fitsWord hfits,
    (Except.ok.inj h).symm⟩

theorem every_phaseLine (h : phaseLine settings data = .ok body) :
    body.Every (Accounted settings "/phase-line" data body) := by
  obtain ⟨xMin, xMax, count, f, params, hxMin, hxMax, hparams, horder, hcount, hfits, hbody⟩ :=
    exists_of_phaseLine h
  have hrange : ∀ place, (place = ["equilibria", "x"] ∨ place = ["degenerate_intervals"]) →
      (∀ x, Excess settings "/phase-line" data body place x) ∨
        PhaseLine.Moderate xMin.toFloat xMax.toFloat count := fun place hplace =>
    excess_or_moderate settings _ body "x" (hplace.imp_right fun h => ⟨rfl, rfl, h⟩)
      (fun _ => hxMin) (fun _ => hxMax) horder hfits (by omega)
  have hequilibria : ∀ p ∈ (PhaseLine.ofFunction f xMin.toFloat xMax.toFloat count
      PhaseLine.defaultTolerance).equilibria,
      Accounted settings "/phase-line" data body ["equilibria", "x"] p.x := fun p hp =>
    (hrange _ (.inl rfl)).symm.imp (·.isFinite_of_mem_equilibria hp) (· p.x)
  have hdegenerate : ∀ i ∈ (PhaseLine.ofFunction f xMin.toFloat xMax.toFloat count
      PhaseLine.defaultTolerance).degenerate,
      Accounted settings "/phase-line" data body ["degenerate_intervals"] i.low ∧
      Accounted settings "/phase-line" data body ["degenerate_intervals"] i.high := fun i hi =>
    ⟨(hrange _ (.inr rfl)).symm.imp (·.isFinite_of_mem_degenerate hi |>.1) (· i.low),
      (hrange _ (.inr rfl)).symm.imp (·.isFinite_of_mem_degenerate hi |>.2) (· i.high)⟩
  have hread : readsParameters "/phase-line" data = true := by simp [readsParameters]
  have hparameters := accounted_parameters settings body hread hparams
  refine Eq.subst (motive := fun j => j.Every (Accounted settings "/phase-line" data body))
    hbody.symm ?_
  rw [Json.every_object]
  simp only [List.forall_mem_cons, Json.every_list, List.forall_mem_map]
  refine ⟨Json.every_text _, hparameters, fun p hp => ?_, fun i hi => ?_, List.forall_mem_nil _⟩
  · simp only [phaseLinePointJson, Json.every_object, List.forall_mem_cons, Json.every_float]
    exact ⟨hequilibria p hp, Json.every_text _, Json.every_text _, List.forall_mem_nil _⟩
  · simp only [intervalJson, Json.every_list, List.forall_mem_cons, Json.every_float]
    exact ⟨(hdegenerate i hi).1, (hdegenerate i hi).2, List.forall_mem_nil _⟩

theorem every_of_acceptedOr {P : List String → Float → Prop} {text : String} {fault : Option Fault}
    (h : acceptedOr text fault = .ok body) : body.Every P := by
  cases fault with
  | none =>
    obtain rfl := Except.ok.inj h
    simp [acceptedJson]
  | some _ => cases h

theorem every_of_echoed {P : List String → Float → Prop} {q : Equation Float}
    (h : echoed q = .ok body) : body.Every P := by
  unfold echoed at h
  split at h
  · cases h
  · split at h
    · obtain rfl := Except.ok.inj h
      simp [acceptedJson]
    · cases h

theorem every_validateLine {P : List String → Float → Prop} {text : String} {names : List Json}
    (h : validateLine text names = .ok body) : body.Every P := by
  unfold validateLine at h
  split at h
  · cases h
  · split at h
    · split at h
      · exact every_of_echoed h
      · cases h
    · exact every_of_acceptedOr h

/-- Validation answers with texts and truth values alone. -/
theorem every_validate {P : List String → Float → Prop} (h : validate data = .ok body) :
    body.Every P := by
  obtain ⟨_, -, h⟩ := exists_of_bind h
  dsimp only at h
  split at h
  · obtain ⟨names, -, h⟩ := exists_of_bind h
    exact every_validateLine h
  · exact every_of_echoed h
  · cases h

theorem every_answer {path : String} (hsettings : settings.Finite)
    (h : answer? settings path data = some (.ok body)) :
    body.Every (Accounted settings path data body) := by
  unfold answer? at h
  split at h
  · exact every_validate (Option.some.inj h)
  · exact every_simulate hsettings (Option.some.inj h)
  · exact every_field (Option.some.inj h)
  · exact every_phaseLine (Option.some.inj h)
  · cases h

/-- **Every number in a successful answer is finite, or there is a reason for it.** Beside the values of
parameters, which are passed on as they were given, only times, errors, equilibria and ends of intervals
can be out of range: for too many long steps, for an end of the time or of a range beyond half of the
largest double, or where a step was taken for its shortness. -/
theorem isFinite_or_excess (settings : Settings) (hsettings : settings.Finite) {path : String}
    {data : Json} {a : Answer} (h : answer? settings path data = some a)
    (hstatus : (reply a).status = 200) {place : List String} {x : Float}
    (hx : (place, x) ∈ (reply a).body.numbers) :
    x.isFinite = true ∨ Excess settings path data (reply a).body place x := by
  match a, hstatus with
  | .ok body, _ => exact every_answer hsettings h (place, x) hx
  | .error (.refused ..), hstatus => exact absurd hstatus (by simp [reply])
  | .error (.brokenDown _), hstatus => exact absurd hstatus (by simp [reply])

theorem finite_default : Settings.Finite {} := ⟨by decide +kernel, by decide +kernel⟩

/-- A phase line with a parameter that is given as no number. -/
def undefinedParameter : Json :=
  .object [("equation", .text "X"), ("parameters", .text "a=nan"), ("x_min", .int (-1)),
    ("x_max", .int 1), ("samples", .int 4)]

theorem mem_numbers_of_phaseLine {params : ParameterValues Float} {name : String} {x : Float}
    (h : phaseLine settings data = .ok body) (hparams : parameters data = .ok params)
    (hmem : (name, x) ∈ params) : (["parameters", name], x) ∈ body.numbers := by
  obtain ⟨_, _, _, _, ps, -, -, hps, -, -, -, hbody⟩ := exists_of_phaseLine h
  obtain rfl := Except.ok.inj (hparams.symm.trans hps)
  have hevery : body.Every fun place x => (place, x) ∈ body.numbers := fun _ hn => hn
  generalize body.numbers = numbers at hevery ⊢
  rw [hbody, Json.every_object] at hevery
  exact every_parametersJson.mp (hevery _ (List.mem_cons_of_mem _ List.mem_cons_self)) name x hmem

theorem exists_undefinedParameter :
    ∃ body x, phaseLine {} undefinedParameter = .ok body ∧
      (["parameters", "a"], x) ∈ body.numbers ∧ x.isFinite = false := by
  obtain ⟨body, hbody⟩ := exists_of_isOk (x := phaseLine {} undefinedParameter) (by decide +kernel)
  obtain ⟨_, _, _, _, params, -, -, hparams, -⟩ := exists_of_phaseLine hbody
  have hall : (parameters undefinedParameter).toOption.all
      (·.any fun p => p.1 == "a" && !p.2.isFinite) = true := by decide +kernel
  have hany := of_all_toOption hall params hparams
  obtain ⟨⟨name, x⟩, hmem, hx⟩ := List.any_eq_true.mp hany
  obtain ⟨hname, hx⟩ := Bool.and_eq_true_iff.mp hx
  obtain rfl : name = "a" := beq_iff_eq.mp hname
  exact ⟨body, x, hbody, mem_numbers_of_phaseLine hbody hparams hmem, by simpa using hx⟩

theorem isFinite_or_excess_parameter :
    ∃ body x, answer? {} "/phase-line" undefinedParameter = some (.ok body) ∧
      (reply (.ok body)).status = 200 ∧ (["parameters", "a"], x) ∈ body.numbers ∧
      (x.isFinite = true ∨
        Excess {} "/phase-line" undefinedParameter body ["parameters", "a"] x) := by
  obtain ⟨body, x, hbody, hx, -⟩ := exists_undefinedParameter
  have hanswer : answer? {} "/phase-line" undefinedParameter = some (.ok body) :=
    congrArg some hbody
  exact ⟨body, x, hanswer, rfl, hx, isFinite_or_excess {} finite_default hanswer rfl hx⟩

/-- The value of that parameter is part of the answer. -/
theorem not_isFinite_parameter :
    ¬ ∀ (settings : Settings) (path : String) (data : Json) (a : Answer),
      answer? settings path data = some a → (reply a).status = 200 →
        ∀ (place : List String) (x : Float), (place, x) ∈ (reply a).body.numbers →
          x.isFinite = true := by
  intro h
  obtain ⟨body, x, hbody, hx, hnot⟩ := exists_undefinedParameter
  have hfinite := h {} "/phase-line" undefinedParameter (.ok body) (congrArg some hbody) rfl _ x hx
  rw [hnot] at hfinite
  cases hfinite

end Routes

end PhasePortrait
