import Mathlib.Data.List.Basic
import PhasePortrait.Proofs.Names.Construction
import PhasePortrait.Service.Routes

/-!
# Which requests are answered

A request whose body was read is answered with a result or with the reason for having none, unless
it breaks down. What breaks it down lies in the body: a number out of range under a key that the
route reads, parameters that are no text, parameter names that cannot be listed, looked up or told
apart, or a formula with a whole number that is too long to be echoed.

## Main definitions

* `Reply.Answered r` — the reply carries a result, or an error with its message and kind.
* `Amount.Breaks integer v cause` — the value `v` breaks the reading of a number down.
* `Routes.Culprit path data cause` — what in a request breaks it down.
* `Routes.Settles P Q r` — the computation `r` breaks down for causes in `P` alone and gives results
  in `Q`; it may also be refused.
-/
namespace PhasePortrait

/-- An answer that a client can act on. -/
inductive Reply.Answered (r : Reply) : Prop where
  | success (hstatus : r.status = 200) (hbody : r.body.get? "status" = some (.text "success"))
  | error (message : String) (kind : RefusalKind) (hstatus : r.status = 400)
      (hbody : r.body.get? "status" = some (.text "error"))
      (hmessage : r.body.get? "message" = some (.text message))
      (hkind : r.body.get? "error_type" = some (.text kind.label))

/-! ## Numbers -/

namespace Amount

/-- The values that break the reading of a number down: whole numbers that no double comes near,
whole numbers that fit no machine word, and infinities where a whole number should be. -/
inductive Breaks : (integer : Bool) → Json → Breakdown → Prop where
  | beyondDoubles (n : Int) (h : (whole n).toFloat.isFinite = false) :
      Breaks false (.int n) .overflow
  | infinite (x : Float) (negative : Bool) (h : parts x = .infinite negative) :
      Breaks true (.float x) .overflow
  | wide (n : Int) (h : fitsWord n = false) : Breaks true (.int n) .wideInteger
  | wideReal (x : Float) (negative : Bool) (m : Nat) (e : Int) (h : parts x = .finite negative m e)
      (hwide : fitsWord (truncate negative m e) = false) : Breaks true (.float x) .wideInteger
  | wideText (s : String) (n : Int) (h : Reading.readWhole? s = some n)
      (hwide : fitsWord n = false) : Breaks true (.text s) .wideInteger

theorem finiteReal_ne_broken (x : Float) (cause : Breakdown) :
    finiteReal x ≠ .error (.broken cause) := by
  unfold finiteReal
  split <;> exact nofun

theorem wordSized_eq_broken_iff (n : Int) (cause : Breakdown) :
    wordSized n = .error (.broken cause) ↔ fitsWord n = false ∧ cause = .wideInteger := by
  unfold wordSized
  split
  · next h => simp [h]
  · next h => simp [h, eq_comm]

theorem readReal_eq_broken_iff (v : Json) (cause : Breakdown) :
    readReal v = .error (.broken cause) ↔ Breaks false v cause := by
  constructor
  · intro h
    cases v with
    | int n =>
        simp only [readReal] at h
        split at h
        · cases h
        · next hfinite =>
          cases h
          exact .beyondDoubles n (Bool.eq_false_iff.mpr hfinite)
    | float x => exact absurd h (finiteReal_ne_broken x cause)
    | text s =>
        simp only [readReal] at h
        split at h
        · next x _ => exact absurd h (finiteReal_ne_broken x cause)
        · cases h
    | null | bool | list | object => cases h
  · rintro ⟨n, h⟩
    simp [readReal, h]

theorem readWhole_eq_broken_iff (v : Json) (cause : Breakdown) :
    readWhole v = .error (.broken cause) ↔ Breaks true v cause := by
  constructor
  · intro h
    cases v with
    | int n =>
        obtain ⟨hwide, rfl⟩ := (wordSized_eq_broken_iff n cause).mp h
        exact .wide n hwide
    | float x =>
        simp only [readWhole] at h
        split at h
        · next negative m e hx =>
          obtain ⟨hwide, rfl⟩ := (wordSized_eq_broken_iff _ cause).mp h
          exact .wideReal x negative m e hx hwide
        · next negative hx =>
          cases h
          exact .infinite x negative hx
        · cases h
    | text s =>
        simp only [readWhole] at h
        split at h
        · next n hn =>
          obtain ⟨hwide, rfl⟩ := (wordSized_eq_broken_iff n cause).mp h
          exact .wideText s n hn hwide
        · cases h
    | null | bool | list | object => cases h
  · rintro (_ | ⟨x, negative, h⟩ | ⟨n, h⟩ | ⟨x, negative, m, e, h, hwide⟩ | ⟨s, n, h, hwide⟩)
    · simp [readWhole, h]
    · exact (wordSized_eq_broken_iff n _).mpr ⟨h, rfl⟩
    · simpa [readWhole, h] using (wordSized_eq_broken_iff _ _).mpr ⟨hwide, rfl⟩
    · simpa [readWhole, h] using (wordSized_eq_broken_iff _ _).mpr ⟨hwide, rfl⟩

/-- A field breaks down exactly for a value that breaks the reading down. -/
theorem readField_eq_broken_iff {β : Type} (encode : Amount → β) (data : Json) (key label : String)
    (default : Option β) (integer : Bool) (cause : Breakdown) :
    readField encode data key label default integer = .error (.brokenDown cause) ↔
      ∃ v, data.get? key = some v ∧ Breaks integer v cause := by
  have hread : ∀ v, (if integer then readWhole v else readReal v) = .error (.broken cause) ↔
      Breaks integer v cause := by
    intro v
    cases integer with
    | true => exact readWhole_eq_broken_iff v cause
    | false => exact readReal_eq_broken_iff v cause
  -- what counts as missing leads to the default or to a refusal, and breaks no reading down
  have hmissing : readField encode (.object []) key label default integer ≠
      .error (.brokenDown cause) := by
    intro h
    cases default <;> cases h
  have hempty : Reading.readWhole? "" = none := by decide
  unfold readField
  split
  · next hv => exact iff_of_false hmissing (by simp [hv])
  · next hv =>
    refine iff_of_false hmissing ?_
    rintro ⟨v, hv', hbreaks⟩
    cases hv.symm.trans hv'
    cases hbreaks
  · next hv =>
    refine iff_of_false hmissing ?_
    rintro ⟨v, hv', hbreaks⟩
    cases hv.symm.trans hv'
    cases hbreaks with
    | wideText s n h hwide => cases hempty.symm.trans h
  · next v _ _ hv =>
    have hsome : (∃ w, some v = some w ∧ Breaks integer w cause) ↔ Breaks integer v cause :=
      ⟨fun ⟨w, hw, hbreaks⟩ => Option.some.inj hw ▸ hbreaks, fun h => ⟨v, rfl, h⟩⟩
    rw [hv, hsome, ← hread]
    split
    · next hr => simp [hr]
    · next hr => simp [hr, Failure.validation]
    · next hr => simp [hr, Failure.validation]
    · next hr => simp [hr]

end Amount

/-! ## What a request is made of -/

namespace Routes

/-- The numbers that a simulation reads, and whether they are whole. -/
def Method.numbers : Method → List (String × Bool)
  | .rk4 => [("x0", false), ("y0", false), ("dt", false), ("steps", true)]
  | .adaptive =>
    [("x0", false), ("y0", false), ("dt", false), ("t_end", false), ("tolerance", false)]
  | .rk4Line | .eulerLine => [("x0", false), ("t_max", false), ("dt", false)]

/-- Whether a simulation reads parameters. -/
def Method.readsParameters : Method → Bool
  | .rk4 | .adaptive => false
  | .rk4Line | .eulerLine => true

/-- The method that a request asks for. -/
def method? (data : Json) : Option Method :=
  Method.ofKey? (Text.strip ((data.get? "method").getD (.text "rk4")).display)

/-- The numbers that a route reads from a request, and whether they are whole. -/
def numbers (path : String) (data : Json) : List (String × Bool) :=
  match path with
  | "/simulate" => ((method? data).map Method.numbers).getD []
  | "/field" =>
    [("x_min", false), ("x_max", false), ("y_min", false), ("y_max", false), ("grid_size", true),
      ("equilibrium_grid_size", true), ("tolerance", false)]
  | "/phase-line" => [("x_min", false), ("x_max", false), ("samples", true)]
  | _ => []

/-- Whether a route reads parameters from a request. -/
def readsParameters (path : String) (data : Json) : Bool :=
  match path with
  | "/simulate" => ((method? data).map Method.readsParameters).getD false
  | "/phase-line" => true
  | _ => false

/-- The parameter names that a request asks to be validated with. -/
def givenNames (data : Json) : Json := (data.get? "parameter_names").getD (.list [])

/-- Parameter names that no formula can be validated with: a value that holds no names, a list with
a list or an object for a name, or names that stand as one identifier in an otherwise good
formula. -/
inductive NamesBreak (text : String) : Json → Breakdown → Prop where
  | notListed (j : Json) (h : declaredNames j = .error (.brokenDown .namesNotListed)) :
      NamesBreak text j .namesNotListed
  | notAtomic (j : Json) (names : List Json) (h : declaredNames j = .ok names) (name : Json)
      (hmem : name ∈ names) (hname : isAtomic name = false) : NamesBreak text j .nameNotAtomic
  | repeated (j : Json) (names : List String) (h : declaredNames j = .ok (names.map .text))
      (tree : Tree String) (hread : Formula.read (Text.strip text) (.line names) = .ok tree)
      (hsymbols : ¬ (Symbol.ofNames (Scope.line names).names).Nodup) :
      NamesBreak text j .repeatedName

/-- The scope that a request has its formula validated over. -/
inductive ValidatedOver (data : Json) : Scope → Prop where
  | planar (h : (data.get? "mode").getD (.text "2d") = .text "2d") : ValidatedOver data .planar
  | line (names : List String) (hmode : data.get? "mode" = some (.text "1d"))
      (h : declaredNames (givenNames data) = .ok (names.map .text)) :
      ValidatedOver data (.line names)

/-- A formula that is read, and holds a whole number that is too long to be echoed. -/
def Unechoed (text : String) (s : Scope) : Prop :=
  ∃ tree, Formula.read (Text.strip text) s = .ok tree ∧ Term.echo? tree = none

/-- What in a request breaks it down. -/
inductive Culprit (data : Json) (path : String) : Breakdown → Prop where
  | number (key : String) (integer : Bool) (v : Json) (cause : Breakdown)
      (hread : (key, integer) ∈ numbers path data) (hv : data.get? key = some v)
      (h : Amount.Breaks integer v cause) : Culprit data path cause
  | parameters (v : Json) (hread : readsParameters path data = true)
      (hv : data.get? "parameters" = some v) (htext : ∀ s, v ≠ .text s) (h : v.isFalsy = false) :
      Culprit data path .parametersNotText
  | names (cause : Breakdown) (hpath : path = "/validate")
      (hmode : data.get? "mode" = some (.text "1d"))
      (h : NamesBreak (textField data "equation") (givenNames data) cause) :
      Culprit data path cause
  | longNumber (s : Scope) (hpath : path = "/validate") (hscope : ValidatedOver data s)
      (h : Unechoed (textField data "equation") s) : Culprit data path .longNumber

/-! ## How computations end -/

/-- A computation that breaks down for causes in `P` alone, and whose results are in `Q`. -/
structure Settles {β : Type} (P : Breakdown → Prop) (Q : β → Prop) (r : Except Failure β) :
    Prop where
  cause : ∀ cause, r = .error (.brokenDown cause) → P cause
  result : ∀ x, r = .ok x → Q x

section
variable {β γ : Type} {P P' : Breakdown → Prop} {Q : β → Prop} {R : γ → Prop}

theorem settles_ok {x : β} (h : Q x) : Settles P Q (.ok x) :=
  ⟨fun _ hx => (nomatch hx), fun _ hx => Except.ok.inj hx ▸ h⟩

theorem settles_refused (kind : RefusalKind) (message : String) (label : Option String) :
    Settles P Q (.error (.refused kind message label)) :=
  ⟨fun _ hx => (nomatch hx), fun _ hx => nomatch hx⟩

theorem settles_brokenDown {cause : Breakdown} (h : P cause) :
    Settles P Q (.error (.brokenDown cause)) :=
  ⟨fun _ hx => Failure.brokenDown.inj (Except.error.inj hx) ▸ h, fun _ hx => nomatch hx⟩

theorem Settles.bind {r : Except Failure β} {k : β → Except Failure γ} (h : Settles P Q r)
    (hk : ∀ x, Q x → Settles P R (k x)) : Settles P R (r >>= k) := by
  match r, h with
  | .ok x, h => exact hk x (h.result x rfl)
  | .error (.refused ..), _ => exact settles_refused _ _ _
  | .error (.brokenDown cause), h => exact settles_brokenDown (h.cause cause rfl)

theorem Settles.mono {r : Except Failure β} (h : Settles P Q r) (hP : ∀ cause, P cause → P' cause) :
    Settles P' Q r :=
  ⟨fun cause hcause => hP cause (h.cause cause hcause), h.result⟩

theorem settles_refuse (message : String) : Settles P Q (refuse message : Except Failure β) :=
  settles_refused _ _ _

theorem settles_faulty (message : String) (label : Option String) :
    Settles P Q (faulty message label : Except Failure β) :=
  settles_refused _ _ _

theorem settles_refuseIf (condition : Bool) (message : String) :
    Settles P (fun _ => True) (refuseIf condition message) := by
  cases condition with
  | true => exact settles_refuse message
  | false => exact settles_ok trivial

theorem settles_computed (r : Except Refusal β) : Settles P (fun _ => True) (computed r) := by
  cases r with
  | ok _ => exact settles_ok trivial
  | error _ => exact settles_refused _ _ _

theorem settles_requireObject (data : Json) : Settles P (fun _ => True) (requireObject data) := by
  cases data with
  | object _ => exact settles_ok trivial
  | _ => exact settles_refuse _

theorem settles_planarSystem (data : Json) : Settles P (fun _ => True) (planarSystem data) := by
  refine (settles_refuseIf _ _).bind fun _ _ => ?_
  dsimp only
  split
  · exact settles_ok trivial
  · exact settles_faulty _ _

end

section
variable {data : Json} {path key : String}

theorem settles_realField (hread : (key, false) ∈ numbers path data) (label : String)
    (default : Option Amount) :
    Settles (Culprit data path) (fun _ => True) (realField data key label default) := by
  refine ⟨fun cause h => ?_, fun _ _ => trivial⟩
  obtain ⟨v, hv, hbreaks⟩ := (Amount.readField_eq_broken_iff ..).mp h
  exact .number key false v cause hread hv hbreaks

theorem settles_wholeField (hread : (key, true) ∈ numbers path data) (label : String)
    (default : Option Int) :
    Settles (Culprit data path) (fun _ => True) (wholeField data key label default) := by
  refine ⟨fun cause h => ?_, fun _ _ => trivial⟩
  obtain ⟨v, hv, hbreaks⟩ := (Amount.readField_eq_broken_iff ..).mp h
  exact .number key true v cause hread hv hbreaks

theorem settles_parameters (hread : readsParameters path data = true) :
    Settles (Culprit data path) (fun _ => True) (parameters data) := by
  unfold parameters
  split
  · split
    · exact settles_ok trivial
    · exact settles_refuse _
  · next j htext =>
    split
    · exact settles_ok trivial
    · next hfalsy =>
      cases hv : data.get? "parameters" with
      | none => exact absurd (by rw [hv]; rfl) (htext "")
      | some v =>
          rw [hv] at htext hfalsy
          exact settles_brokenDown
            (.parameters v hread hv htext (Bool.eq_false_iff.mpr hfalsy))

theorem settles_lineSystem (hread : readsParameters path data = true) :
    Settles (Culprit data path) (fun _ => True) (lineSystem data) := by
  refine (settles_refuseIf _ _).bind fun _ _ => (settles_parameters hread).bind fun params _ => ?_
  dsimp only
  split
  · exact settles_ok trivial
  · exact settles_faulty _ _

end

/-! ## The routes -/

/-- The body of a successful answer. -/
def Successful (body : Json) : Prop := body.get? "status" = some (.text "success")

section
variable (settings : Settings) (data : Json) {path : String}

theorem settles_runRk4 (hnumbers : numbers path data = Method.rk4.numbers) :
    Settles (Culprit data path) (fun _ => True) (runRk4 settings data) := by
  rw [Method.numbers] at hnumbers
  refine (settles_realField (by simp [hnumbers]) _ _).bind fun x₀ _ => ?_
  refine (settles_realField (by simp [hnumbers]) _ _).bind fun y₀ _ => ?_
  refine (settles_realField (by simp [hnumbers]) _ _).bind fun dt _ => ?_
  refine (settles_wholeField (by simp [hnumbers]) _ _).bind fun steps _ => ?_
  refine (settles_refuseIf _ _).bind fun _ _ => (settles_refuseIf _ _).bind fun _ _ => ?_
  exact (settles_planarSystem data).bind fun _ _ => settles_ok trivial

theorem settles_runAdaptive (hnumbers : numbers path data = Method.adaptive.numbers) :
    Settles (Culprit data path) (fun _ => True) (runAdaptive settings data) := by
  rw [Method.numbers] at hnumbers
  refine (settles_realField (by simp [hnumbers]) _ _).bind fun x₀ _ => ?_
  refine (settles_realField (by simp [hnumbers]) _ _).bind fun y₀ _ => ?_
  refine (settles_realField (by simp [hnumbers]) _ _).bind fun dt _ => ?_
  refine (settles_realField (by simp [hnumbers]) _ _).bind fun tEnd _ => ?_
  refine (settles_realField (by simp [hnumbers]) _ _).bind fun tolerance _ => ?_
  refine (settles_refuseIf _ _).bind fun _ _ => (settles_refuseIf _ _).bind fun _ _ => ?_
  refine (settles_refuseIf _ _).bind fun _ _ => (settles_refuseIf _ _).bind fun _ _ => ?_
  exact (settles_planarSystem data).bind fun _ _ => (settles_computed _).bind fun _ _ =>
    settles_ok trivial

theorem settles_runLine
    (step : LineSystem Float → ParameterValues Float → Float → Float → Float)
    (hnumbers : numbers path data = [("x0", false), ("t_max", false), ("dt", false)])
    (hparameters : readsParameters path data = true) :
    Settles (Culprit data path) (fun _ => True) (runLine step settings data) := by
  refine (settles_realField (by simp [hnumbers]) _ _).bind fun x₀ _ => ?_
  refine (settles_realField (by simp [hnumbers]) _ _).bind fun tMax _ => ?_
  refine (settles_realField (by simp [hnumbers]) _ _).bind fun dt _ => ?_
  refine (settles_refuseIf _ _).bind fun _ _ => (settles_refuseIf _ _).bind fun _ _ => ?_
  refine (settles_refuseIf _ _).bind fun _ _ => ?_
  exact (settles_lineSystem hparameters).bind fun _ _ => settles_ok trivial

theorem settles_run {m : Method} (hm : method? data = some m) :
    Settles (Culprit data "/simulate") (fun _ => True) (run settings data m) := by
  have hnumbers : numbers "/simulate" data = m.numbers := by simp [numbers, hm]
  have hparameters : readsParameters "/simulate" data = m.readsParameters := by
    simp [readsParameters, hm]
  cases m with
  | rk4 => exact settles_runRk4 settings data hnumbers
  | adaptive => exact settles_runAdaptive settings data hnumbers
  | rk4Line => exact settles_runLine settings data _ hnumbers hparameters
  | eulerLine => exact settles_runLine settings data _ hnumbers hparameters

theorem settles_simulate :
    Settles (Culprit data "/simulate") Successful (simulate settings data) := by
  refine (settles_requireObject data).bind fun _ _ => ?_
  dsimp only
  split
  · exact settles_refuse _
  · next m hm => exact (settles_run settings data hm).bind fun _ _ => settles_ok rfl

theorem settles_field : Settles (Culprit data "/field") Successful (field settings data) := by
  refine (settles_requireObject data).bind fun _ _ => ?_
  refine (settles_realField (by simp [numbers]) _ _).bind fun xMin _ => ?_
  refine (settles_realField (by simp [numbers]) _ _).bind fun xMax _ => ?_
  refine (settles_realField (by simp [numbers]) _ _).bind fun yMin _ => ?_
  refine (settles_realField (by simp [numbers]) _ _).bind fun yMax _ => ?_
  refine (settles_wholeField (by simp [numbers]) _ _).bind fun size _ => ?_
  refine (settles_wholeField (by simp [numbers]) _ _).bind fun equilibriumSize _ => ?_
  refine (settles_realField (by simp [numbers]) _ _).bind fun tolerance _ => ?_
  refine (settles_refuseIf _ _).bind fun _ _ => (settles_refuseIf _ _).bind fun _ _ => ?_
  refine (settles_refuseIf _ _).bind fun _ _ => (settles_refuseIf _ _).bind fun _ _ => ?_
  refine (settles_planarSystem data).bind fun _ _ => ?_
  exact (settles_computed _).bind fun _ _ => (settles_computed _).bind fun _ _ => settles_ok rfl

theorem settles_phaseLine :
    Settles (Culprit data "/phase-line") Successful (phaseLine settings data) := by
  refine (settles_requireObject data).bind fun _ _ => ?_
  refine (settles_realField (by simp [numbers]) _ _).bind fun xMin _ => ?_
  refine (settles_realField (by simp [numbers]) _ _).bind fun xMax _ => ?_
  refine (settles_wholeField (by simp [numbers]) _ _).bind fun samples _ => ?_
  refine (settles_refuseIf _ _).bind fun _ _ => (settles_refuseIf _ _).bind fun _ _ => ?_
  refine (settles_lineSystem (by simp [readsParameters])).bind fun _ _ => ?_
  exact (settles_computed _).bind fun _ _ => settles_ok rfl

theorem settles_acceptedOr {P : Breakdown → Prop} (text : String) (fault : Option Fault) :
    Settles P Successful (acceptedOr text fault) := by
  cases fault with
  | none => exact settles_ok rfl
  | some _ => exact settles_faulty _ _

theorem settles_echoed {P : Breakdown → Prop} {text : String} {s : Scope}
    (h : Unechoed text s → P .longNumber) :
    Settles P Successful (echoed (Equation.ofText text s)) := by
  unfold echoed
  split
  · exact settles_faulty _ _
  · next c hc =>
    split
    · exact settles_ok rfl
    · next hlong =>
      obtain ⟨tree, hread, hprepare⟩ := exists_of_bind hc
      obtain rfl : c.tree = tree := by rw [Formula.compiled_of_prepare hprepare]
      exact settles_brokenDown (h ⟨_, hread, by simpa using hlong⟩)

theorem settles_declaredNames (text : String) (j : Json) :
    Settles (NamesBreak text j) (fun names => declaredNames j = .ok names) (declaredNames j) := by
  cases j with
  | text | list | object => exact settles_ok rfl
  | null | bool | int | float => exact settles_brokenDown (.notListed _ rfl)

theorem eq_map_text_of_mapM {names : List Json} {texts : List String}
    (h : names.mapM nameText? = some texts) : names = texts.map .text := by
  induction names generalizing texts with
  | nil =>
      cases h
      rfl
  | cons name names ih =>
      rw [List.mapM_cons] at h
      obtain ⟨s, hs, h⟩ := Option.bind_eq_some_iff.mp h
      obtain ⟨ss, hss, h⟩ := Option.bind_eq_some_iff.mp h
      cases h
      rw [List.map_cons, ← ih hss]
      cases name with
      | text t =>
          cases hs
          rfl
      | _ => cases hs

theorem settles_validateLine {P : Breakdown → Prop} (text : String) {j : Json} {names : List Json}
    (hj : declaredNames j = .ok names) (hnames : ∀ cause, NamesBreak text j cause → P cause)
    (hlong : ∀ texts, declaredNames j = .ok (texts.map .text) → Unechoed text (.line texts) →
      P .longNumber) : Settles P Successful (validateLine text names) := by
  unfold validateLine
  split
  · next hatomic =>
    obtain ⟨name, hmem, hname⟩ : ∃ name ∈ names, isAtomic name = false := by
      simpa using hatomic
    exact settles_brokenDown (hnames _ (.notAtomic j names hj name hmem hname))
  · split
    · next texts htexts =>
      have hj' : declaredNames j = .ok (texts.map .text) := eq_map_text_of_mapM htexts ▸ hj
      split
      · next q hq =>
        obtain ⟨-, rfl⟩ := Equation.ofText?_eq_ok_iff.mp hq
        exact settles_echoed (hlong texts hj')
      · next hrepeated =>
        obtain ⟨⟨tree, hread⟩, hsymbols⟩ := Equation.ofText?_eq_error_iff.mp hrepeated
        exact settles_brokenDown (hnames _ (.repeated j texts hj' tree hread hsymbols))
    · exact settles_acceptedOr _ _

theorem settles_validate : Settles (Culprit data "/validate") Successful (validate data) := by
  refine (settles_requireObject data).bind fun _ _ => ?_
  dsimp only
  split
  · next hmode =>
    have hmode : data.get? "mode" = some (.text "1d") := by
      cases hget : data.get? "mode" with
      | none => simp [hget] at hmode
      | some v => simpa [hget] using hmode
    have hculprit : ∀ cause, NamesBreak (textField data "equation") (givenNames data) cause →
        Culprit data "/validate" cause := fun cause h => .names cause rfl hmode h
    refine ((settles_declaredNames _ _).mono hculprit).bind fun names hnames => ?_
    exact settles_validateLine _ hnames hculprit fun texts htexts hlong =>
      .longNumber _ rfl (.line texts hmode htexts) hlong
  · next hmode => exact settles_echoed fun hlong => .longNumber _ rfl (.planar hmode) hlong
  · exact settles_refuse _

theorem settles_answer {a : Answer} (h : answer? settings path data = some a) :
    Settles (Culprit data path) Successful a := by
  unfold answer? at h
  split at h
  · cases h
    exact settles_validate data
  · cases h
    exact settles_simulate settings data
  · cases h
    exact settles_field settings data
  · cases h
    exact settles_phaseLine settings data
  · cases h

end

theorem answered_refused (kind : RefusalKind) (message : String) (label : Option String) :
    (reply (.error (.refused kind message label))).Answered :=
  .error message kind rfl rfl rfl rfl

/-- **Every request is answered unless something in it breaks it down.** The reply carries a result,
or an error with its message and kind; otherwise the request holds a culprit. -/
theorem answered_or_culprit (settings : Settings) {path : String} {data : Json} {a : Answer}
    (h : answer? settings path data = some a) :
    (reply a).Answered ∨ ∃ cause, a = .error (.brokenDown cause) ∧ Culprit data path cause := by
  have hsettles := settles_answer settings data h
  match a, hsettles with
  | .ok body, h => exact .inl (.success rfl (h.result body rfl))
  | .error (.refused kind message label), _ => exact .inl (answered_refused kind message label)
  | .error (.brokenDown cause), h => exact .inr ⟨cause, rfl, h.cause cause rfl⟩

/-- A phase line of more samples than a machine word can tell. -/
def endlessSamples : Json :=
  .object [("x_min", .int 0), ("x_max", .int 1), ("samples", .int 1000000000000000000000)]

theorem answered_or_culprit_samples :
    answer? {} "/phase-line" endlessSamples = some (phaseLine {} endlessSamples) ∧
    ((reply (phaseLine {} endlessSamples)).Answered ∨
      ∃ cause, phaseLine {} endlessSamples = .error (.brokenDown cause) ∧
        Culprit endlessSamples "/phase-line" cause) :=
  ⟨rfl, answered_or_culprit {} rfl⟩

/-- Such a number is not refused, although there are too many samples. -/
theorem not_answered_samples :
    ¬ ∀ (settings : Settings) (path : String) (data : Json) (a : Answer),
      answer? settings path data = some a → (reply a).Answered := by
  intro h
  have hanswered := h {} "/phase-line" endlessSamples _ rfl
  have hstatus : (reply (phaseLine {} endlessSamples)).status = 500 := by decide +kernel
  cases hanswered with
  | success h => exact absurd (h.symm.trans hstatus) (by decide)
  | error _ _ h => exact absurd (h.symm.trans hstatus) (by decide)

end Routes

end PhasePortrait
