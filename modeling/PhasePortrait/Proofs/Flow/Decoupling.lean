import PhasePortrait.Flow.System
import PhasePortrait.Proofs.Grammar.Spacing
import PhasePortrait.Proofs.Names.Hygiene

/-!
# Planar systems whose first formula has a single variable

A formula in which `Y` is no word is read alike over both variables and over `X` alone, compiled
into the same line, and looks `Y` up in neither. So it has the same values with and without a
second coordinate, passes the battery over either scope, and the first component of a planar step
goes through the numbers of a step on the line. The second component is only asked whether it stays
finite.
-/
namespace PhasePortrait

/-! ## Formulas without the second variable -/

namespace Formula

/-- A formula in which `Y` is no word may have `Y` declared as one more name. -/
theorem fresh_second {text : String}
    (hY : ∀ ts, tokenize text = .ok ts → Lexeme.name "Y" ∉ lexemes ts) : Fresh text [] "Y" where
  absent := hY
  apart := by decide +kernel
  unused t _ hmem := by
    have hfolded : Text.folded "Y" = "Y" := by decide +kernel
    have hne : ∀ i ∈ t.builtIns, i ≠ "Y" :=
      Tree.forall_mem_builtIns (fun f => by cases f <;> decide +kernel)
        (fun c => by cases c <;> decide +kernel) t
    exact hne _ hmem hfolded
  last := by decide +kernel

section
variable {α : Type} [Elementary α] {text : String} {t : Tree String}

theorem read_planar_iff (hY : ∀ ts, tokenize text = .ok ts → Lexeme.name "Y" ∉ lexemes ts) :
    read text .planar = .ok t ↔ read text (.line []) = .ok t := by
  have hplanar : scopeFault .planar = none := by decide +kernel
  have hline : scopeFault (.line []) = none := by decide +kernel
  have hagree : ∀ ts, tokenize text = .ok ts →
      AgreeOn (lexemes ts) (Scope.line []).names Scope.planar.names := by
    intro ts hts name hname
    have hne : name ≠ "Y" := fun heq => hY ts hts (heq ▸ hname)
    simp [hne]
  exact ⟨read_congr hline fun ts hts => (hagree ts hts).symm, read_congr hplanar hagree⟩

theorem lineOf_planar (h : Fresh text [] "Y") (ht : read text (.line []) = .ok t) :
    (lineOf t Scope.planar.names : Line α) = lineOf t ["X"] := h.lineOf_eq ht

/-- The second operand of a formula without `Y` is not looked at. -/
theorem eval_planar (h : Fresh text [] "Y") (ht : read text (.line []) = .ok t) (x y : Operand α) :
    (lineOf t ["X"]).eval ((Symbol.ofNames Scope.planar.names).zip [x, y]) =
      (lineOf t ["X"]).eval ((Symbol.ofNames ["X"]).zip [x]) := by
  have hlength : (["X"] : List String).length = [x].length := rfl
  have hnames : Symbol.ofNames Scope.planar.names =
      Symbol.ofNames ["X"] ++ [Symbol.ofLast ["X"] "Y"] := Symbol.ofNames_concat h.last
  rw [hnames]
  exact h.eval_eq ht hlength y

end
end Formula

/-! ## The battery -/

/-- An outcome that does not refuse a formula. -/
def Outcome.Passes {ε : Type} (o : Outcome ε) : Prop := o = .number ∨ o = .undefined

namespace Battery
variable {α ε : Type}

theorem interruptionAt_eq_none_iff {point : String} {o : Outcome ε} :
    interruptionAt point o = none ↔ o.Passes := by
  cases o <;> simp [interruptionAt, Outcome.Passes]

theorem run_eq_none_iff {evaluator : List α → Outcome ε} {index : Nat}
    {trials : List (String × List α)} :
    (run (fun _ => evaluator) index trials).2 = none ↔
      ∀ trial ∈ trials, (evaluator trial.2).Passes := by
  induction trials generalizing index with
  | nil => simp [run]
  | cons trial trials ih =>
    obtain ⟨point, args⟩ := trial
    have hpoint : interruptionAt point (evaluator args) = none ↔ (evaluator args).Passes :=
      interruptionAt_eq_none_iff
    rw [List.forall_mem_cons, ← @ih (index + 1), ← hpoint, run]
    cases interruptionAt point (evaluator args) <;> simp

/-- The state variable of the line is tried at the first coordinates of the points of the plane. -/
theorem forall_trials_planar_iff [Scalar α] {R S : List α → Prop}
    (h : ∀ x y, R [x, y] ↔ S [x]) :
    (∀ trial ∈ trials (α := α) .planar, R trial.2) ↔
      ∀ trial ∈ trials (α := α) (.line []), S trial.2 := by
  simp [trials, points, cycled, Scope.planar, Scope.line, h]

end Battery

namespace Formula
variable {α : Type} [Elementary α] {text : String} {t : Tree String}

/-- What a tree comes to at a trial's arguments. -/
def outcomeAt (t : Tree String) (names : List String) (args : List α) : Outcome Empty :=
  outcomeOf ((lineOf t names : Line α).eval
    ((Symbol.ofNames names).zip (args.map (.ofValue false))))

theorem isOk_prepare_iff {s : Scope} : (prepare t s : Except Fault (Compiled α)).isOk ↔
    ∀ trial ∈ Battery.trials (α := α) s, (outcomeAt t s.names trial.2).Passes := by
  have hsmoke : (prepare t s : Except Fault (Compiled α)).isOk ↔
      (Battery.run (fun _ => outcomeAt t s.names) 0 (Battery.trials (α := α) s)).2 = none := by
    unfold prepare
    dsimp only [Battery.smokeTest]
    unfold outcomeAt
    split
    · next h => simp [h, Except.isOk, Except.toBool]
    · next h => simp [h, Except.isOk, Except.toBool]
  rw [hsmoke, Battery.run_eq_none_iff]

theorem isOk_prepare_planar (h : Fresh text [] "Y") (ht : read text (.line []) = .ok t) :
    (prepare t .planar : Except Fault (Compiled α)).isOk =
      (prepare t (.line []) : Except Fault (Compiled α)).isOk := by
  rw [Bool.eq_iff_iff, isOk_prepare_iff, isOk_prepare_iff]
  refine Battery.forall_trials_planar_iff (α := α)
    (R := fun args => (outcomeAt t Scope.planar.names args).Passes)
    (S := fun args => (outcomeAt t (Scope.line []).names args).Passes) fun x y => ?_
  have hsame : outcomeAt t Scope.planar.names [x, y] = outcomeAt t ["X"] [x] := by
    rw [outcomeAt, lineOf_planar h ht]
    exact congrArg outcomeOf (eval_planar h ht (.ofValue false x) (.ofValue false y))
  exact iff_of_eq (congrArg Outcome.Passes hsame)

end Formula

/-! ## Equations and steps -/

namespace Equation
open Formula
variable {α : Type} [Elementary α] {text : String}
  (hY : ∀ ts, tokenize (Text.strip text) = .ok ts → Lexeme.name "Y" ∉ lexemes ts)
include hY

theorem isValid_planar :
    (ofText (α := α) text .planar).isValid = (ofText (α := α) text (.line [])).isValid := by
  unfold isValid ofText
  dsimp only
  cases hread : read (Text.strip text) (.line []) with
  | ok t =>
    rw [compile_of_read hread, compile_of_read ((read_planar_iff hY).mpr hread)]
    exact isOk_prepare_planar (fresh_second hY) hread
  | error fault =>
    rw [compile_of_read_error hread]
    cases hplanar : read (Text.strip text) .planar with
    | ok t => cases hread.symm.trans ((read_planar_iff hY).mp hplanar)
    | error fault' =>
      rw [compile_of_read_error hplanar]
      rfl

omit hY in
theorem exists_read_of_isValid {s : Scope} (h : (ofText (α := α) text s).isValid) :
    ∃ t, read (Text.strip text) s = .ok t ∧ (ofText (α := α) text s).outcome =
      .ok ⟨t, lineOf t s.names, Symbol.ofNames s.names⟩ := by
  have hcompile : (compile (α := α) (Text.strip text) s).isOk := by
    rwa [isValid, ofText] at h
  obtain ⟨c, hc⟩ := exists_of_isOk hcompile
  obtain ⟨t, hread, hprepare⟩ := exists_of_bind hc
  refine ⟨t, hread, ?_⟩
  rw [← compiled_of_prepare hprepare, ← hc, ofText]

omit hY in
/-- A formula that is read and passes its battery gives a valid equation. -/
theorem outcome_of_passes {s : Scope} {t : Tree String} (hread : read (Text.strip text) s = .ok t)
    (hpasses : ∀ trial ∈ Battery.trials (α := α) s, (outcomeAt t s.names trial.2).Passes) :
    (ofText (α := α) text s).outcome = .ok ⟨t, lineOf t s.names, Symbol.ofNames s.names⟩ := by
  have hvalid : (ofText (α := α) text s).isValid := by
    rw [isValid, ofText]
    dsimp only
    rw [compile_of_read hread]
    exact isOk_prepare_iff.mpr hpasses
  obtain ⟨t', hread', houtcome⟩ := exists_read_of_isValid hvalid
  obtain rfl : t' = t := Except.ok.inj (hread'.symm.trans hread)
  exact houtcome

/-- The second coordinate does not enter the value of a formula without `Y`. -/
theorem value_planar (hvalid : (ofText (α := α) text .planar).isValid) (plain : Bool) (x y : α)
    (params : List (String × α)) :
    (ofText text .planar).value [.ofValue plain x, .ofValue plain y] =
      (ofText text (.line [])).value ((ofText text (.line [])).lineOperands plain x params) := by
  have hvalid' := hvalid
  rw [isValid_planar hY] at hvalid'
  obtain ⟨t, hread, hc⟩ := exists_read_of_isValid hvalid
  obtain ⟨t', hread', hc'⟩ := exists_read_of_isValid hvalid'
  have hsame := hread'.symm.trans ((read_planar_iff hY).mp hread)
  obtain rfl : t' = t := Except.ok.inj hsame
  have heval := eval_planar (fresh_second hY) hread' (.ofValue plain x) (.ofValue plain y)
  rw [value_eq hc, value_eq hc', Line.value, Line.value]
  dsimp only
  rw [lineOf_planar (fresh_second hY) hread', heval]
  rfl

end Equation

namespace PlanarSystem
open Scalar
variable {α : Type} [Elementary α] {s : PlanarSystem α} {dt : α} {p : Point α}

theorem valid_of_step (h : s.step dt p ≠ .undefined) : s.isValid := by
  by_contra hinvalid
  rw [step, if_neg hinvalid] at h
  exact h rfl

/-- If the first derivative is a derivative on the line, whatever the second coordinate, then so is
every stage of a step, as long as the step is defined. -/
theorem step_x_of_value_eq {l : LineSystem α} {params : ParameterValues α}
    (hvalue : ∀ x y, s.xPrime.value [.ofValue true x, .ofValue true y] =
      l.xPrime.value (l.xPrime.lineOperands true x params)) (h : s.step dt p ≠ .undefined) :
    (s.step dt p).x = l.rk4Step params dt p.x := by
  have hfirst (x y : α) : (s.derivatives true x y).x =
      l.xPrime.value (l.xPrime.lineOperands true x params) := hvalue x y
  unfold step at h ⊢
  dsimp only at h ⊢
  split at h
  · next hvalid =>
    split at h
    · next hstages =>
      split at h
      · next hnext =>
        rw [if_pos hvalid, if_pos hstages, if_pos hnext]
        simp only [Point.isFinite, hfirst, Bool.and_eq_true] at hstages hnext
        obtain ⟨⟨⟨⟨h₁, -⟩, h₂, -⟩, h₃, -⟩, h₄, -⟩ := hstages
        simp only [LineSystem.rk4Step, hfirst, h₁, h₂, h₃, h₄, hnext.1, finiteOrNaN, Bool.and_self,
          if_true]
      · exact absurd rfl h
    · exact absurd rfl h
  · exact absurd rfl h

/-- **Planar systems agree with systems on the line.** If `Y` is no word of a formula, then it is
valid over the plane exactly if it is on the line; and with any second formula, from any point and
with any time step, a planar step that is defined moves the first coordinate as a step on the line
does, through the same operations. -/
theorem step_x_eq_rk4Step (text : String)
    (hY : ∀ ts, Formula.tokenize text = .ok ts → Lexeme.name "Y" ∉ Formula.lexemes ts) :
    (Equation.ofText (α := α) text .planar).isValid =
      (Equation.ofText (α := α) text (.line [])).isValid ∧
    ∀ (second : String) (dt : α) (p : Point α) (params : ParameterValues α),
      (ofTexts text second).step dt p ≠ .undefined →
      ((ofTexts text second).step dt p).x =
        (LineSystem.ofText text []).rk4Step params dt p.x := by
  have hstrip : ∀ ts, Formula.tokenize (Text.strip text) = .ok ts →
      Lexeme.name "Y" ∉ Formula.lexemes ts := by
    intro us hus
    obtain ⟨ts, hts, hlexemes⟩ := Formula.exists_tokenize_of_strip hus
    rw [← hlexemes]
    exact hY ts hts
  refine ⟨Equation.isValid_planar hstrip, fun second dt p params h => ?_⟩
  have hvalid := valid_of_step h
  rw [isValid, Bool.and_eq_true] at hvalid
  exact step_x_of_value_eq (fun x y => Equation.value_planar hstrip hvalid.1 true x y params) h

theorem step_x_eq_rk4Step_logistic :
    (∀ ts, Formula.tokenize "X*(1-X)" = .ok ts → Lexeme.name "Y" ∉ Formula.lexemes ts) ∧
    (Equation.ofText (α := Float) "X*(1-X)" .planar).isValid =
      (Equation.ofText (α := Float) "X*(1-X)" (.line [])).isValid ∧
    (ofTexts "X*(1-X)" "Y/X-X").step (0.5 : Float) ⟨0.25, 2.0⟩ ≠ .undefined ∧
    ((ofTexts "X*(1-X)" "Y/X-X").step (0.5 : Float) ⟨0.25, 2.0⟩).x =
      (LineSystem.ofText "X*(1-X)" []).rk4Step [] 0.5 0.25 := by
  have hwords : (Formula.tokenize "X*(1-X)").toOption.all
      (fun ts => !(Formula.lexemes ts).contains (.name "Y")) = true := by
    decide +kernel
  have hY : ∀ ts, Formula.tokenize "X*(1-X)" = .ok ts → Lexeme.name "Y" ∉ Formula.lexemes ts :=
    fun ts hts => by simpa using of_all_toOption hwords ts hts
  have hfinite : ((ofTexts "X*(1-X)" "Y/X-X").step (0.5 : Float) ⟨0.25, 2.0⟩).isFinite = true := by
    decide +kernel
  have hnan : (Point.undefined (α := Float)).isFinite = false := by decide +kernel
  have hdefined : (ofTexts "X*(1-X)" "Y/X-X").step (0.5 : Float) ⟨0.25, 2.0⟩ ≠ .undefined := by
    intro hundefined
    rw [hundefined, hnan] at hfinite
    cases hfinite
  have htheorem := step_x_eq_rk4Step (α := Float) "X*(1-X)" hY
  exact ⟨hY, htheorem.1, hdefined, htheorem.2 _ _ _ [] hdefined⟩

end PlanarSystem

end PhasePortrait
