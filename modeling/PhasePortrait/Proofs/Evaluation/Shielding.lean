import Mathlib.Data.List.Forall2
import Mathlib.Data.Option.Basic
import PhasePortrait.Formula.Equation
import PhasePortrait.Number.Double
import PhasePortrait.Proofs.Except

/-!
# Plain and shielded variables

An equation is evaluated with its variables shielded; in its bound form they are plain. Both work
off one line, and what they meet differs in its shields alone. So the bound form stops wherever the
other one does, and otherwise arrives at the same operand, unless a plain zero divisor or a plain
power out of range has stopped it.

The line decides which divisions are made, not the tree that it was compiled from: behind a minus
sign the factors of a divisor are put together anew, and may vanish where those of the tree do not.

## Main definitions

* `Operand.Exposes a b` — the operand `a` is `b`, but may be plain where `b` is shielded.
* `Beside P calm r s` — the run `r` keeps beside the run `s`, which it may leave unless `calm`.
* `Line.Calm b t` — working off the line `t` divides by no zero and takes no power out of range.
* `Line.Refines t b bound value` — how the bound value of a line stands to its value.
* `Tree.divisors v t` — what the tree `t` divides by.
-/
namespace PhasePortrait
open Scalar

/-! ## Operands and bindings -/

section
variable {α : Type}

namespace Operand

/-- The same operand, perhaps without its shield. -/
structure Exposes (a b : Operand α) : Prop where
  value : a.value = b.value
  whole : a.whole = b.whole
  plain : b.plain = true → a.plain = true

theorem Exposes.refl (a : Operand α) : a.Exposes a := ⟨rfl, rfl, id⟩

/-- There is no shield to be without. -/
theorem Exposes.eq_of_plain {a b : Operand α} (h : a.Exposes b) (hplain : b.plain = true) :
    a = b := by
  obtain ⟨v, p, w⟩ := a
  obtain ⟨v', p', w'⟩ := b
  obtain ⟨rfl, rfl, hp⟩ := h
  rw [show p = p' from (hp hplain).trans hplain.symm]

theorem exposes_ofValue (plain : Bool) (x : α) : (ofValue plain x).Exposes (ofValue false x) :=
  ⟨rfl, rfl, nofun⟩

section
variable {xs ys : List (Operand α)} (h : List.Forall₂ Exposes xs ys)
include h

theorem map_value_of_exposes : xs.map value = ys.map value := by
  induction h with
  | nil => rfl
  | cons hx _ ih => rw [List.map_cons, List.map_cons, hx.value, ih]

theorem all_whole_of_exposes : xs.all whole = ys.all whole := by
  induction h with
  | nil => rfl
  | cons hx _ ih => rw [List.all_cons, List.all_cons, hx.whole, ih]

end

end Operand

namespace Bindings
variable {b b' : Bindings α}

/-- The same symbols with the same operands, perhaps without their shields. -/
def Exposes (b b' : Bindings α) : Prop :=
  ∀ s, Option.Rel Operand.Exposes (b.lookup s) (b'.lookup s)

theorem exposes_zip (symbols : List Symbol) {xs ys : List (Operand α)}
    (h : List.Forall₂ Operand.Exposes xs ys) : Exposes (symbols.zip xs) (symbols.zip ys) := by
  intro s
  induction h generalizing symbols with
  | nil =>
    rw [List.zip_nil_right]
    exact .none
  | cons hx _ ih =>
    cases symbols with
    | nil => exact .none
    | cons t symbols =>
      simp only [List.zip_cons_cons, List.lookup_cons]
      split
      · exact .some hx
      · exact ih symbols

theorem Exposes.getD (h : b.Exposes b') (s : Symbol) (x : Operand α) :
    ((b.lookup s).getD x).Exposes ((b'.lookup s).getD x) := by
  have hs := h s
  generalize b.lookup s = y at hs
  generalize b'.lookup s = y' at hs
  cases hs with
  | none => exact .refl x
  | some h => exact h

theorem Exposes.replaces (h : b.Exposes b') (name : String) :
    b.replaces name = b'.replaces name := by
  have hs := h (.named name)
  unfold Bindings.replaces
  generalize b.lookup (.named name) = y at hs
  generalize b'.lookup (.named name) = y' at hs
  cases hs with
  | none => rfl
  | some _ => rfl

end Bindings

end

/-! ## Runs side by side -/

/-- Two runs side by side: both arrive, at results in the relation `P`, or both stop; the first may
also stop alone, but not if `calm`. -/
inductive Beside {γ δ : Type} (P : γ → δ → Prop) (calm : Prop) :
    Except Stop γ → Except Stop δ → Prop where
  | arrives {x : γ} {y : δ} (h : P x y) : Beside P calm (.ok x) (.ok y)
  | stops (s s' : Stop) : Beside P calm (.error s) (.error s')
  | leaves (s : Stop) (y : δ) (h : ¬ calm) : Beside P calm (.error s) (.ok y)

namespace Beside
variable {γ δ γ' δ' : Type} {P : γ → δ → Prop} {Q : γ' → δ' → Prop} {calm calm' : Prop}
  {r : Except Stop γ} {s : Except Stop δ} {k : γ → Except Stop γ'} {l : δ → Except Stop δ'}

theorem self {P : γ → γ → Prop} (hP : ∀ x, P x x) (r : Except Stop γ) : Beside P calm r r := by
  cases r with
  | error s => exact .stops s s
  | ok x => exact .arrives (hP x)

/-- Beside a run that arrives. -/
theorem of_ok {y : δ} (harrives : ∀ x, r = .ok x → P x y) (hcalm : calm → ∃ x, r = .ok x) :
    Beside P calm r (.ok y) := by
  cases r with
  | error s => exact .leaves s y fun h => nomatch hcalm h
  | ok x => exact .arrives (harrives x rfl)

theorem mono (h : Beside P calm r s) (hcalm : calm' → calm) : Beside P calm' r s := by
  cases h with
  | arrives h => exact .arrives h
  | stops s s' => exact .stops s s'
  | leaves s y h => exact .leaves s y (mt hcalm h)

/-- Steps side by side; the second one has to be calm only if it is reached. -/
theorem bind {c : δ → Prop} (h : Beside P calm r s)
    (hk : ∀ x y, P x y → Beside Q (c y) (k x) (l y)) :
    Beside Q (calm ∧ ∀ y, s = .ok y → c y) (r >>= k) (s >>= l) := by
  cases h with
  | arrives h => exact (hk _ _ h).mono fun hcalm => hcalm.2 _ rfl
  | stops s s' => exact .stops s s'
  | leaves s y h =>
    change Beside Q _ (.error s) (l y)
    cases l y with
    | error s' => exact .stops s s'
    | ok z => exact .leaves s z fun hcalm => h hcalm.1

/-- A second step that is always calm. -/
theorem andThen (h : Beside P calm r s) (hk : ∀ x y, P x y → Beside Q True (k x) (l y)) :
    Beside Q calm (r >>= k) (s >>= l) :=
  (h.bind hk).mono fun hcalm => ⟨hcalm, fun _ _ => trivial⟩

end Beside

/-! ## Arithmetic -/

variable {α : Type} [Elementary α]

namespace Operand
variable {a a' b b' : Operand α}

theorem exposes_ofNumber {p p' : Bool} (h : p' = true → p = true) (w : Bool) (x : α) :
    (ofNumber p w x).Exposes (ofNumber p' w x) := by
  cases w
  · exact ⟨rfl, rfl, h⟩
  · exact ⟨rfl, rfl, h⟩

theorem exposes_arithmetic (op : α → α → α) (ha : a.Exposes a') (hb : b.Exposes b') :
    (arithmetic op a b).Exposes (arithmetic op a' b') := by
  rw [arithmetic, arithmetic, ha.value, hb.value, ha.whole, hb.whole]
  refine exposes_ofNumber (fun h => ?_) _ _
  obtain ⟨ha', hb'⟩ := Bool.and_eq_true_iff.mp h
  exact Bool.and_eq_true_iff.mpr ⟨ha.plain ha', hb.plain hb'⟩

theorem exposes_negate (ha : a.Exposes a') : a.negate.Exposes a'.negate := by
  rw [negate, negate, ha.value, ha.whole]
  exact exposes_ofNumber ha.plain _ _

theorem beside_divide (ha : a.Exposes a') (hb : b.Exposes b') :
    Beside Exposes (isZero b'.value = false) (a.divide b) (a'.divide b') := by
  cases hplain : a'.plain && b'.plain with
  | true =>
    obtain ⟨hpa, hpb⟩ := Bool.and_eq_true_iff.mp hplain
    rw [ha.eq_of_plain hpa, hb.eq_of_plain hpb]
    exact .self .refl _
  | false =>
    have hs : a'.divide b' = .ok (ofValue false (a'.value / b'.value)) := by simp [divide, hplain]
    rw [hs]
    refine .of_ok (fun x hx => ?_) fun hzero => ⟨_, by simp [divide, hb.value, hzero]; rfl⟩
    unfold divide at hx
    split at hx
    · cases hx
    · obtain rfl := Except.ok.inj hx
      rw [ha.value, hb.value]
      exact exposes_ofValue _ _

/-- Whether a whole power neither divides by zero nor leaves the range. -/
def RaisesTo (a : Operand α) (n : Int) : Prop :=
  ¬ (isZero a.value = true ∧ n < 0) ∧
    (isFinite a.value = true → isFinite (Elementary.pow a.value (wholeNumber n)) = true)

theorem raise_of_raisesTo {n : Int} (h : a.RaisesTo n) :
    a.raise n = .ok (ofNumber a.plain (a.whole && 0 ≤ n)
      (Elementary.pow a.value (wholeNumber n))) := by
  have hzero : ¬ ((a.plain && isZero a.value && decide (n < 0)) = true) := by
    intro hz
    simp only [Bool.and_eq_true, decide_eq_true_eq] at hz
    exact h.1 ⟨hz.1.2, hz.2⟩
  have hrange : ¬ ((a.plain && isFinite a.value &&
      !isFinite (Elementary.pow a.value (wholeNumber n))) = true) := by
    intro hr
    simp only [Bool.and_eq_true, Bool.not_eq_true'] at hr
    exact Bool.false_ne_true (hr.2.symm.trans (h.2 hr.1.2))
  rw [raise, if_neg hzero, if_neg hrange]

theorem beside_raise (ha : a.Exposes a') (n : Int) :
    Beside Exposes (a'.RaisesTo n) (a.raise n) (a'.raise n) := by
  cases hplain : a'.plain with
  | true =>
    rw [ha.eq_of_plain hplain]
    exact .self .refl _
  | false =>
    have hs : a'.raise n = .ok (ofNumber false (a'.whole && 0 ≤ n)
        (Elementary.pow a'.value (wholeNumber n))) := by
      simp [raise, hplain]
    rw [hs]
    refine .of_ok (fun x hx => ?_) fun hcalm => ⟨_, raise_of_raisesTo (by rwa [RaisesTo, ha.value])⟩
    simp only [raise] at hx
    split at hx
    · cases hx
    · split at hx
      · cases hx
      · obtain rfl := Except.ok.inj hx
        rw [ha.value, ha.whole]
        refine exposes_ofNumber (fun h => ?_) _ _
        cases h

end Operand

namespace Bindings
variable {b b' : Bindings α}

theorem beside_call (h : b.Exposes b') (f : Function) {xs ys : List (Operand α)}
    (hxs : List.Forall₂ Operand.Exposes xs ys) :
    Beside Operand.Exposes True (b.call f xs) (b'.call f ys) := by
  rw [call, call, h.replaces, Operand.map_value_of_exposes hxs, Operand.all_whole_of_exposes hxs]
  split
  · exact .stops _ _
  · exact .arrives (.refl _)

theorem beside_exponential (h : b.Exposes b') (n : Int) :
    Beside Operand.Exposes True (b.exponential n) (b'.exponential n) := by
  rw [exponential, exponential, h.replaces]
  split
  · exact .stops _ _
  · exact .arrives (.refl _)

theorem beside_combine (h : b.Exposes b') (o : Operator) {x x' y y' : Operand α}
    (hx : x.Exposes x') (hy : y.Exposes y') :
    Beside Operand.Exposes (o = .div → isZero y'.value = false) (b.combine o x y)
      (b'.combine o x' y') := by
  cases o with
  | add | sub | mul => exact .arrives (Operand.exposes_arithmetic _ hx hy)
  | div => exact (Operand.beside_divide hx hy).mono fun hcalm => hcalm rfl
  | pow => exact (beside_call h .pow (.cons hx (.cons hy .nil))).mono fun _ => trivial

end Bindings

/-! ## Lines -/

namespace Line

mutual
/-- Whether working off a line divides by no zero and takes no power out of range, as far as it
gets. -/
def Calm (b : Bindings α) : Line α → Prop
  | negate t => Calm b t
  | binary o l r => Calm b l ∧ ∀ x, l.eval b = .ok x →
      Calm b r ∧ ∀ y, r.eval b = .ok y → o = .div → isZero y.value = false
  | power t n => Calm b t ∧ ∀ x, t.eval b = .ok x → x.RaisesTo n
  | call _ ts => AllCalm b ts
  | literal _ | whole _ | undefined | symbol _ | constant _ | exponential _ => True

def AllCalm (b : Bindings α) : List (Line α) → Prop
  | [] => True
  | t :: ts => Calm b t ∧ ∀ x, t.eval b = .ok x → AllCalm b ts
end

variable {b b' : Bindings α}

mutual
/-- Baring the variables of a line changes nothing but where it may stop. -/
theorem beside_eval (h : b.Exposes b') :
    ∀ t : Line α, Beside Operand.Exposes (t.Calm b') (t.eval b) (t.eval b')
  | literal _ => .arrives (.refl _)
  | whole _ => .arrives (.refl _)
  | undefined => .arrives (.refl _)
  | symbol s => .arrives (h.getD s _)
  | constant _ => .arrives (h.getD _ _)
  | negate t => (beside_eval h t).andThen fun _ _ hx => .arrives (Operand.exposes_negate hx)
  | binary o l r =>
    (beside_eval h l).bind fun _ _ hx => (beside_eval h r).bind fun _ _ hy =>
      Bindings.beside_combine h o hx hy
  | power t n => (beside_eval h t).bind fun _ _ hx => Operand.beside_raise hx n
  | exponential n => Bindings.beside_exponential h n
  | call f ts => (beside_evalAll h ts).andThen fun _ _ hxs => Bindings.beside_call h f hxs

theorem beside_evalAll (h : b.Exposes b') :
    ∀ ts : List (Line α),
      Beside (List.Forall₂ Operand.Exposes) (AllCalm b' ts) (evalAll b ts) (evalAll b' ts)
  | [] => .arrives .nil
  | t :: ts =>
    (beside_eval h t).bind fun _ _ hx =>
      (beside_evalAll h ts).andThen fun _ _ hxs => .arrives (.cons hx hxs)
end

/-- How the value `bound` of a line with plain variables stands to its value over the bindings `b`,
which shield them. -/
structure Refines (t : Line α) (b : Bindings α) (bound value : α) : Prop where
  nan_or_eq : bound = nan ∨ bound = value
  eq_of_calm : t.Calm b → bound = value
  nan_of_stop : ∀ s, t.eval b = .error s → bound = nan

theorem refines_value (h : b.Exposes b') (t : Line α) :
    t.Refines b' (t.value b) (t.value b') := by
  have hb := beside_eval h t
  unfold value
  generalize hr : t.eval b = r at hb
  generalize hs : t.eval b' = s at hb
  cases hb with
  | @arrives x y hx =>
    have hvalue : finiteOrNaN x.value = finiteOrNaN y.value := by rw [hx.value]
    exact ⟨.inr hvalue, fun _ => hvalue, fun _ h => nomatch hs.symm.trans h⟩
  | stops _ _ => exact ⟨.inl rfl, fun _ => rfl, fun _ _ => rfl⟩
  | leaves _ _ hcalm => exact ⟨.inl rfl, fun h => absurd h hcalm, fun _ _ => rfl⟩

end Line

/-! ## Equations -/

namespace Equation

theorem evaluate_eq {q : Equation α} {c : Compiled α} (hq : q.outcome = .ok c) (values : List α) :
    q.evaluate values =
      if values.length = q.scope.vars.length then .ok (q.value (values.map (.ofValue false)))
      else .error ⟨q.scope.vars, values.length⟩ := by
  rw [evaluate, hq]

/-- **The bound form of an equation refines its evaluation**: at the same numbers it arrives at
`nan` or at the same value, at the same value if the line of the equation is calm there, and at
`nan` if the evaluation stops. With a single variable only that one is plain. -/
theorem bound_refines_evaluation (q : Equation α) {c : Compiled α} (hq : q.outcome = .ok c) :
    (∀ values v, q.evaluate values = .ok v →
      c.line.Refines (c.symbols.zip (values.map (.ofValue false)))
        (q.value (values.map (.ofValue true))) v) ∧
    ∀ x given, c.line.Refines (c.symbols.zip (q.lineOperands false x given))
      (q.value (q.lineOperands true x given)) (q.value (q.lineOperands false x given)) := by
  constructor
  · intro values v hv
    rw [evaluate_eq hq] at hv
    split at hv
    case isFalse => cases hv
    obtain rfl := Except.ok.inj hv
    rw [value_eq hq, value_eq hq]
    refine Line.refines_value (Bindings.exposes_zip _ ?_) _
    exact List.forall₂_map_left_iff.mpr (List.forall₂_map_right_iff.mpr
      (List.forall₂_same.mpr fun x _ => Operand.exposes_ofValue true x))
  · intro x given
    rw [value_eq hq, value_eq hq]
    refine Line.refines_value (Bindings.exposes_zip _ ?_) _
    exact .cons (Operand.exposes_ofValue true x) (List.forall₂_same.mpr fun y _ => .refl y)

theorem bound_refines_evaluation_min :
    ∃ c : Compiled Float, (ofText "min(1/X,5)" .planar).outcome = .ok c ∧
      c.line.Refines (c.symbols.zip [.ofValue false 0.0, .ofValue false 0.0])
        ((ofText "min(1/X,5)" .planar).value [.ofValue true 0.0, .ofValue true 0.0])
        ((ofText "min(1/X,5)" .planar).value [.ofValue false 0.0, .ofValue false 0.0]) := by
  have hvalid : (ofText (α := Float) "min(1/X,5)" .planar).outcome.isOk = true := by
    decide +kernel
  obtain ⟨c, hc⟩ := exists_of_isOk hvalid
  exact ⟨c, hc, (bound_refines_evaluation _ hc).1 [0.0, 0.0] _ (evaluate_eq hc _)⟩

end Equation

/-! ## What the tree divides by -/

namespace Tree

/-- The value of an operator at two numbers. -/
def operate (o : Operator) (x y : α) : α :=
  match o with
  | .add => x + y
  | .sub => x - y
  | .mul => x * y
  | .div => x / y
  | .pow => Function.pow.apply [x, y]

mutual
/-- The value of a tree, worked off as it stands. -/
def value (v : String → α) : Tree α → α
  | number x => x
  | symbol name => v name
  | constant c => c.value
  | negate t => -value v t
  | binary o l r => operate o (value v l) (value v r)
  | call f args => f.apply (valueAll v args)

def valueAll (v : String → α) : List (Tree α) → List α
  | [] => []
  | t :: ts => value v t :: valueAll v ts
end

mutual
/-- The divisors of a tree, worked off as it stands. -/
def divisors (v : String → α) : Tree α → List α
  | negate t => divisors v t
  | binary o l r =>
    divisors v l ++ divisors v r ++ if o = .div then [value v r] else []
  | call _ args => divisorsAll v args
  | number _ | symbol _ | constant _ => []

def divisorsAll (v : String → α) : List (Tree α) → List α
  | [] => []
  | t :: ts => divisors v t ++ divisorsAll v ts
end

/-- The number that a text is read as. -/
def numberOf (text : String) : α := ofDecimal ((Decimal.read? text.toList).getD ⟨0, 0⟩)

end Tree

namespace Equation

/-- Behind the sign the divisor becomes `X*Y`, which vanishes although `X*(Y*1e200)` does not. -/
theorem bound_departs_from_evaluation :
    ∃ c : Compiled Float, (ofText "max(-2/(X*(Y*1e200)),5)" .planar).outcome = .ok c ∧
      (∀ d ∈ (c.tree.map Tree.numberOf).divisors (fun _ => 1e-200), isZero d = false) ∧
      (∃ v, (ofText "max(-2/(X*(Y*1e200)),5)" .planar).evaluate [1e-200, 1e-200] = .ok v ∧
        same v 5.0 = true) ∧
      isNaN ((ofText "max(-2/(X*(Y*1e200)),5)" .planar).value
        [.ofValue true (1e-200 : Float), .ofValue true 1e-200]) = true := by
  have hvalid : (ofText (α := Float) "max(-2/(X*(Y*1e200)),5)" .planar).outcome.isOk = true := by
    decide +kernel
  obtain ⟨c, hc⟩ := exists_of_isOk hvalid
  have hdivisors : (match (ofText (α := Float) "max(-2/(X*(Y*1e200)),5)" .planar).outcome with
      | .ok c => (c.tree.map Tree.numberOf).divisors fun _ => (1e-200 : Float)
      | .error _ => []).all (fun d => isZero d == false) = true := by
    decide +kernel
  rw [hc] at hdivisors
  refine ⟨c, hc, by simpa using hdivisors, ⟨_, evaluate_eq hc _, ?_⟩, ?_⟩
  · decide +kernel
  · decide +kernel

end Equation

end PhasePortrait
