import PhasePortrait.Proofs.Except
import PhasePortrait.Proofs.Terms.Lines

/-!
# What is no number spoils a line

A function tests its argument by comparisons that fail for what is no number, and then hands it on;
`min` and `max` keep it once they have met it. So a line that has such a part has no value, however
deep the part is nested, unless the part is an operand of a power: `pow` may answer with a number.

## Main definitions

* `NaNSpoils α` — in the arithmetic of `α`, nothing turns what is no number into a number again.
* `Line.Spoilt b t` — the line `t` arrives at no number, if it arrives at all.
* `Run.Spoilt b r` — one of the operands of the run `r` is spoilt.
-/
namespace PhasePortrait
open Scalar

/-! ## Arithmetic -/

section
variable {α : Type}

/-- A function with no number for an argument that is none. -/
def Strict [Scalar α] (f : α → α) : Prop := ∀ x, isNaN x = true → isNaN (f x) = true

/-- An operation with no number for an operand that is none. -/
def Strict₂ [Scalar α] (op : α → α → α) : Prop :=
  ∀ x y, isNaN x = true ∨ isNaN y = true → isNaN (op x y) = true

/-- Nothing turns what is no number into a number again: it compares with nothing, and arithmetic and
all functions but powers hand it on. -/
structure NaNSpoils (α : Type) [Elementary α] : Prop where
  nan : isNaN (nan : α) = true
  not_finite {x : α} : isNaN x = true → isFinite x = false
  not_le {x y : α} : isNaN x = true ∨ isNaN y = true → ¬x ≤ y
  not_lt {x y : α} : isNaN x = true ∨ isNaN y = true → ¬x < y
  add : Strict₂ (α := α) (· + ·)
  sub : Strict₂ (α := α) (· - ·)
  mul : Strict₂ (α := α) (· * ·)
  div : Strict₂ (α := α) (· / ·)
  neg : Strict (α := α) (- ·)
  library : ∀ f ∈ [Scalar.abs, Scalar.sqrt, Elementary.sin, Elementary.cos, Elementary.tan,
    Elementary.asin, Elementary.acos, Elementary.atan, Elementary.sinh, Elementary.cosh,
    Elementary.tanh, Elementary.exp, Elementary.log, Elementary.log10, Elementary.floor,
    Elementary.ceil], Strict (α := α) f

end

variable {α : Type} [Elementary α] (laws : NaNSpoils α)
include laws

namespace NaNSpoils

theorem finiteOrNaN_eq {x : α} (hx : isNaN x = true) : finiteOrNaN x = Scalar.nan := by
  rw [finiteOrNaN, if_neg (by simp [laws.not_finite hx])]

theorem isZero_eq {x : α} (hx : isNaN x = true) : isZero x = false := by
  rw [isZero, same, decide_eq_false (laws.not_le (.inl hx)), Bool.false_and]

end NaNSpoils

namespace Function

variable {x y : α}

theorem isNaN_apply₁ (f : Function) (hx : isNaN x = true) : isNaN (f.apply₁ x) = true := by
  have hlibrary := laws.library
  simp only [List.forall_mem_cons, Strict] at hlibrary
  obtain ⟨habs, hsqrt, hsin, hcos, htan, hasin, hacos, hatan, hsinh, hcosh, htanh, hexp, hlog,
    hlog10, hfloor, hceil, -⟩ := hlibrary
  have hlt := fun y : α => laws.not_lt (x := x) (y := y) (.inl hx)
  have hle := fun y : α => laws.not_le (x := x) (y := y) (.inl hx)
  cases f with
  | abs => exact habs x hx
  | acos =>
    rw [apply₁, if_neg (laws.not_lt (.inr (habs x hx)))]
    exact hacos x hx
  | asin =>
    rw [apply₁, if_neg (laws.not_lt (.inr (habs x hx)))]
    exact hasin x hx
  | atan => exact hatan x hx
  | ceil => exact hceil x hx
  | cos => exact hcos x hx
  | cosh =>
    rw [apply₁, laws.finiteOrNaN_eq (hcosh x hx)]
    exact laws.nan
  | exp =>
    rw [apply₁, laws.finiteOrNaN_eq (hexp x hx)]
    exact laws.nan
  | floor => exact hfloor x hx
  | ln | log =>
    rw [apply₁, if_neg (hle 0.0)]
    exact hlog x hx
  | log10 =>
    rw [apply₁, if_neg (hle 0.0)]
    exact hlog10 x hx
  | round => exact hfloor _ (laws.add x 0.5 (.inl hx))
  | sign =>
    rw [apply₁, signOf, if_neg (laws.not_lt (.inr hx)), if_neg (hlt 0.0), laws.isZero_eq hx]
    exact hx
  | sin => exact hsin x hx
  | sinh =>
    rw [apply₁, laws.finiteOrNaN_eq (hsinh x hx)]
    exact laws.nan
  | sqrt =>
    rw [apply₁, if_neg (hlt 0.0)]
    exact hsqrt x hx
  | tan => exact htan x hx
  | tanh => exact htanh x hx
  | max | min | pow => exact laws.nan

theorem isNaN_smaller (h : isNaN x = true ∨ isNaN y = true) : isNaN (smaller x y) = true := by
  cases hx : isNaN x with
  | true => simp [smaller, hx]
  | false =>
    have hy := h.resolve_left (by simp [hx])
    simp [smaller, hx, laws.not_le (.inr hy), hy]

theorem isNaN_larger (h : isNaN x = true ∨ isNaN y = true) : isNaN (larger x y) = true := by
  cases hx : isNaN x with
  | true => simp [larger, hx]
  | false =>
    have hy := h.resolve_left (by simp [hx])
    simp [larger, hx, laws.not_le (.inl hy), hy]

omit laws in
/-- What is no number stays in a fold, whether it starts it or comes up in it. -/
theorem isNaN_foldl {op : α → α → α} (hop : Strict₂ op) {xs : List α}
    (h : isNaN x = true ∨ ∃ y ∈ xs, isNaN y = true) : isNaN (xs.foldl op x) = true := by
  induction xs generalizing x with
  | nil => simpa using h
  | cons y xs ih =>
    simp only [List.mem_cons, exists_eq_or_imp, ← or_assoc] at h
    exact ih (h.imp_left (hop x y))

theorem isNaN_apply {f : Function} (hf : f ≠ .pow) {xs : List α}
    (h : ∃ x ∈ xs, isNaN x = true) : isNaN (f.apply xs) = true := by
  unfold apply
  split
  · exact absurd rfl hf
  · exact isNaN_foldl (fun _ _ => isNaN_smaller laws) (by simpa using h)
  · exact isNaN_foldl (fun _ _ => isNaN_larger laws) (by simpa using h)
  · exact isNaN_apply₁ laws f (by simpa using h)
  · exact laws.nan

end Function

namespace Operand

omit laws in
/-- A quotient that does not stop is the quotient of the values. -/
theorem eq_of_divide {x y z : Operand α} (h : x.divide y = .ok z) :
    z = ofValue (x.plain && y.plain) (x.value / y.value) := by
  unfold divide at h
  split at h
  · cases h
  · exact (Except.ok.inj h).symm

theorem isNaN_ofNumber (plain whole : Bool) {x : α} (hx : isNaN x = true) :
    isNaN (ofNumber plain whole x).value = true := by
  cases whole with
  | false => exact hx
  | true => simpa [ofNumber, ofWhole, laws.isZero_eq hx] using hx

end Operand

/-! ## Lines -/

namespace Line

variable (b : Bindings α) {l r t : Line Decimal}

omit laws in
/-- A line that arrives at no number, if it arrives at all. -/
def Spoilt (t : Line Decimal) : Prop :=
  ∀ x, (t.map ofDecimal).eval b = .ok x → isNaN x.value = true

variable {b}

omit laws in
/-- Arguments are reached one by one. -/
theorem forall₂_of_evalAll {ts : List (Line Decimal)} {xs : List (Operand α)}
    (h : evalAll b (mapAll ofDecimal ts) = .ok xs) :
    List.Forall₂ (fun t x => (map ofDecimal t).eval b = .ok x) ts xs := by
  induction ts generalizing xs with
  | nil =>
    obtain rfl := Except.ok.inj h
    exact .nil
  | cons t ts ih =>
    obtain ⟨x, hx, h⟩ := exists_of_bind h
    obtain ⟨xs, hxs, h⟩ := exists_of_bind h
    obtain rfl := Except.ok.inj h
    exact .cons hx (ih hxs)

theorem spoilt_negate (h : t.Spoilt b) : t.negate.Spoilt b := by
  intro x hx
  obtain ⟨y, hy, hx⟩ := exists_of_bind hx
  obtain rfl := Except.ok.inj hx
  exact Operand.isNaN_ofNumber laws _ _ (laws.neg _ (h y hy))

theorem spoilt_binary {o : Operator} (ho : o ≠ .pow) (h : l.Spoilt b ∨ r.Spoilt b) :
    (binary o l r).Spoilt b := by
  intro z hz
  obtain ⟨x, hx, hz⟩ := exists_of_bind hz
  obtain ⟨y, hy, hz⟩ := exists_of_bind hz
  have hoperand : isNaN x.value = true ∨ isNaN y.value = true := h.imp (· x hx) (· y hy)
  cases o with
  | add =>
    obtain rfl := Except.ok.inj hz
    exact Operand.isNaN_ofNumber laws _ _ (laws.add _ _ hoperand)
  | sub =>
    obtain rfl := Except.ok.inj hz
    exact Operand.isNaN_ofNumber laws _ _ (laws.sub _ _ hoperand)
  | mul =>
    obtain rfl := Except.ok.inj hz
    exact Operand.isNaN_ofNumber laws _ _ (laws.mul _ _ hoperand)
  | div =>
    obtain rfl := Operand.eq_of_divide hz
    exact laws.div _ _ hoperand
  | pow => exact absurd rfl ho

omit laws in
theorem exists_isNaN_of_evalAll {ts : List (Line Decimal)} {xs : List (Operand α)}
    (hxs : evalAll b (mapAll ofDecimal ts) = .ok xs) (h : ∃ t ∈ ts, t.Spoilt b) :
    ∃ x ∈ xs.map Operand.value, isNaN x = true := by
  have hreached := forall₂_of_evalAll hxs
  clear hxs
  induction hreached with
  | nil => simp at h
  | cons hx _ ih =>
    simp only [List.map_cons, List.mem_cons, exists_eq_or_imp] at h ⊢
    exact h.imp (· _ hx) ih

theorem spoilt_call {f : Function} (hf : f ≠ .pow) {ts : List (Line Decimal)}
    (h : ∃ t ∈ ts, t.Spoilt b) : (call f ts).Spoilt b := by
  intro x hx
  obtain ⟨xs, hxs, hx⟩ := exists_of_bind hx
  unfold Bindings.call at hx
  split at hx
  · cases hx
  · obtain rfl := Except.ok.inj hx
    exact Operand.isNaN_ofNumber laws _ _
      (Function.isNaN_apply laws hf (exists_isNaN_of_evalAll hxs h))

theorem value_of_spoilt (h : t.Spoilt b) : (t.map ofDecimal).value b = nan := by
  unfold value
  split
  · next x hx => exact laws.finiteOrNaN_eq (h x hx)
  · rfl

end Line

/-! ## Runs -/

namespace Run

variable {b : Bindings α} {r : Run}

omit laws in
/-- One of the operands of a run is spoilt. -/
def Spoilt (b : Bindings α) (r : Run) : Prop :=
  r.first.Spoilt b ∨ ∃ i ∈ r.rest, i.2.Spoilt b

theorem spoilt_applyAll {x : Line Decimal} {rest : List (Operator × Line Decimal)}
    (hrest : ∀ i ∈ rest, i.1 ≠ .pow) (h : x.Spoilt b ∨ ∃ i ∈ rest, i.2.Spoilt b) :
    (applyAll x rest).Spoilt b := by
  unfold applyAll
  induction rest generalizing x with
  | nil => simpa using h
  | cons i rest ih =>
    obtain ⟨hi, hrest⟩ := List.forall_mem_cons.mp hrest
    rw [List.exists_mem_cons_iff, ← or_assoc] at h
    exact ih hrest (h.imp_left (Line.spoilt_binary laws hi))

theorem Spoilt.signedFirst (h : r.first.Spoilt b) :
    (if r.negative then .negate r.first else r.first : Line Decimal).Spoilt b := by
  split
  · exact Line.spoilt_negate laws h
  · exact h

variable (hrest : ∀ i ∈ r.rest, i.1 ≠ .pow)
include hrest

theorem Spoilt.unsigned (h : r.Spoilt b) : r.unsigned.Spoilt b := spoilt_applyAll laws hrest h

theorem Spoilt.line (h : r.Spoilt b) : r.line.Spoilt b :=
  spoilt_applyAll laws hrest (h.imp_left (signedFirst laws))

end Run

end PhasePortrait
