import PhasePortrait.Formula.Equation
import PhasePortrait.Proofs.Number.Settled
import PhasePortrait.Proofs.Terms.Lines
import PhasePortrait.Proofs.Terms.Meaning

/-!
# Signs of terms

A sign in front of a formula goes into its number or into the number that its product begins with; in
front of anything else it becomes a factor of minus one. Two signs cancel, since no formula begins with a
factor of minus one of its own: numbers are compiled as approximate ones. A number that takes up a sign is
combined with the factor behind it, which stays apart only if it is neither a product nor a number.

## Main definitions

* `Tree.numeral? t` — the sign and the text of a tree that is a number.
* `Term.Basic t` — the term `t` is what some tree is compiled to, but for a sign.
* `Term.signed s t` — what the tree `t` is compiled to, negated if `s` holds.
* `Combination.Lone lower t b n` — the term `t`, which is the power `b^n`, stays apart from a number.
-/
namespace PhasePortrait

/-! ## Numbers with signs -/

namespace Tree

/-- The sign and the text of a number behind any number of signs. -/
def numeral? : Tree String → Option (Bool × String)
  | number text => some (false, text)
  | negate t => (numeral? t).map fun n => (!n.1, n.2)
  | _ => none

end Tree

namespace Approx

/-- The number of a text, behind a sign if `s` holds. -/
def ofSigned (s : Bool) (text : String) : Approx := if s then (ofText text).neg else ofText text

theorem neg_neg (x : Approx) : x.neg.neg = x := by
  simp [neg]

theorem neg_ofSigned (s : Bool) (text : String) : (ofSigned s text).neg = ofSigned (!s) text := by
  cases s with
  | false => rfl
  | true => exact neg_neg _

/-- A number of a text is negative behind a sign, unless it is zero. -/
theorem isNegative_ofSigned (s : Bool) (text : String) :
    (ofSigned s text).isNegative = (s && (ofText text).mantissa != 0) := by
  have hnonneg := ofText_nonneg text
  cases s with
  | false => exact decide_eq_false hnonneg.not_gt
  | true =>
    rw [Bool.true_and, Bool.eq_iff_iff, bne_iff_ne]
    show decide (-(ofText text).mantissa < 0) = true ↔ _
    rw [decide_eq_true_iff]
    omega

/-- The sign of a zero is dropped. -/
theorem ofSigned_eq {s : Bool} {text : String} (h : (s && (ofText text).mantissa != 0) = false) :
    ofSigned s text = ofText text := by
  cases s with
  | false => rfl
  | true =>
    have hzero : (ofText text).mantissa = 0 := by simpa using h
    show (ofText text).neg = ofText text
    rw [neg, hzero, neg_zero, ← hzero]

end Approx

namespace Term
open Combination

/-- Terms that a sign in front of them leaves whole, and that are written as one operand. -/
def isPlain : Term → Bool
  | symbol _ | constant _ | sum _ | call .. => true
  | _ => false

/-- What trees are compiled to, but for a sign. -/
inductive Basic : Term → Prop where
  | number (text : String) : Basic (number (.approx (Approx.ofText text)))
  | plain {t : Term} (h : t.isPlain = true) : Basic t
  | product {a b : Term} (h : ∀ c, a = .number c → c.isExact = false) : Basic (product [a, b])

@[simp] theorem negate_approx (x : Approx) : (number (.approx x)).negate = number (.approx x.neg) :=
  rfl

@[simp] theorem negate_number_product (x : Approx) (b : Term) :
    (product [number (.approx x), b]).negate = product [number (.approx x.neg), b] := rfl

theorem negate_of_isPlain {t : Term} (h : t.isPlain = true) :
    t.negate = product [integer (-1), t] := by
  cases t with
  | symbol _ | constant _ | sum _ | call _ _ => rfl
  | _ => cases h

theorem negate_product {a b : Term} (h : a.isNumber = false) :
    (product [a, b]).negate = product [integer (-1), a, b] := by
  cases a with
  | number _ => cases h
  | _ => rfl

theorem approx_or_isNumber {a : Term} (h : ∀ c, a = number c → c.isExact = false) :
    (∃ x, a = number (.approx x)) ∨ a.isNumber = false := by
  cases a with
  | number c =>
    cases c with
    | ratio n d => exact absurd (h _ rfl) Bool.noConfusion
    | approx x => exact .inl ⟨x, rfl⟩
  | _ => exact .inr rfl

/-- Two signs cancel. -/
theorem Basic.negate_negate {t : Term} (h : Basic t) : t.negate.negate = t := by
  cases h with
  | number text => rw [negate_approx, negate_approx, Approx.neg_neg]
  | plain h =>
    cases t with
    | symbol _ | constant _ | sum _ | call _ _ => rfl
    | _ => cases h
  | @product a b h =>
    obtain ⟨x, rfl⟩ | ha := approx_or_isNumber h
    · rw [negate_number_product, negate_number_product, Approx.neg_neg]
    · cases a with
      | number _ => cases ha
      | _ => rfl

/-- A basic term with or without a sign is no exact number. -/
theorem Basic.isExact {t u : Term} (h : Basic u) (ht : t = u ∨ t = u.negate) (c : Coefficient)
    (hc : t = .number c) : c.isExact = false := by
  subst hc
  cases h with
  | number text =>
    rcases ht with ht | ht
    · cases ht
      rfl
    · cases ht
      rfl
  | plain h =>
    rw [negate_of_isPlain h] at ht
    rcases ht with rfl | ht
    · cases h
    · cases ht
  | product h =>
    refine absurd (ht.resolve_left Term.noConfusion) ?_
    obtain ⟨x, rfl⟩ | ha := approx_or_isNumber h
    · exact Term.noConfusion
    · rw [negate_product ha]
      exact Term.noConfusion

theorem Basic.isNumber_negate {t : Term} (h : Basic t) : t.negate.isNumber = t.isNumber := by
  cases h with
  | number text => rfl
  | plain h =>
    rw [negate_of_isPlain h]
    cases t with
    | number _ => cases h
    | _ => rfl
  | product h =>
    obtain ⟨x, rfl⟩ | ha := approx_or_isNumber h
    · rfl
    · rw [negate_product ha]
      rfl

/-- A quotient is never taken for an inverse: one is an exact number. -/
theorem divide_eq {a b : Term} (h : ∀ c, a = number c → c.isExact = false) :
    divide a b = product [a, b.inverse] :=
  if_neg fun hone => absurd (h _ (eq_of_same hone)) Bool.noConfusion

theorem exists_basic : ∀ t : Tree String,
    ∃ u, Basic u ∧ (ofTree .compiled t = u ∨ ofTree .compiled t = u.negate)
  | .number text => ⟨_, .number text, .inl rfl⟩
  | .symbol _ | .constant _ | .call _ _ => ⟨_, .plain rfl, .inl rfl⟩
  | .negate t => by
    obtain ⟨u, hu, h | h⟩ := exists_basic t
    · exact ⟨u, hu, .inr (congrArg negate h)⟩
    · exact ⟨u, hu, .inl ((congrArg negate h).trans hu.negate_negate)⟩
  | .binary .add _ _ | .binary .sub _ _ | .binary .pow _ _ => ⟨_, .plain rfl, .inl rfl⟩
  | .binary .mul l r => by
    obtain ⟨u, hu, h⟩ := exists_basic l
    exact ⟨_, .product (hu.isExact h), .inl rfl⟩
  | .binary .div l r => by
    obtain ⟨u, hu, h⟩ := exists_basic l
    exact ⟨_, .product (hu.isExact h), .inl (divide_eq (hu.isExact h))⟩

theorem isExact_ofTree {t : Tree String} (c : Coefficient) (h : ofTree .compiled t = number c) :
    c.isExact = false := by
  obtain ⟨u, hu, ht⟩ := exists_basic t
  exact hu.isExact ht c h

/-- Trees are not compiled to inverses, only what they divide by is. -/
theorem divisor?_ofTree (t : Tree String) : divisor? (ofTree .compiled t) = none := by
  have hdivisor : ∀ u : Term, Basic u → divisor? u = none ∧ divisor? u.negate = none := by
    intro u hu
    cases hu with
    | number text => exact ⟨rfl, rfl⟩
    | plain h =>
      rw [negate_of_isPlain h]
      cases u with
      | power _ _ => cases h
      | _ => exact ⟨rfl, rfl⟩
    | product h =>
      obtain ⟨x, rfl⟩ | ha := approx_or_isNumber h
      · exact ⟨rfl, rfl⟩
      · rw [negate_product ha]
        exact ⟨rfl, rfl⟩
  obtain ⟨u, hu, h | h⟩ := exists_basic t
  · rw [h, (hdivisor u hu).1]
  · rw [h, (hdivisor u hu).2]

/-! ## Trees behind a sign -/

/-- What a tree is compiled to behind a sign, if `s` holds. -/
def signed (s : Bool) (t : Tree String) : Term :=
  if s then (ofTree .compiled t).negate else ofTree .compiled t

variable {s s' : Bool} {t l r : Tree String} {text : String}

theorem ofTree_sum {o : Operator} (ho : o = .add ∨ o = .sub) :
    ofTree .compiled (.binary o l r) = sum [ofTree .compiled l, signed (o == .sub) r] := by
  obtain rfl | rfl := ho
  · rfl
  · rfl

theorem signed_negate (s : Bool) (t : Tree String) : signed s (.negate t) = signed (!s) t := by
  cases s with
  | false => rfl
  | true =>
    obtain ⟨u, hu, h | h⟩ := exists_basic t
    · show (ofTree .compiled t).negate.negate = ofTree .compiled t
      rw [h, hu.negate_negate]
    · show (ofTree .compiled t).negate.negate = ofTree .compiled t
      rw [h, hu.negate_negate]

theorem signed_of_numeral : ∀ {t : Tree String} {n : Bool × String}, t.numeral? = some n →
    ∀ s, signed s t = number (.approx (.ofSigned (s ^^ n.1) n.2))
  | .number _, _, h, s => by
    cases h
    cases s
    · rfl
    · rfl
  | .negate t, _, h, s => by
    obtain ⟨n, ht, rfl⟩ := Option.map_eq_some_iff.mp h
    rw [signed_negate, signed_of_numeral ht, Bool.not_xor, Bool.xor_not]
  | .symbol _, _, h, _ | .constant _, _, h, _ | .binary _ _ _, _, h, _ | .call _ _, _, h, _ => by
    cases h

theorem isNumber_ofTree : ∀ {t : Tree String}, t.numeral? = none →
    (ofTree .compiled t).isNumber = false
  | .number _, h => by cases h
  | .negate t, h => by
    have ht := isNumber_ofTree (Option.map_eq_none_iff.mp h)
    obtain ⟨u, hu, h | h⟩ := exists_basic t
    · rw [h] at ht
      rw [ofTree, h, hu.isNumber_negate, ht]
    · rw [h, hu.isNumber_negate] at ht
      rw [ofTree, h, hu.negate_negate, ht]
  | .symbol _, _ | .constant _, _ | .call _ _, _ => rfl
  | .binary .add _ _, _ | .binary .sub _ _, _ | .binary .mul _ _, _ | .binary .pow _ _, _ => rfl
  | .binary .div l r, _ => by
    rw [ofTree, ofBinary, divide_eq isExact_ofTree]
    rfl

end Term

/-! ## A number and one more factor -/

namespace Combination
open Term

variable {lower : Combination} {x : Approx} {b t : Term} {n : Int}

@[simp] theorem spreadProducts_nil (depth : Nat) : spreadProducts depth [] = [] := by
  cases depth with
  | zero => rfl
  | succ _ => rfl

/-- A single power is collected into itself. -/
theorem raisedTwice_singleton (hn : n ≠ 0) (hpower : (if n = 1 then b else lower.ofPower b n) = t)
    (ht : baseAndExponent t = (b, n)) : lower.raisedTwice [(b, n)] = [t] := by
  have hraised : lower.raised [(b, n)] = ([t], [(b, n)]) := by
    simp only [raised, bne_iff_ne, ne_eq, hn, not_false_eq_true, List.filter_cons_of_pos,
      List.filter_nil, List.map_cons, List.map_nil, hpower]
    split
    · rfl
    · rw [ht]
      rfl
    · rfl
  simp only [raisedTwice, hraised]
  rfl

/-- Combined terms that a number in front of them stays apart from. -/
structure Lone (lower : Combination) (t b : Term) (n : Int) : Prop where
  not_sum : ∀ us, t ≠ sum us
  not_product : ∀ fs, t ≠ product fs
  no_number : number? t = none
  parts : baseAndExponent t = (b, n)
  exponent : n ≠ 0
  combined : (if n = 1 then b else lower.ofPower b n) = t

theorem Lone.factors (h : Lone lower t b n) (hx : x.Settled) (depth : Nat) :
    lower.factors (depth + 1) [number (.approx x), t] = [number (.approx x), t] := by
  have hspread : spreadProducts (depth + 1) [number (.approx x), t] = [number (.approx x), t] := by
    cases t with
    | product fs => exact absurd rfl (h.not_product fs)
    | _ => simp [spreadProducts]
  have hnumbers : numbers? [number (.approx x), t] = some [.approx x] := by
    simp only [numbers?, List.filterMap_cons, h.no_number]
    rfl
  have hpowers : ([number (.approx x), t].filter fun t => (number? t).isNone).map baseAndExponent =
      [(b, n)] := by
    rw [List.filter_cons_of_neg (by simp [number?]),
      List.filter_cons_of_pos (by simp [h.no_number]), List.filter_nil, List.map_singleton,
      h.parts]
  have hraised : lower.raisedTwice (collect (· + ·) [] (b, n)) = [t] :=
    raisedTwice_singleton h.exponent h.combined h.parts
  have hzero : (Coefficient.approx x).isZero = false := beq_eq_false_iff_ne.mpr hx.pos.ne'
  simp only [Combination.factors, hspread, hnumbers, hpowers, hraised, List.foldl_cons,
    List.foldl_nil, Approx.one_mul_of_settled hx, hzero]
  have hnumber := h.no_number
  cases t with
  | sum us => exact absurd rfl (h.not_sum us)
  | number _ | undefined => cases hnumber
  | _ => rfl

theorem Lone.scaled {depth : Nat} (h : Lone (level depth) t b n) (hx : x.Settled) :
    (level (depth + 1)).scaled (.approx x) t = product [number (.approx x), t] := by
  have hproduct : (level (depth + 1)).ofProduct [number (.approx x), t] =
      ofFactors ((level depth).factors (depth + 1) [number (.approx x), t]) := by
    have hnumber := h.no_number
    cases t with
    | sum us => exact absurd rfl (h.not_sum us)
    | product fs => exact absurd rfl (h.not_product fs)
    | number _ | undefined => cases hnumber
    | _ => rfl
  rw [h.factors hx] at hproduct
  have hscaled : ∀ lower : Combination, lower.ofProduct [number (.approx x), t] =
      product [number (.approx x), t] →
      lower.scaled (.approx x) t = product [number (.approx x), t] := by
    intro lower heq
    have hnumber := h.no_number
    cases t with
    | sum us => exact absurd rfl (h.not_sum us)
    | product fs => exact absurd rfl (h.not_product fs)
    | number _ | undefined => cases hnumber
    | _ =>
      show (if (lower.ofProduct _).isNumber && _ then _ else lower.ofProduct _) = _
      rw [heq]
      rfl
  exact hscaled _ hproduct

/-- A number stays apart from a plain factor, -/
theorem scaled_plain (hx : x.Settled) (depth : Nat) (h : t.isPlain = true) :
    (level (depth + 1)).scaled (.approx x) t = product [number (.approx x), t] := by
  cases t with
  | sum us => rfl
  | symbol _ | constant _ | call _ _ =>
    refine Lone.scaled (n := 1) ⟨?_, ?_, rfl, rfl, one_ne_zero, rfl⟩ hx
    · exact fun _ => Term.noConfusion
    · exact fun _ => Term.noConfusion
  | _ => cases h

/-- and from the inverse of one, unless that is a power of `e`. -/
theorem scaled_inverse (hx : x.Settled) (depth : Nat) (h : t.isPlain = true)
    (he : t ≠ constant .e) :
    (level (depth + 2)).scaled (.approx x) t.inverse = product [number (.approx x), t.inverse] := by
  refine Lone.scaled (b := t) (n := -1) ⟨?_, ?_, ?_, rfl, by decide, ?_⟩ hx
  · exact fun _ => Term.noConfusion
  · exact fun _ => Term.noConfusion
  · cases t with
    | number _ => cases h
    | _ => rfl
  · cases t with
    | symbol _ | call _ _ => rfl
    | constant c =>
      cases c with
      | e => exact absurd rfl he
      | pi => rfl
    | sum ts =>
      show (if (sum ts).isClosed then _ else Combination.sumPower _ ts (-1)) = _
      split
      · rfl
      · rw [sumPower]
        exact if_pos (Or.inl rfl)
    | _ => cases h

end Combination

end PhasePortrait
