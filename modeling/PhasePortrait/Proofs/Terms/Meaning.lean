import Mathlib.Algebra.BigOperators.Group.List.Basic
import Mathlib.Algebra.Field.Rat
import Mathlib.Order.Bounds.Basic
import Mathlib.Tactic.Ring
import PhasePortrait.Formula.Term

/-!
# What echoed formulas mean

A formula and the term that echoes it stand for the same element of a field, however symbols,
constants, functions and powers are interpreted there. Echoing rewrites negations: one moves into a
number, also into the leading number of a product, and a number that becomes one is dropped. It also
turns quotients into products with inverses and drops equal arguments of `min` and `max`. None of
this changes the value, and no symbol gets lost or comes in.

The inverse of a term and its power with the exponent -1 are one term. So a formula that raises
something to -1 is only echoed faithfully where such a power is the inverse; for all other formulas
powers are any function of two arguments.

## Main definitions

* `Interpretation F` — values for the parts of formulas in a field `F`.
* `Tree.denote I`, `Term.denote I` — the value of a formula and of a term.
* `Tree.RaisesToMinusOne` — the formulas that raise something to -1.

## Main results

* `echo_faithful` — the term that echoes a formula has its value and its symbols.
* `echo_ambiguous` — this fails for `1/X` and `X^(-1)` where powers are products.
-/
namespace PhasePortrait

/-! ## Equality of terms -/

namespace Term

mutual
theorem eq_of_same : ∀ {t u : Term}, same t u = true → t = u
  | number a, u, h => by
    cases u with
    | number b => exact congrArg number (beq_iff_eq.mp h)
    | _ => cases h
  | symbol s, u, h => by
    cases u with
    | symbol s' => exact congrArg symbol (beq_iff_eq.mp h)
    | _ => cases h
  | constant c, u, h => by
    cases u with
    | constant c' => exact congrArg constant (beq_iff_eq.mp h)
    | _ => cases h
  | undefined, u, h => by
    cases u with
    | undefined => rfl
    | _ => cases h
  | exponential n, u, h => by
    cases u with
    | exponential m => exact congrArg exponential (beq_iff_eq.mp h)
    | _ => cases h
  | sum ts, u, h => by
    cases u with
    | sum us => exact congrArg sum (eq_of_sameAll h)
    | _ => cases h
  | product ts, u, h => by
    cases u with
    | product us => exact congrArg product (eq_of_sameAll h)
    | _ => cases h
  | power b e, u, h => by
    cases u with
    | power b' e' =>
      obtain ⟨hbase, hexponent⟩ := Bool.and_eq_true_iff.mp h
      rw [eq_of_same hbase, eq_of_same hexponent]
    | _ => cases h
  | call f ts, u, h => by
    cases u with
    | call g us =>
      obtain ⟨hfunction, hargs⟩ := Bool.and_eq_true_iff.mp h
      rw [beq_iff_eq.mp hfunction, eq_of_sameAll hargs]
    | _ => cases h

theorem eq_of_sameAll : ∀ {ts us : List Term}, sameAll ts us = true → ts = us
  | [], [], _ => rfl
  | t :: ts, u :: us, h => by
    obtain ⟨hhead, htail⟩ := Bool.and_eq_true_iff.mp h
    rw [eq_of_same hhead, eq_of_sameAll htail]
  | [], _ :: _, h => nomatch h
  | _ :: _, [], h => nomatch h
end

mutual
theorem same_refl : ∀ t : Term, same t t = true
  | number _ | symbol _ | constant _ | exponential _ => beq_self_eq_true _
  | undefined => rfl
  | sum ts | product ts => sameAll_refl ts
  | power b e => Bool.and_eq_true_iff.mpr ⟨same_refl b, same_refl e⟩
  | call f ts => Bool.and_eq_true_iff.mpr ⟨beq_self_eq_true f, sameAll_refl ts⟩

theorem sameAll_refl : ∀ ts : List Term, sameAll ts ts = true
  | [] => rfl
  | t :: ts => Bool.and_eq_true_iff.mpr ⟨same_refl t, sameAll_refl ts⟩
end

instance : LawfulBEq Term where
  eq_of_beq := eq_of_same
  rfl := same_refl _

instance : DecidableEq Term := instDecidableEqOfLawfulBEq

end Term

/-! ## Values -/

/-- What the parts of formulas stand for in a field. Whole numbers stand for themselves. -/
structure Interpretation (F : Type*) [Field F] where
  symbol : String → F
  constant : Constant → F
  approx : Approx → F
  approx_neg : ∀ x, approx x.neg = -approx x
  power : F → F → F
  function : Function → List F → F
  /-- The semilattice of `min`. -/
  least : SemilatticeInf F
  /-- The semilattice of `max`. -/
  greatest : SemilatticeSup F

variable {F : Type*} [Field F]

namespace Interpretation
variable (I : Interpretation F)

def number (text : String) : F :=
  if text.toList.all Char.isDigit then (Decimal.ofDigits text.toList : F)
  else I.approx (.ofText text)

def coefficient : Coefficient → F
  | .ratio n d => (n : F) / (d : F)
  | .approx x => I.approx x

def binary (o : Operator) (x y : F) : F :=
  match o with
  | .add => x + y
  | .sub => x - y
  | .mul => x * y
  | .div => x * y⁻¹
  | .pow => I.power x y

def call (f : Function) (args : List F) : F :=
  match f, args with
  | .sqrt, [x] => I.power x (1 / (2 : ℕ))
  | .pow, [x, y] => I.power x y
  | .ln, xs => I.function .log xs
  | .min, x :: xs => xs.foldl I.least.inf x
  | .max, x :: xs => xs.foldl I.greatest.sup x
  | f, xs => I.function f xs

end Interpretation

namespace Tree

mutual
/-- The value of a formula. -/
def denote (I : Interpretation F) : Tree String → F
  | number text => I.number text
  | symbol name => I.symbol name
  | constant c => I.constant c
  | negate t => -denote I t
  | binary o l r => I.binary o (denote I l) (denote I r)
  | call f args => I.call f (denoteAll I args)

def denoteAll (I : Interpretation F) : List (Tree String) → List F
  | [] => []
  | t :: ts => denote I t :: denoteAll I ts
end

mutual
/-- Names of the symbols of a formula, as often as they occur. -/
def names : Tree String → List String
  | number _ | constant _ => []
  | symbol name => [name]
  | negate t => names t
  | binary _ l r => names l ++ names r
  | call _ args => namesAll args

def namesAll : List (Tree String) → List String
  | [] => []
  | t :: ts => names t ++ namesAll ts
end

mutual
/-- Something is raised to -1, or to what is echoed as this number. -/
def RaisesToMinusOne : Tree String → Prop
  | number _ | symbol _ | constant _ => False
  | negate t => RaisesToMinusOne t
  | binary o l r =>
    RaisesToMinusOne l ∨ RaisesToMinusOne r ∨
      o = .pow ∧ Term.ofTree .echo r = Term.integer (-1)
  | call f args =>
    AnyRaisesToMinusOne args ∨
      f = .pow ∧ ∃ base, Term.ofTrees .echo args = [base, Term.integer (-1)]

def AnyRaisesToMinusOne : List (Tree String) → Prop
  | [] => False
  | t :: ts => RaisesToMinusOne t ∨ AnyRaisesToMinusOne ts
end

end Tree

namespace Term

mutual
/-- The value of a term. A power with the exponent -1 is the inverse. -/
def denote (I : Interpretation F) : Term → F
  | number c => I.coefficient c
  | symbol s => I.symbol s.label
  | constant c => I.constant c
  | undefined => 0
  | exponential n => I.call .exp [(n : F)]
  | sum ts => (denoteAll I ts).sum
  | product ts => (denoteAll I ts).prod
  | power b e => if e = integer (-1) then (denote I b)⁻¹ else I.power (denote I b) (denote I e)
  | call f ts => I.call f (denoteAll I ts)

def denoteAll (I : Interpretation F) : List Term → List F
  | [] => []
  | t :: ts => denote I t :: denoteAll I ts
end

variable (I : Interpretation F)

theorem denoteAll_eq_map (ts : List Term) : denoteAll I ts = ts.map (denote I) := by
  induction ts with
  | nil => rfl
  | cons t ts ih => rw [denoteAll, List.map_cons, ih]

@[simp] theorem denote_number (c : Coefficient) : (number c).denote I = I.coefficient c := rfl

@[simp] theorem denote_product (ts : List Term) :
    (product ts).denote I = (ts.map (denote I)).prod := by
  rw [denote, denoteAll_eq_map]

@[simp] theorem denote_sum (ts : List Term) : (sum ts).denote I = (ts.map (denote I)).sum := by
  rw [denote, denoteAll_eq_map]

@[simp] theorem denote_call (f : Function) (ts : List Term) :
    (call f ts).denote I = I.call f (ts.map (denote I)) := by
  rw [denote, denoteAll_eq_map]

@[simp] theorem coefficient_ofInt (n : ℤ) : I.coefficient (.ofInt n) = n := by
  rw [Coefficient.ofInt, Interpretation.coefficient, Nat.cast_one, div_one]

@[simp] theorem denote_integer (n : ℤ) : (integer n).denote I = n := coefficient_ofInt I n

@[simp] theorem coefficient_neg (c : Coefficient) : I.coefficient c.neg = -I.coefficient c := by
  cases c with
  | ratio n d => rw [Coefficient.neg, Interpretation.coefficient, Int.cast_neg, neg_div]; rfl
  | approx x => exact I.approx_neg x

/-! ## Negations and quotients -/

@[simp] theorem denote_ofFactors (ts : List Term) :
    (ofFactors ts).denote I = (ts.map (denote I)).prod := by
  unfold ofFactors
  split
  · simp
  · simp
  · exact denote_product I _

/-- What becomes of a number that has taken the sign, dropped or multiplied up, keeps its value. -/
theorem denote_negateAfter (c : Coefficient) (ts : List Term) :
    (negateAfter c ts).denote I = I.coefficient c * (ts.map (denote I)).prod := by
  unfold negateAfter
  split
  · split
    · next hone => simp [hone, Coefficient.one]
    split
    · next hminusOne => simp [hminusOne, Coefficient.minusOne]
    · simp only [denote_ofFactors, List.map_cons, List.map_nil, List.prod_cons, List.prod_nil,
        denote_product, denote_number]
      ring
  · split
    · next hone => simp [hone, Coefficient.one]
    · simp

@[simp] theorem denote_negate (t : Term) : t.negate.denote I = -t.denote I := by
  unfold negate
  split
  · simp
  · split
    · rw [denote_negateAfter, coefficient_neg, denote_product, List.map_cons, List.prod_cons,
        denote_number, neg_mul]
    · simp
  · simp
  · simp

@[simp] theorem denote_inverse (t : Term) : t.inverse.denote I = (t.denote I)⁻¹ := by
  rw [inverse, denote, if_pos rfl]

@[simp] theorem denote_divide (a b : Term) :
    (divide a b).denote I = a.denote I * (b.denote I)⁻¹ := by
  unfold divide
  split
  · next hone => simp [beq_iff_eq.mp hone]
  · simp

/-! ## Powers and calls -/

/-- A power is the one of the interpretation, if an exponent of -1 makes the inverse there. -/
theorem denote_power {b e : Term} (h : e = integer (-1) → ∀ x, I.power x (-1) = x⁻¹) :
    (power b e).denote I = I.power (b.denote I) (e.denote I) := by
  rw [denote]
  split
  · next he => rw [he, denote_integer, Int.cast_neg, Int.cast_one, h he]
  · rfl

theorem denote_echoedNumber (text : String) :
    (Style.echoedNumber text).denote I = I.number text := by
  unfold Style.echoedNumber Interpretation.number
  split
  · rw [denote_integer, Int.cast_natCast]
  · rfl

theorem denote_ofBinary {o : Operator} {a b : Term}
    (h : o = .pow → b = integer (-1) → ∀ x, I.power x (-1) = x⁻¹) :
    (ofBinary .echo o a b).denote I = I.binary o (a.denote I) (b.denote I) := by
  cases o with
  | add => simp [ofBinary, Interpretation.binary]
  | sub => simp [ofBinary, Interpretation.binary, sub_eq_add_neg]
  | mul => simp [ofBinary, Interpretation.binary]
  | div => exact denote_divide I a b
  | pow => exact denote_power I (h rfl)

end Term

/-! ## Least and greatest arguments -/

theorem isLUB_foldl_sup {L : Type*} [SemilatticeSup L] (x : L) (xs : List L) :
    IsLUB {y | y ∈ x :: xs} (xs.foldl (· ⊔ ·) x) := by
  induction xs generalizing x with
  | nil => simp
  | cons y ys ih =>
    have hfold := ih (x ⊔ y)
    rw [List.foldl_cons]
    constructor
    · intro z hz
      have hxy : x ⊔ y ≤ ys.foldl (· ⊔ ·) (x ⊔ y) := hfold.1 List.mem_cons_self
      rcases List.mem_cons.mp hz with rfl | hz
      · exact le_sup_left.trans hxy
      rcases List.mem_cons.mp hz with rfl | hz
      · exact le_sup_right.trans hxy
      · exact hfold.1 (List.mem_cons_of_mem _ hz)
    · intro bound hbound
      refine hfold.2 fun z hz => ?_
      rcases List.mem_cons.mp hz with rfl | hz
      · exact sup_le (hbound List.mem_cons_self)
          (hbound (List.mem_cons_of_mem _ List.mem_cons_self))
      · exact hbound (List.mem_cons_of_mem _ (List.mem_cons_of_mem _ hz))

/-- The fold of a semilattice operation depends on the members of the list only. -/
theorem foldl_sup_congr {L : Type*} [SemilatticeSup L] {x x' : L} {xs xs' : List L}
    (h : ∀ y, y ∈ x :: xs ↔ y ∈ x' :: xs') : xs.foldl (· ⊔ ·) x = xs'.foldl (· ⊔ ·) x' :=
  (Set.ext h ▸ isLUB_foldl_sup x xs).unique (isLUB_foldl_sup x' xs')

theorem Interpretation.call_congr (I : Interpretation F) {f : Function} (hf : f = .min ∨ f = .max)
    {xs ys : List F} (h : ∀ x, x ∈ xs ↔ x ∈ ys) : I.call f xs = I.call f ys := by
  cases xs with
  | nil => rw [List.eq_nil_iff_forall_not_mem.mpr fun y hy => List.not_mem_nil ((h y).mpr hy)]
  | cons x xs =>
    cases ys with
    | nil => exact absurd ((h x).mp List.mem_cons_self) List.not_mem_nil
    | cons y ys =>
      rcases hf with rfl | rfl
      · let := I.least
        exact foldl_sup_congr (L := Fᵒᵈ) h
      · let := I.greatest
        exact foldl_sup_congr h

namespace Term
variable (I : Interpretation F)

theorem denote_extremum {f : Function} (hf : f = .min ∨ f = .max) (args : List Term) :
    (Style.extremum f args).denote I = I.call f (args.map (denote I)) := by
  -- equal terms have equal values, so that dropping them leaves the values that there are
  have hmembers : ∀ x, x ∈ args.eraseDups.map (denote I) ↔ x ∈ args.map (denote I) := by
    simp only [List.mem_map, List.mem_eraseDups, implies_true]
  rw [← I.call_congr hf hmembers]
  unfold Style.extremum
  split
  · next t hsingle =>
    rw [hsingle]
    rcases hf with rfl | rfl <;> rfl
  · exact denote_call I f _

theorem denote_echoedCall {f : Function} {args : List Term}
    (h : f = .pow → ∀ b, args = [b, integer (-1)] → ∀ x, I.power x (-1) = x⁻¹) :
    (Style.echoedCall f args).denote I = I.call f (args.map (denote I)) := by
  unfold Style.echoedCall
  split
  · have hhalf : number .half ≠ integer (-1) := fun heq =>
      absurd (number.inj heq) (by decide)
    rw [denote_power I fun heq => absurd heq hhalf]
    simp [Interpretation.call, Interpretation.coefficient, Coefficient.half]
  · next b e => exact denote_power I fun he => h rfl b (he ▸ rfl)
  · exact denote_call I .log args
  · exact denote_extremum I (.inl rfl) args
  · exact denote_extremum I (.inr rfl) args
  · exact denote_call I f args

mutual
theorem denote_ofTree : ∀ t : Tree String, (t.RaisesToMinusOne → ∀ x, I.power x (-1) = x⁻¹) →
    (ofTree .echo t).denote I = t.denote I
  | .number text, _ => denote_echoedNumber I text
  | .symbol _, _ => rfl
  | .constant _, _ => rfl
  | .negate t, h => by rw [ofTree, denote_negate, denote_ofTree t h, Tree.denote]
  | .binary o l r, h => by
    rw [ofTree, denote_ofBinary I fun ho hr => h (.inr (.inr ⟨ho, hr⟩)),
      denote_ofTree l fun hl => h (.inl hl), denote_ofTree r fun hr => h (.inr (.inl hr)),
      Tree.denote]
  | .call f args, h => by
    have hcall : f = .pow → ∀ b, ofTrees .echo args = [b, integer (-1)] →
        ∀ x, I.power x (-1) = x⁻¹ := fun hf b hargs => h (.inr ⟨hf, b, hargs⟩)
    have hargs := denoteAll_ofTrees args fun hany => h (.inl hany)
    rw [denoteAll_eq_map] at hargs
    exact (denote_echoedCall I hcall).trans (congrArg _ hargs)

theorem denoteAll_ofTrees : ∀ ts : List (Tree String),
    (Tree.AnyRaisesToMinusOne ts → ∀ x, I.power x (-1) = x⁻¹) →
    denoteAll I (ofTrees .echo ts) = Tree.denoteAll I ts
  | [], _ => rfl
  | t :: ts, h => by
    rw [ofTrees, denoteAll, Tree.denoteAll, denote_ofTree t fun ht => h (.inl ht),
      denoteAll_ofTrees ts fun hts => h (.inr hts)]
end

/-! ## Symbols -/

theorem mem_symbolsAll {name : String} {ts : List Term} :
    name ∈ symbolsAll ts ↔ ∃ t ∈ ts, name ∈ t.symbols := by
  induction ts with
  | nil => simp [symbolsAll]
  | cons t ts ih => simp [symbolsAll, ih]

@[simp] theorem symbols_ofFactors (ts : List Term) : (ofFactors ts).symbols = symbolsAll ts := by
  unfold ofFactors
  split
  · rfl
  · rw [symbolsAll, symbolsAll, List.append_nil]
  · rfl

theorem symbols_negateAfter (c : Coefficient) (ts : List Term) :
    (negateAfter c ts).symbols = symbolsAll ts := by
  unfold negateAfter
  split
  · split
    · exact symbols_ofFactors _
    split
    · exact symbols_ofFactors _
    · exact symbols_ofFactors _
  · split
    · exact symbols_ofFactors _
    · rfl

@[simp] theorem symbols_negate (t : Term) : t.negate.symbols = t.symbols := by
  unfold negate
  split
  · rfl
  · split
    · exact symbols_negateAfter _ _
    · rfl
  · rfl
  · exact List.append_nil _

theorem symbols_divide (a b : Term) : (divide a b).symbols = a.symbols ++ b.symbols := by
  unfold divide
  split
  · next hone => simp [beq_iff_eq.mp hone, inverse, symbols, integer]
  · simp [inverse, symbols, symbolsAll, integer]

theorem symbols_ofBinary (o : Operator) (a b : Term) :
    (ofBinary .echo o a b).symbols = a.symbols ++ b.symbols := by
  cases o with
  | add | mul => simp [ofBinary, symbols, symbolsAll]
  | sub => simp [ofBinary, symbols, symbolsAll]
  | div => exact symbols_divide a b
  | pow => rfl

theorem mem_symbols_extremum {name : String} {f : Function} {args : List Term} :
    name ∈ (Style.extremum f args).symbols ↔ name ∈ symbolsAll args := by
  have hdistinct : name ∈ symbolsAll args.eraseDups ↔ name ∈ symbolsAll args := by
    simp only [mem_symbolsAll, List.mem_eraseDups]
  rw [← hdistinct]
  unfold Style.extremum
  split
  · next t hsingle => rw [hsingle, symbolsAll, symbolsAll, List.append_nil]
  · rfl

theorem mem_symbols_echoedCall {name : String} {f : Function} {args : List Term} :
    name ∈ (Style.echoedCall f args).symbols ↔ name ∈ symbolsAll args := by
  unfold Style.echoedCall
  split
  · simp [symbols, symbolsAll]
  · simp [symbols, symbolsAll]
  · rfl
  · exact mem_symbols_extremum
  · exact mem_symbols_extremum
  · rfl

theorem symbols_echoedNumber (text : String) : (Style.echoedNumber text).symbols = [] := by
  unfold Style.echoedNumber
  split
  · rfl
  · rfl

mutual
theorem mem_symbols_ofTree {name : String} :
    ∀ t : Tree String, name ∈ (ofTree .echo t).symbols ↔ name ∈ t.names
  | .number text => by rw [ofTree, Style.echo, symbols_echoedNumber, Tree.names]
  | .symbol _ => Iff.rfl
  | .constant _ => Iff.rfl
  | .negate t => by rw [ofTree, symbols_negate, mem_symbols_ofTree t, Tree.names]
  | .binary o l r => by
    rw [ofTree, symbols_ofBinary, Tree.names, List.mem_append, List.mem_append,
      mem_symbols_ofTree l, mem_symbols_ofTree r]
  | .call f args => mem_symbols_echoedCall.trans (mem_symbolsAll_ofTrees args)

theorem mem_symbolsAll_ofTrees {name : String} :
    ∀ ts : List (Tree String), name ∈ symbolsAll (ofTrees .echo ts) ↔ name ∈ Tree.namesAll ts
  | [] => Iff.rfl
  | t :: ts => by
    rw [ofTrees, symbolsAll, Tree.namesAll, List.mem_append, List.mem_append, mem_symbols_ofTree t,
      mem_symbolsAll_ofTrees ts]
end

/-! ## Echoed formulas -/

/-- The inverse of a formula and its power with the exponent -1 are one term. -/
theorem ofTree_inverse (t : Tree String) :
    ofTree .echo (.binary .div (.number "1") t) =
      ofTree .echo (.binary .pow t (.negate (.number "1"))) := by
  have hone : Style.echoedNumber "1" = integer 1 := by decide +kernel
  simp only [ofTree, ofBinary, Style.echo, hone, divide, beq_self_eq_true, if_true, inverse]
  rfl

theorem number_one (I : Interpretation F) : I.number "1" = 1 := by
  rw [Interpretation.number, if_pos (by decide +kernel),
    show Decimal.ofDigits "1".toList = 1 by decide +kernel, Nat.cast_one]

/-- So terms can have the values of all formulas only where powers of -1 are inverses. -/
theorem power_minusOne_of_forall (I : Interpretation F) {value : Term → F}
    (h : ∀ t, value (ofTree .echo t) = t.denote I) (t : Tree String) :
    I.power (t.denote I) (-1) = (t.denote I)⁻¹ := by
  have hinverse := h (.binary .div (.number "1") t)
  rw [ofTree_inverse, h] at hinverse
  simpa [Tree.denote, Interpretation.binary, number_one] using hinverse

/-- In the rational numbers with any powers, symbols stand for the lengths of their names. -/
def rational (power : ℚ → ℚ → ℚ) : Interpretation ℚ where
  symbol name := name.length
  constant _ := 3
  approx x := x.mantissa
  approx_neg x := Int.cast_neg x.mantissa
  power := power
  function _ xs := xs.sum
  least := inferInstance
  greatest := inferInstance

/-- **An echoed formula means what the formula means.** In any field the term has the value of the
formula, however symbols, constants, functions and powers are interpreted, and its free symbols are
the names in the formula. If something is raised to -1, this has to be the inverse, which is the
same term. -/
theorem echo_faithful (t : Tree String) :
    (∀ {F : Type*} [Field F] (I : Interpretation F),
      (t.RaisesToMinusOne → ∀ x, I.power x (-1) = x⁻¹) →
        (ofTree .echo t).denote I = t.denote I) ∧
    ∀ name, name ∈ (ofTree .echo t).freeSymbols ↔ name ∈ t.names := by
  refine ⟨fun I h => denote_ofTree I t h, fun name => ?_⟩
  rw [freeSymbols, mem_sortBy, List.mem_eraseDups]
  exact mem_symbols_ofTree t

/-- The formula `-(2*X) - Y^(-1)` over the rational numbers. -/
theorem echo_faithful_difference :
    ∃ (t : Tree String) (I : Interpretation ℚ), t.RaisesToMinusOne ∧
      (∀ x, I.power x (-1) = x⁻¹) ∧ (ofTree .echo t).denote I = t.denote I ∧
      "Y" ∈ (ofTree .echo t).freeSymbols := by
  let t : Tree String := .binary .sub (.negate (.binary .mul (.number "2") (.symbol "X")))
    (.binary .pow (.symbol "Y") (.negate (.number "1")))
  let I := rational fun x y => if y = -1 then x⁻¹ else x * y
  have hpower : ∀ x, I.power x (-1) = x⁻¹ := fun x => by simp [I, rational]
  obtain ⟨hvalue, hnames⟩ := echo_faithful t
  exact ⟨t, I, .inr (.inl (.inr (.inr ⟨rfl, by decide +kernel⟩))), hpower, hvalue I fun _ => hpower,
    (hnames "Y").mpr (by decide)⟩

/-- Where powers are products, `1/X` is 1 and `X^(-1)` is -1, and both are echoed as one term. So no
reading of terms gives every formula its value under every interpretation of powers. -/
theorem echo_ambiguous :
    ofTree .echo (.binary .div (.number "1") (.symbol "X")) =
        ofTree .echo (.binary .pow (.symbol "X") (.negate (.number "1"))) ∧
      Tree.denote (rational (· * ·)) (.binary .div (.number "1") (.symbol "X")) = 1 ∧
      Tree.denote (rational (· * ·)) (.binary .pow (.symbol "X") (.negate (.number "1"))) = -1 ∧
      (¬∀ (t : Tree String) (I : Interpretation ℚ), (ofTree .echo t).denote I = t.denote I) ∧
      ¬∀ I : Interpretation ℚ, ∃ value : Term → ℚ, ∀ t, value (ofTree .echo t) = t.denote I := by
  have hX : ("X".length : ℚ) = 1 := by rw [show "X".length = 1 by decide, Nat.cast_one]
  have hinverse :
      Tree.denote (rational (· * ·)) (.binary .div (.number "1") (.symbol "X")) = 1 := by
    simp [Tree.denote, Interpretation.binary, number_one, rational, hX]
  have hpower : Tree.denote (rational (· * ·))
      (.binary .pow (.symbol "X") (.negate (.number "1"))) = -1 := by
    simp [Tree.denote, Interpretation.binary, number_one, rational, hX]
  have hvalue : ¬∃ value : Term → ℚ, ∀ t, value (ofTree .echo t) = t.denote (rational (· * ·)) := by
    rintro ⟨value, h⟩
    have hsame := power_minusOne_of_forall (rational (· * ·)) h (.symbol "X")
    simp only [Tree.denote, rational, hX, mul_neg, mul_one, inv_one] at hsame
    exact absurd hsame (by decide)
  refine ⟨ofTree_inverse _, hinverse, hpower, fun h => hvalue ⟨_, fun t => h t _⟩, fun h => ?_⟩
  exact hvalue (h (rational (· * ·)))

end Term

end PhasePortrait
