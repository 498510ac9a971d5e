import PhasePortrait.Formula.Combine
import Mathlib.Data.List.Basic

/-!
# What combined terms look up

Symbols, constants and functions are all looked up by name when a formula is evaluated. Combining
terms brings in no name of its own: whatever is put together from terms stays within the names that
these look up. Only `e` counts for two, because a power of it becomes a call of `exp`.

## Main definitions

* `Term.Within p t` — all that the term `t` looks up satisfies `p`.
* `Combination.Keeps p rules` — rules that combine terms within `p` to such terms.
-/
namespace PhasePortrait

/-- A constant within `p`, with the function that its powers call. -/
def Constant.Within (p : Symbol → Prop) (c : Constant) : Prop :=
  p (.named c.name) ∧ (c = .e → p (.named Function.exp.name))

namespace Term

mutual
/-- All that a term looks up satisfies `p`. A power that is not whole is a call. -/
def Within (p : Symbol → Prop) : Term → Prop
  | number _ | undefined => True
  | symbol s => p s
  | constant c => c.Within p
  | exponential _ => Constant.e.Within p
  | sum ts => AllWithin p ts
  | product ts => AllWithin p ts
  | power b e =>
    Within p b ∧ Within p e ∧ ((∃ n, e = integer n) ∨ p (.named Function.pow.identifier))
  | call f ts => p (.named f.identifier) ∧ AllWithin p ts

def AllWithin (p : Symbol → Prop) : List Term → Prop
  | [] => True
  | t :: ts => Within p t ∧ AllWithin p ts
end

variable {p : Symbol → Prop}

theorem allWithin_iff {ts : List Term} : AllWithin p ts ↔ ∀ t ∈ ts, t.Within p := by
  induction ts with
  | nil => simp [AllWithin]
  | cons t ts ih => simp [AllWithin, ih]

@[simp] theorem within_number (c : Coefficient) : (number c).Within p := trivial

@[simp] theorem within_undefined : undefined.Within p := trivial

@[simp] theorem within_integer (n : Int) : (integer n).Within p := trivial

@[simp] theorem within_sum {ts : List Term} : (sum ts).Within p ↔ ∀ t ∈ ts, t.Within p :=
  allWithin_iff

@[simp] theorem within_product {ts : List Term} : (product ts).Within p ↔ ∀ t ∈ ts, t.Within p :=
  allWithin_iff

@[simp] theorem within_call {f : Function} {ts : List Term} :
    (call f ts).Within p ↔ p (.named f.identifier) ∧ ∀ t ∈ ts, t.Within p :=
  and_congr .rfl allWithin_iff

theorem within_whole_power {b : Term} (h : b.Within p) (n : Int) : (power b (integer n)).Within p :=
  ⟨h, trivial, .inl ⟨n, rfl⟩⟩

theorem within_ofFactors {ts : List Term} (h : ∀ t ∈ ts, t.Within p) : (ofFactors ts).Within p := by
  unfold ofFactors
  split
  · simp
  · exact h _ (by simp)
  · exact within_product.mpr h

theorem within_negateAfter (c : Coefficient) {ts : List Term} (h : ∀ t ∈ ts, t.Within p) :
    (negateAfter c ts).Within p := by
  unfold negateAfter
  split
  · have hrest := fun t ht => h t (List.mem_cons_of_mem _ ht)
    split
    · exact within_ofFactors h
    · split
      · exact within_ofFactors (by simpa using hrest)
      · exact within_ofFactors (by simpa using hrest)
  · split
    · exact within_ofFactors h
    · simpa using h

theorem within_negate {t : Term} (h : t.Within p) : t.negate.Within p := by
  unfold negate
  split
  · simp
  · have hrest := fun t ht => within_product.mp h t (List.mem_cons_of_mem _ ht)
    split
    · exact within_negateAfter _ hrest
    · simpa using hrest
  · simpa using h
  · simpa using h

theorem within_sortParts {ts : List Term} :
    (∀ t ∈ sortParts ts, t.Within p) ↔ ∀ t ∈ ts, t.Within p := by
  simp [sortParts]

end Term

namespace Combination
open Term
variable {p : Symbol → Prop}

/-- Rules that combine terms within `p` to terms within `p`. -/
structure Keeps (p : Symbol → Prop) (rules : Combination) : Prop where
  sum : ∀ ts : List Term, (∀ t ∈ ts, t.Within p) → (rules.ofSum ts).Within p
  product : ∀ ts : List Term, (∀ t ∈ ts, t.Within p) → (rules.ofProduct ts).Within p
  power : ∀ (b : Term) (n : Int), b.Within p → (rules.ofPower b n).Within p

theorem keeps_bare : bare.Keeps p where
  sum _ h := within_sum.mpr h
  product _ h := within_ofFactors h
  power _ n h := within_whole_power h n

/-! ## Parts -/

theorem within_splitNumber {t : Term} (h : t.Within p) : (splitNumber t).2.Within p := by
  unfold splitNumber
  split
  · exact within_ofFactors fun t ht => within_product.mp h t (List.mem_cons_of_mem _ ht)
  · exact h

theorem within_baseAndExponent {t : Term} (h : t.Within p) : (baseAndExponent t).1.Within p := by
  unfold baseAndExponent
  split
  · exact h.1
  · exact h
  · exact h

theorem within_spreadProducts (depth : Nat) {ts : List Term} (h : ∀ t ∈ ts, t.Within p) :
    ∀ t ∈ spreadProducts depth ts, t.Within p := by
  induction depth generalizing ts with
  | zero => exact h
  | succ depth ih =>
    cases ts with
    | nil => exact h
    | cons u us =>
      simp only [spreadProducts, List.forall_mem_append]
      refine ⟨fun t ht => h t (List.mem_of_mem_filter ht), ih fun t ht => ?_⟩
      obtain ⟨v, hv, hmem⟩ := List.mem_flatMap.mp ht
      cases v with
      | product fs => exact within_product.mp (h _ hv) t hmem
      | _ => cases hmem

theorem within_spreadSums (depth : Nat) {ts : List Term} (h : ∀ t ∈ ts, t.Within p) :
    ∀ t ∈ spreadSums depth ts, t.Within p := by
  induction depth generalizing ts with
  | zero => exact h
  | succ depth ih =>
    cases ts with
    | nil => exact h
    | cons u us =>
      simp only [spreadSums, List.forall_mem_append]
      refine ⟨fun t ht => h t (List.mem_of_mem_filter ht), ih fun t ht => ?_⟩
      obtain ⟨v, hv, hmem⟩ := List.mem_flatMap.mp ht
      cases v with
      | sum us => exact within_sum.mp (h _ hv) t hmem
      | _ => cases hmem

theorem within_collect {κ : Type} (add : κ → κ → κ) {kept : List (Term × κ)} {item : Term × κ}
    (hkept : ∀ i ∈ kept, i.1.Within p) (hitem : item.1.Within p) :
    ∀ i ∈ collect add kept item, i.1.Within p := by
  unfold collect
  split
  · intro i hi
    obtain ⟨⟨t, a⟩, hmem, rfl⟩ := List.mem_map.mp hi
    have ht : t.Within p := hkept _ hmem
    dsimp only
    split
    · exact ht
    · exact ht
  · exact List.forall_mem_append.mpr ⟨hkept, by simpa using hitem⟩

/-- Collecting amounts adds no term. -/
theorem within_collected {κ : Type} (add : κ → κ → κ) {items : List (Term × κ)}
    (h : ∀ i ∈ items, i.1.Within p) : ∀ i ∈ items.foldl (collect add) [], i.1.Within p := by
  suffices ∀ kept : List (Term × κ), (∀ i ∈ kept, i.1.Within p) →
      ∀ i ∈ items.foldl (collect add) kept, i.1.Within p from this [] (by simp)
  induction items with
  | nil => exact fun _ hkept => hkept
  | cons item items ih =>
    obtain ⟨hitem, hitems⟩ := List.forall_mem_cons.mp h
    exact fun kept hkept => ih hitems _ (within_collect add hkept hitem)

theorem forall_mem_pair {α : Type} {P : α → Prop} {a b : α} :
    (∀ x ∈ [a, b], P x) ↔ P a ∧ P b := by
  simp

theorem forall_mem_unzip {α β : Type} {P : α → Prop} {Q : β → Prop} {items : List (α × β)}
    (h : ∀ i ∈ items, P i.1 ∧ Q i.2) :
    (∀ a ∈ items.unzip.1, P a) ∧ ∀ b ∈ items.unzip.2, Q b := by
  rw [List.unzip_eq_map, List.forall_mem_map, List.forall_mem_map]
  exact ⟨fun i hi => (h i hi).1, fun i hi => (h i hi).2⟩

/-! ## Negation, multiples and powers -/

variable {lower : Combination} (hl : lower.Keeps p)
include hl

theorem Keeps.negated {t : Term} (h : t.Within p) : (lower.negated t).Within p := by
  unfold Combination.negated
  split
  · exact hl.product _ (by simpa using h)
  · exact within_negate h

theorem Keeps.scaled (c : Coefficient) {t : Term} (h : t.Within p) :
    (lower.scaled c t).Within p := by
  unfold Combination.scaled
  split
  · simp
  split
  · exact h
  split
  · exact hl.negated h
  split
  · simpa using h
  · have hrest := fun t ht => within_product.mp h t (List.mem_cons_of_mem _ ht)
    dsimp only
    split
    · exact within_ofFactors hrest
    · exact within_ofFactors (by simpa using hrest)
  · simpa using h
  · dsimp only
    split
    · simpa using h
    · exact hl.product _ (by simpa using h)

theorem Keeps.sumPower {ts : List Term} (h : ∀ t ∈ ts, t.Within p) (n : Int) :
    (lower.sumPower ts n).Within p := by
  unfold Combination.sumPower
  dsimp only
  split
  · exact within_whole_power (within_sum.mpr h) n
  · refine hl.product _ (forall_mem_pair.mpr ⟨hl.power _ _ (within_number _), ?_⟩)
    refine hl.power _ _ (hl.sum _ fun t ht => ?_)
    obtain ⟨⟨c, u⟩, hpart, rfl⟩ := List.mem_map.mp ht
    obtain ⟨v, hv, hsplit⟩ := List.mem_map.mp hpart
    have hu : u.Within p := by
      split at hsplit
      · cases hsplit
        exact within_integer 1
      · rw [show u = (splitNumber v).2 by rw [hsplit]]
        exact within_splitNumber (h v hv)
    exact hl.product _ (by simpa using hu)

theorem Keeps.productPower {fs : List Term} (h : ∀ t ∈ fs, t.Within p) (n : Int) :
    (lower.productPower fs n).Within p := by
  unfold Combination.productPower
  refine hl.product _ (forall_mem_pair.mpr ⟨hl.product _ ?_, ?_⟩)
  · rw [List.forall_mem_map]
    exact fun f hf => within_whole_power (h f hf) n
  · exact within_whole_power (within_integer 1) n

theorem Keeps.nextPower {b : Term} (h : b.Within p) (n : Int) : (lower.nextPower b n).Within p := by
  unfold Combination.nextPower
  split
  · simp
  split
  · exact h
  split
  · cases Coefficient.pow? _ n <;> simp
  · simp
  · exact h
  · split
    · exact h
    · exact h
  · exact hl.power _ _ h.1
  · dsimp only
    split
    · have hpositive := within_negate h
      split
      · split
        · next hneg =>
          rw [hneg] at hpositive
          exact hl.productPower (within_product.mp hpositive) n
        · exact hl.power _ _ hpositive
      · exact hl.negated (hl.power _ _ hpositive)
    · exact hl.productPower (within_product.mp h) n
  · exact hl.productPower (within_product.mp h) n
  · split
    · exact within_whole_power h n
    · exact hl.sumPower (within_sum.mp h) n
  · exact within_whole_power h n

/-! ## Products -/

theorem Keeps.raised {powers : List (Term × Int)} (h : ∀ i ∈ powers, i.1.Within p) :
    (∀ t ∈ (lower.raised powers).1, t.Within p) ∧ ∀ i ∈ (lower.raised powers).2, i.1.Within p := by
  refine forall_mem_unzip (Q := fun i : Term × Int => i.1.Within p) fun i hi => ?_
  obtain ⟨⟨b, n⟩, hmem, rfl⟩ := List.mem_map.mp hi
  have hb : b.Within p := h _ (List.mem_of_mem_filter hmem)
  have hpower : (if n = 1 then b else lower.ofPower b n).Within p := by
    split
    · exact hb
    · exact hl.power b n hb
  dsimp only
  split
  · exact ⟨hpower, hb⟩
  · exact ⟨hpower, within_baseAndExponent hpower⟩
  · exact ⟨hpower, hb⟩

theorem Keeps.raisedTwice {powers : List (Term × Int)} (h : ∀ i ∈ powers, i.1.Within p) :
    ∀ t ∈ lower.raisedTwice powers, t.Within p := by
  obtain ⟨hparts, hagain⟩ := hl.raised h
  unfold Combination.raisedTwice
  dsimp only
  split
  · exact (hl.raised (within_collected _ hagain)).1
  · exact hparts

theorem Keeps.inFront (c : Coefficient) {fs : List Term} (h : ∀ t ∈ fs, t.Within p) :
    ∀ t ∈ lower.inFront c fs, t.Within p := by
  have hfront : ∀ t ∈ if c = .one then sortParts fs else number c :: sortParts fs, t.Within p := by
    have hsorted := within_sortParts.mpr h
    split
    · exact hsorted
    · exact List.forall_mem_cons.mpr ⟨within_number c, hsorted⟩
  unfold Combination.inFront
  dsimp only
  split
  · next hsum =>
    rw [hsum] at hfront
    have hterms := within_sum.mp (forall_mem_pair.mp hfront).2
    refine List.forall_mem_singleton.mpr (hl.sum _ (List.forall_mem_map.mpr fun u hu => ?_))
    exact hl.product _ (forall_mem_pair.mpr ⟨within_number _, hterms u hu⟩)
  · exact hfront

theorem Keeps.factors (depth : Nat) {ts : List Term} (h : ∀ t ∈ ts, t.Within p) :
    ∀ t ∈ lower.factors depth ts, t.Within p := by
  have hspread := within_spreadProducts depth h
  unfold Combination.factors
  dsimp only
  split
  · simp
  · have hpowers : ∀ i ∈ ((spreadProducts depth ts).filter fun t => (number? t).isNone).map
        baseAndExponent, i.1.Within p :=
      List.forall_mem_map.mpr fun t ht =>
        within_baseAndExponent (hspread t (List.mem_of_mem_filter ht))
    have hparts := hl.raisedTwice (within_collected (· + ·) hpowers)
    split
    · simp
    split
    · simp
    split
    · simp
    · exact hl.inFront _ fun t ht => hparts t (List.mem_of_mem_filter ht)

theorem Keeps.timesSum (c r : Coefficient) {ts : List Term} (h : ∀ t ∈ ts, t.Within p) :
    (lower.timesSum c r ts).Within p := by
  unfold Combination.timesSum
  dsimp only
  split
  · exact hl.sum _ (List.forall_mem_map.mpr fun t ht => hl.scaled c (h t ht))
  split
  · exact within_sum.mpr h
  · simpa using h

theorem Keeps.nextProduct (depth : Nat) {ts : List Term} (h : ∀ t ∈ ts, t.Within p) :
    (lower.nextProduct depth ts).Within p := by
  have hkept : ∀ t ∈ ts.filter (· != integer 1), t.Within p :=
    fun t ht => h t (List.mem_of_mem_filter ht)
  unfold Combination.nextProduct
  generalize ts.filter (· != integer 1) = us at hkept
  split
  · simp
  · exact hkept _ (by simp)
  · next _ a b =>
    have hswap (q : Prop) [Decidable q] : (if q then (b, a) else (a, b)).1.Within p ∧
        (if q then (b, a) else (a, b)).2.Within p := by
      split
      · exact (forall_mem_pair.mp hkept).symm
      · exact forall_mem_pair.mp hkept
    dsimp only
    split
    · next r us _ hsum =>
      have hterms : (r, Term.sum us).2.Within p := by
        rw [← hsum]
        exact within_splitNumber (hswap _).2
      split
      · exact hl.timesSum _ _ (within_sum.mp hterms)
      · exact within_ofFactors (hl.factors depth (forall_mem_pair.mpr (hswap _)))
    · exact within_ofFactors (hl.factors depth (forall_mem_pair.mpr (hswap _)))
  · exact within_ofFactors (hl.factors depth hkept)

/-! ## Sums -/

theorem Keeps.multiple {t : Term} (h : t.Within p) (c : Coefficient) :
    (lower.multiple t c).Within p := by
  unfold Combination.multiple
  split
  · exact h
  split
  · simpa using h
  · simpa using h
  · exact hl.product _ (by simpa using h)

omit hl in
theorem within_ofTerms {ts : List Term} (h : ∀ t ∈ ts, t.Within p) : (ofTerms ts).Within p := by
  unfold ofTerms
  split
  · simp
  · exact h _ (by simp)
  · exact within_sum.mpr h

/-- Like terms, collected with their numbers. -/
theorem Keeps.collected {items : List (Coefficient × Term)} (h : ∀ i ∈ items, i.2.Within p) :
    ∀ t ∈ (((items.map fun i => (i.2, i.1)).foldl (collect Coefficient.add) []).filter
      fun i => !i.2.isZero).map fun i => lower.multiple i.1 i.2, t.Within p := by
  have hitems : ∀ i ∈ items.map fun i => (i.2, i.1), i.1.Within p := by
    rwa [List.forall_mem_map]
  have hcollected := within_collected Coefficient.add hitems
  exact List.forall_mem_map.mpr fun i hi =>
    hl.multiple (hcollected i (List.mem_of_mem_filter hi)) i.2

theorem Keeps.collectedSum (depth : Nat) {ts : List Term} (h : ∀ t ∈ ts, t.Within p) :
    (lower.collectedSum depth ts).Within p := by
  have hspread := within_spreadSums depth h
  unfold Combination.collectedSum
  dsimp only
  split
  · simp
  · have hitems : ∀ i ∈ ((spreadSums depth ts).filter fun t => (number? t).isNone).map splitNumber,
        i.2.Within p :=
      List.forall_mem_map.mpr fun t ht =>
        within_splitNumber (hspread t (List.mem_of_mem_filter ht))
    have hsorted := within_sortParts.mpr (hl.collected hitems)
    split
    · exact within_ofTerms hsorted
    · exact within_ofTerms (List.forall_mem_cons.mpr ⟨within_number _, hsorted⟩)

theorem Keeps.nextSum (depth : Nat) {ts : List Term} (h : ∀ t ∈ ts, t.Within p) :
    (lower.nextSum depth ts).Within p := by
  have hkept : ∀ t ∈ ts.filter (· != integer 0), t.Within p :=
    fun t ht => h t (List.mem_of_mem_filter ht)
  unfold Combination.nextSum
  generalize ts.filter (· != integer 0) = us at hkept
  split
  · simp
  · exact hkept _ (by simp)
  · simpa using hkept
  · simpa using hkept
  · exact hl.collectedSum depth hkept

/-! ## Levels -/

theorem Keeps.next (depth : Nat) : (lower.next depth).Keeps p where
  sum _ h := hl.nextSum depth h
  product _ h := hl.nextProduct depth h
  power _ n h := hl.nextPower h n

omit hl in
theorem keeps_level : ∀ depth, (level depth).Keeps p
  | 0 => keeps_bare
  | depth + 1 => (keeps_level depth).next (depth + 1)

end Combination

end PhasePortrait
