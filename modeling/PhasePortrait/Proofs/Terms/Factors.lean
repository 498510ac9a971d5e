import Mathlib.Data.List.Permutation
import PhasePortrait.Proofs.Terms.Signs

/-!
# Products behind a sign

A product is written in one of three ways: without a sign as its two factors; with a sign and factors that
stay as they are; or with a sign and a number that is combined with the factor behind it. Its factors are
single operands unless they are products themselves and a sign stands in front, which opens them up: a
product with a sign binds no better than a sum, and so its factors are never put in brackets.

## Main definitions

* `Term.leadsNegative s l`, `Term.firstFactor l` — the sign and the first factor that a product with the
  left operand `l` is written with.
* `Term.Splits keyOf t negative f g` — the term `t` is written as the factors `f` and `g`.
* `Term.entries part level f` — a factor as a part of a run of factors.
-/
namespace PhasePortrait

/-! ## The factors of a product -/

namespace Term
open Combination

variable {keyOf : Term → Key} {s : Bool} {l r : Tree String} {o : Operator}

/-- Whether the product of `l` with another factor begins with a sign, behind a sign if `s` holds. -/
def leadsNegative (s : Bool) (l : Tree String) : Bool :=
  match l.numeral? with
  | some (s', text) => (s ^^ s') && (Approx.ofText text).mantissa != 0
  | none => s

/-- The first factor of a product, without a sign if it is a number. -/
def firstFactor (l : Tree String) : Term :=
  match l.numeral? with
  | some (_, text) => number (.approx (Approx.ofText text))
  | none => ofTree .compiled l

theorem firstFactor_of_none (h : l.numeral? = none) : firstFactor l = ofTree .compiled l := by
  rw [firstFactor, h]

theorem firstFactor_of_some {n : Bool × String} (h : l.numeral? = some n) :
    firstFactor l = number (.approx (Approx.ofText n.2)) := by
  rw [firstFactor, h]

theorem leadsNegative_of_none (s : Bool) (h : l.numeral? = none) : leadsNegative s l = s := by
  rw [leadsNegative, h]

theorem leadsNegative_of_some (s : Bool) {n : Bool × String} (h : l.numeral? = some n) :
    leadsNegative s l = ((s ^^ n.1) && (Approx.ofText n.2).mantissa != 0) := by
  rw [leadsNegative, h]

theorem divisor?_firstFactor (l : Tree String) : divisor? (firstFactor l) = none := by
  unfold firstFactor
  split
  · rfl
  · exact divisor?_ofTree l

/-- The other factor of a product or quotient. -/
def otherFactor (o : Operator) (r : Tree String) : Term :=
  if o = .div then (ofTree .compiled r).inverse else ofTree .compiled r

/-- Whether a negative number does not get into the other factor of a product or quotient. -/
def staysApart (o : Operator) (r : Tree String) : Prop :=
  (ofTree .compiled r).isPlain = true ∧ (o = .div → ofTree .compiled r ≠ constant .e)

theorem ofTree_binary (ho : o = .mul ∨ o = .div) :
    ofTree .compiled (.binary o l r) = product [ofTree .compiled l, otherFactor o r] := by
  obtain rfl | rfl := ho
  · rfl
  · exact divide_eq isExact_ofTree

theorem signed_binary_of_numeral (ho : o = .mul ∨ o = .div) {n : Bool × String}
    (h : l.numeral? = some n) : signed s (.binary o l r) =
      product [number (.approx (.ofSigned (s ^^ n.1) n.2)), otherFactor o r] := by
  have hl : ofTree .compiled l = _ := signed_of_numeral h false
  cases s with
  | false => rw [signed, if_neg Bool.false_ne_true, ofTree_binary ho, hl]
  | true =>
    rw [signed, if_pos rfl, ofTree_binary ho, hl, negate_number_product, Approx.neg_ofSigned,
      Bool.false_xor, Bool.true_xor]

theorem signed_binary (ho : o = .mul ∨ o = .div) (h : l.numeral? = none) :
    signed s (.binary o l r) = product (if s then [integer (-1), ofTree .compiled l, otherFactor o r]
      else [ofTree .compiled l, otherFactor o r]) := by
  cases s with
  | false => exact ofTree_binary ho
  | true =>
    show (ofTree .compiled (.binary o l r)).negate = _
    rw [ofTree_binary ho, negate_product (isNumber_ofTree h)]
    rfl

theorem scaled_otherFactor {x : Approx} (hx : x.Settled) (depth : Nat) (h : staysApart o r) :
    (level (depth + 2)).scaled (.approx x) (otherFactor o r) =
      product [number (.approx x), otherFactor o r] := by
  unfold otherFactor
  split
  · next ho => exact scaled_inverse hx depth h.1 (h.2 ho)
  · exact scaled_plain hx (depth + 1) h.1

theorem writtenFactors_perm {fs : List Term}
    (h : ∀ c rest, fs = number c :: rest → c.isNegative = false) :
    (writtenFactors keyOf fs).Perm fs := by
  have hkeyed : keyedFactors keyOf fs = Key.sortOn keyOf fs := by
    unfold keyedFactors
    split
    · next c rest => rw [h c rest rfl, Bool.false_and, if_neg Bool.false_ne_true]
    · rfl
  rw [writtenFactors, hkeyed]
  refine ((perm_sortBy _ _).map Prod.snd).trans ?_
  rw [List.map_map]
  exact .of_eq (List.map_id fs)

theorem signedFactors_of_positive {c : Coefficient} {g : Term} (hc : c.isNegative = false) :
    signedFactors keyOf (product [number c, g]) = (false, writtenFactors keyOf [number c, g]) := by
  have hsplit : splitNumber (product [number c, g]) = (c, g) := rfl
  simp only [signedFactors, hsplit, hc, Bool.false_eq_true, if_false]

theorem signedFactors_of_negative {c d : Coefficient} {g : Term} (hc : c.isNegative = true)
    (h : (product [number c, g]).combination.scaled c.neg g = product [number d, g]) :
    signedFactors keyOf (product [number c, g]) = (true, writtenFactors keyOf [number d, g]) := by
  have hsplit : splitNumber (product [number c, g]) = (c, g) := rfl
  simp only [signedFactors, hsplit, hc, if_true, h]

/-- The product `t` is written as the factors `f` and `g`, behind a sign if `negative` holds. -/
structure Splits (keyOf : Term → Key) (t : Term) (negative : Bool) (f g : Term) : Prop where
  product : ∃ fs, t = product fs
  factors : ∃ gs, signedFactors keyOf t = (negative, gs) ∧ gs.Perm [f, g]
  binding : t.binding = if negative then .sum else .product

/-- A product that begins with no number takes up a sign as a factor of minus one. -/
theorem splits_of_none (keyOf : Term → Key) (ho : o = .mul ∨ o = .div) (hl : l.numeral? = none) :
    Splits keyOf (signed s (.binary o l r)) s (ofTree .compiled l) (otherFactor o r) := by
  have hnumber := isNumber_ofTree hl
  rw [signed_binary ho hl]
  generalize ofTree .compiled l = f at hnumber
  have hperm : (writtenFactors keyOf [f, otherFactor o r]).Perm [f, otherFactor o r] :=
    writtenFactors_perm fun c rest h => by
      rw [(List.cons.inj h).1] at hnumber
      cases hnumber
  cases s with
  | false =>
    refine ⟨⟨_, rfl⟩, ⟨_, ?_, hperm⟩, ?_⟩
    · cases f with
      | number _ => cases hnumber
      | _ => rfl
    · cases f with
      | number _ => cases hnumber
      | _ => rfl
  | true => exact ⟨⟨_, rfl⟩, ⟨_, rfl, hperm⟩, rfl⟩

theorem writtenFactors_ofText_perm (text : String) (g : Term) :
    (writtenFactors keyOf [number (.approx (Approx.ofText text)), g]).Perm
      [number (.approx (Approx.ofText text)), g] :=
  writtenFactors_perm fun c rest h => by
    obtain ⟨rfl⟩ := number.inj (List.cons.inj h).1
    exact decide_eq_false (Approx.ofText_nonneg text).not_gt

/-- A number without a sign is a factor like any other. -/
theorem splits_of_positive (keyOf : Term → Key) {n : Bool} {text : String} (g : Term)
    (h : (Approx.ofSigned n text).isNegative = false) :
    Splits keyOf (product [number (.approx (.ofSigned n text)), g]) false
      (number (.approx (Approx.ofText text))) g := by
  rw [Approx.isNegative_ofSigned] at h
  have hpositive : (Coefficient.approx (Approx.ofText text)).isNegative = false :=
    decide_eq_false (Approx.ofText_nonneg text).not_gt
  rw [Approx.ofSigned_eq h]
  refine ⟨⟨_, rfl⟩, ⟨_, signedFactors_of_positive hpositive, writtenFactors_ofText_perm text g⟩, ?_⟩
  rw [binding, hpositive]

/-- A negative number leaves its sign in front, and is combined with the other factor without it. -/
theorem splits_of_negative (keyOf : Term → Key) {n : Bool} {text : String} (hstays : staysApart o r)
    (h : (Approx.ofSigned n text).isNegative = true) :
    Splits keyOf (product [number (.approx (.ofSigned n text)), otherFactor o r]) true
      (number (.approx (Approx.ofText text))) (otherFactor o r) := by
  have hsign := h
  rw [Approx.isNegative_ofSigned, Bool.and_eq_true] at hsign
  obtain ⟨rfl, hmantissa⟩ := hsign
  have hscaled := scaled_otherFactor (Approx.settled_ofText (bne_iff_ne.mp hmantissa))
    (4 * (product [number (.approx (.ofSigned true text)), otherFactor o r]).depth + 14) hstays
  refine ⟨⟨_, rfl⟩, ⟨_, signedFactors_of_negative h ?_, writtenFactors_ofText_perm text _⟩, ?_⟩
  · show Combination.scaled _ (.approx (Approx.neg _)) _ = _
    rw [Approx.neg_ofSigned]
    exact hscaled
  · show (if (Approx.ofSigned true text).isNegative then _ else _) = _
    rw [h]

/-- A product or quotient is written as its two factors, unless a negative number is combined with the
second one. -/
theorem splits_signed (keyOf : Term → Key) (ho : o = .mul ∨ o = .div)
    (hapart : leadsNegative s l = true → l.numeral? = none ∨ staysApart o r) :
    Splits keyOf (signed s (.binary o l r)) (leadsNegative s l) (firstFactor l) (otherFactor o r) := by
  cases hl : l.numeral? with
  | none =>
    rw [leadsNegative_of_none s hl, firstFactor_of_none hl]
    exact splits_of_none keyOf ho hl
  | some n =>
    have hnegative : leadsNegative s l = (Approx.ofSigned (s ^^ n.1) n.2).isNegative := by
      rw [leadsNegative_of_some s hl, Approx.isNegative_ofSigned]
    rw [signed_binary_of_numeral ho hl, firstFactor_of_some hl]
    cases hsign : leadsNegative s l with
    | false => exact splits_of_positive keyOf _ (hnegative.symm.trans hsign)
    | true =>
      have hstays := (hapart hsign).resolve_left (by simp [hl])
      exact splits_of_negative keyOf hstays (hnegative.symm.trans hsign)

/-! ## Runs of products -/

section
variable {part : Term → Run} {t f g : Term} {negative : Bool} {depth : Nat}

/-- A factor as a part of a run: one operand if it holds together no better than the run does, and its
own factors otherwise. -/
def entries (part : Term → Run) (level : Binding) (f : Term) : List (Operator × Line Decimal) :=
  if f.binding.strength ≤ level.strength then [(.mul, (part f).line)] else (part f).factors

theorem runWith_of_mul (part : Term → Run) (h : Splits keyOf t negative f g) (hf : divisor? f = none)
    (hg : divisor? g = none) {level : Binding} (hlevel : level = if negative then .sum else .product) :
    runWith keyOf part t = .ofFactors negative (entries part level f ++ entries part level g) ∨
      runWith keyOf part t = .ofFactors negative (entries part level g ++ entries part level f) := by
  obtain ⟨fs, rfl⟩ := h.product
  obtain ⟨gs, hgs, hperm⟩ := h.factors
  rw [hlevel, ← h.binding]
  obtain rfl | rfl := List.perm_pair.mp hperm
  · left
    simp [runWith, hgs, hf, hg, entries]
  · right
    simp [runWith, hgs, hf, hg, entries]

theorem runWith_of_div (part : Term → Run) (h : Splits keyOf t negative f g.inverse) (hf : divisor? f = none)
    {level : Binding} (hlevel : level = if negative then .sign else .product) :
    runWith keyOf part t =
      .ofFactors negative (entries part level f ++ [(.div, (part g).line)]) := by
  obtain ⟨fs, rfl⟩ := h.product
  obtain ⟨gs, hgs, hperm⟩ := h.factors
  have hg : divisor? g.inverse = some (g, 1) := rfl
  have hbinding := h.binding
  rw [hlevel]
  obtain rfl | rfl := List.perm_pair.mp hperm
  · cases negative with
    | true => simp [runWith, hgs, hf, hg, entries]
    | false => simp [runWith, hgs, hf, hg, hbinding, entries]
  · cases negative with
    | true => simp [runWith, hgs, hf, hg, entries]
    | false => simp [runWith, hgs, hf, hg, hbinding, entries]

theorem strength_product_le (fs : List Term) : (product fs).binding.strength ≤ 1 := by
  cases fs with
  | nil => decide
  | cons f fs =>
    cases f with
    | number c =>
      rw [binding]
      split
      · decide
      · decide
    | _ => exact le_rfl

/-- What binds more strongly than a product is written as a single operand. -/
theorem rest_run (h : 1 < t.binding.strength) : (run keyOf depth t).rest = [] := by
  cases depth with
  | zero => rfl
  | succ depth =>
    rw [run]
    unfold runWith
    split
    · next c =>
      replace h : 1 < (Binding.ofNumber c).strength := h
      unfold Run.ofNumber
      split
      · rfl
      · next n d hd =>
        unfold Binding.ofNumber at h
        split at h
        · next heq => exact absurd (Coefficient.ratio.inj heq).2 hd
        · next heq => cases heq
        · split at h
          · exact absurd h (by decide)
          · exact absurd h (by decide)
      · rfl
    · rfl
    · rfl
    · rfl
    · rfl
    · rfl
    · rfl
    · rfl
    · rfl
    · exact absurd h (strength_product_le _).not_gt

/-- A factor is a single operand, unless it is a product that a sign in front opens up. -/
theorem entries_eq {level : Binding} (h : f.binding = .product → 1 ≤ level.strength) :
    entries (run keyOf depth) level f = [(.mul, (run keyOf depth f).line)] := by
  unfold entries
  split
  · rfl
  · next hlevel =>
    have hbinding : 1 < f.binding.strength := by
      cases hf : f.binding with
      | sum =>
        rw [hf] at hlevel
        exact absurd (Nat.zero_le _) hlevel
      | product =>
        rw [hf] at hlevel
        exact absurd (h hf) hlevel
      | _ => decide
    unfold Run.factors Run.line
    rw [rest_run hbinding]
    rfl

theorem exists_run_of_isPlain (keyOf : Term → Key) (depth : Nat) (h : t.isPlain = true) :
    ∃ x, run keyOf depth t = .ofLine x := by
  cases depth with
  | zero => exact ⟨_, rfl⟩
  | succ depth =>
    cases t with
    | symbol _ | constant _ | sum _ | call _ _ => exact ⟨_, rfl⟩
    | _ => cases h

/-- A sign stands in front of a plain term. -/
theorem run_negate_of_isPlain (h : t.isPlain = true) {x : Line Decimal}
    (hx : run keyOf depth t = .ofLine x) : run keyOf (depth + 1) t.negate = ⟨true, x, []⟩ := by
  have hfactors : signedFactors keyOf (product [integer (-1), t]) = (true, [t]) := by
    cases t with
    | symbol _ | constant _ | sum _ | call _ _ => rfl
    | _ => cases h
  have hdivisor : divisor? t = none := by
    cases t with
    | power _ _ => cases h
    | _ => rfl
  have hentries : entries (run keyOf depth) .sign t = [(.mul, x)] := by
    rw [entries_eq fun _ => by decide, hx]
    rfl
  rw [negate_of_isPlain h, run]
  simp only [runWith, hfactors, List.filter_cons, hdivisor, Option.isNone_none, if_true,
    List.filter_nil, List.filterMap_cons_none, List.filterMap_nil, List.map_nil, List.length_singleton,
    le_refl, decide_true, Bool.and_self, List.flatMap_cons, List.flatMap_nil, List.append_nil]
  change Run.ofFactors true (entries (run keyOf depth) .sign t) = _
  rw [hentries]
  rfl

end

/-! ## Depths -/

section
variable {t : Term} {ts : List Term}

theorem depth_pos (t : Term) : 0 < t.depth := by
  cases t with
  | number _ | symbol _ | constant _ | undefined | exponential _ => exact Nat.one_pos
  | _ => exact Nat.succ_pos _

theorem depth_le_depthAll (h : t ∈ ts) : t.depth ≤ depthAll ts := by
  induction ts with
  | nil => cases h
  | cons u ts ih =>
    rw [depthAll]
    rcases List.mem_cons.mp h with rfl | h
    · exact le_max_left _ _
    · exact (ih h).trans (le_max_right _ _)

theorem depth_lt_sum (h : t ∈ ts) : t.depth < (sum ts).depth :=
  Nat.lt_succ_of_le (depth_le_depthAll h)

theorem depth_signed_binary (ho : o = .mul ∨ o = .div) :
    (firstFactor l).depth < (signed s (.binary o l r)).depth ∧
      (ofTree .compiled r).depth < (signed s (.binary o l r)).depth := by
  have hother : (ofTree .compiled r).depth ≤ (otherFactor o r).depth := by
    unfold otherFactor
    split
    · exact (le_max_left _ _).trans (Nat.le_succ _)
    · exact le_rfl
  cases hl : l.numeral? with
  | none =>
    rw [signed_binary ho hl, firstFactor_of_none hl]
    cases s with
    | false =>
      simp [depth, depthAll]
      omega
    | true =>
      simp [depth, depthAll]
      omega
  | some n =>
    rw [signed_binary_of_numeral ho hl, firstFactor_of_some hl]
    simp [depth, depthAll]
    omega

/-- A product that is written to some depth has its factors written to one less. -/
theorem exists_depth (ho : o = .mul ∨ o = .div) {depth : Nat}
    (h : (signed s (.binary o l r)).depth ≤ depth) :
    ∃ d, depth = d + 1 ∧ (firstFactor l).depth ≤ d ∧ (ofTree .compiled r).depth ≤ d := by
  obtain ⟨hfirst, hother⟩ := depth_signed_binary (s := s) (l := l) (r := r) ho
  exact ⟨depth - 1, by omega, by omega, by omega⟩

/-- A plain tree is written as one operand, behind its sign. -/
theorem exists_run_signed (keyOf : Term → Key) {u : Tree String} {depth : Nat}
    (hplain : (ofTree .compiled u).isPlain = true) (hdepth : (signed s u).depth ≤ depth) :
    ∃ d x, (ofTree .compiled u).depth ≤ d + 1 ∧ run keyOf (d + 1) (ofTree .compiled u) = .ofLine x ∧
      run keyOf depth (signed s u) = ⟨s, x, []⟩ := by
  have hpos := depth_pos (ofTree .compiled u)
  cases s with
  | false =>
    replace hdepth : (ofTree .compiled u).depth ≤ depth := hdepth
    obtain ⟨d, rfl⟩ : ∃ d, depth = d + 1 := ⟨depth - 1, by omega⟩
    obtain ⟨x, hx⟩ := exists_run_of_isPlain keyOf (d + 1) hplain
    exact ⟨d, x, hdepth, hx, hx⟩
  | true =>
    replace hdepth : (ofTree .compiled u).negate.depth ≤ depth := hdepth
    rw [negate_of_isPlain hplain] at hdepth
    simp only [Term.depth, depthAll] at hdepth
    obtain ⟨d, rfl⟩ : ∃ d, depth = d + 1 + 1 := ⟨depth - 2, by omega⟩
    obtain ⟨x, hx⟩ := exists_run_of_isPlain keyOf (d + 1) hplain
    exact ⟨d, x, by omega, hx, run_negate_of_isPlain hplain hx⟩

end

end Term

end PhasePortrait
