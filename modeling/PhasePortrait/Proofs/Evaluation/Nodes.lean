import PhasePortrait.Proofs.Evaluation.Keeping

/-!
# Nodes without a number

A node of a tree that has no number for a value leaves the whole formula without one, as long as the
node, or what is computed from it, is an operand of the compiled line. The way from the node to the root
decides that: each sum, call and divisor on it is an operand of its own; a product that stands behind a
sign opens up its factors, so that the node has to be an operand within them; and a number that a
product begins with is combined with the other factor, and may take the node along.

## Main definitions

* `Tree.Stands symbols u closed s t` — the node `u` of the tree `t` is met when its line is worked off.
-/
namespace PhasePortrait
open Scalar

namespace Tree

/-- The node `u` of the tree `t`, which stands behind a sign if `s` holds, is met when the line of the
tree is worked off, on a way without powers: within one of the operands that the tree is written as, or,
if `closed` holds, perhaps only in the value of the tree. -/
inductive Stands (symbols : List Symbol) (u : Tree String) : Bool → Bool → Tree String → Prop where
  | whole {s : Bool} (h : Kept symbols s u) : Stands symbols u true s u
  | operand {s : Bool} (hplain : (Term.ofTree .compiled u).isPlain = true) (h : Kept symbols false u) :
    Stands symbols u false s u
  | closed {s : Bool} {t : Tree String} (h : Stands symbols u false s t) : Stands symbols u true s t
  | negate {closed s : Bool} {t : Tree String} (h : Stands symbols u closed (!s) t) :
    Stands symbols u closed s (.negate t)
  | summand_left {s : Bool} {o : Operator} {l r : Tree String} (ho : o = .add ∨ o = .sub)
    (h : Stands symbols u true false l) : Stands symbols u false s (.binary o l r)
  | summand_right {s : Bool} {o : Operator} {l r : Tree String} (ho : o = .add ∨ o = .sub)
    (h : Stands symbols u true (o == .sub) r) : Stands symbols u false s (.binary o l r)
  | factor_left {closed s : Bool} {o : Operator} {l r : Tree String} (ho : o = .mul ∨ o = .div)
    (hl : l.numeral? = none) (h : Stands symbols u closed false l)
    (hopen : closed = true → Unopened s o l (Term.ofTree .compiled l)) :
    Stands symbols u false s (.binary o l r)
  | factor_right {closed s : Bool} {l r : Tree String} (hr : Uncombined s .mul l r)
    (h : Stands symbols u closed false r)
    (hopen : closed = true → Unopened s .mul l (Term.ofTree .compiled r)) :
    Stands symbols u false s (.binary .mul l r)
  | divisor {s : Bool} {l r : Tree String} (hr : Uncombined s .div l r)
    (h : Stands symbols u true false r) : Stands symbols u false s (.binary .div l r)
  | argument {s : Bool} {f : Function} {args : List (Tree String)} {t : Tree String} (hf : f ≠ .pow)
    (ht : t ∈ args) (h : Stands symbols u true false t) : Stands symbols u false s (.call f args)

end Tree

variable {α : Type} [Elementary α] {b : Bindings α}

namespace Run

variable {r : Run} {v : α} (laws : NaNSpoils α)
include laws

/-- A sum is spoilt if one of its terms is, whichever sign joins it. -/
theorem spoilt_joined {rs : List Run} (h : ∃ r ∈ rs, r.line.Spoilt b ∧ r.unsigned.Spoilt b) :
    (joined rs).Spoilt b := by
  cases rs with
  | nil => simp at h
  | cons first rs =>
    suffices ∀ x : Line Decimal, x.Spoilt b ∨ (∃ r ∈ rs, r.unsigned.Spoilt b) →
        (rs.foldl (fun x r => .binary (if r.negative then .sub else .add) x r.unsigned) x).Spoilt b by
      refine this _ ?_
      simp only [List.mem_cons, exists_eq_or_imp] at h
      exact h.imp And.left fun ⟨r, hr, hspoilt⟩ => ⟨r, hr, hspoilt.2⟩
    clear h
    induction rs with
    | nil => simp
    | cons r rs ih =>
      intro x h
      simp only [List.mem_cons, exists_eq_or_imp, ← or_assoc] at h
      refine ih _ (h.imp_left (Line.spoilt_binary laws ?_))
      split
      · exact Operator.noConfusion
      · exact Operator.noConfusion

omit laws in
theorem spoilt_ofFactors (negative : Bool) {fs : List (Operator × Line Decimal)}
    (h : ∃ i ∈ fs, i.2.Spoilt b) : (ofFactors negative fs).Spoilt b := by
  cases fs with
  | nil => simp at h
  | cons f fs => simpa [Spoilt, ofFactors] using h

/-- A run without a number for a value is spoilt, with its sign and without it. -/
theorem Gives.spoilt (signs : SignLaws α) (h : r.Gives b v) (hv : isNaN v = true) :
    r.line.Spoilt b ∧ r.unsigned.Spoilt b := by
  refine ⟨fun z hz => ?_, fun z hz => ?_⟩
  · obtain ⟨-, rfl⟩ := h.line signs z hz
    exact hv
  · obtain ⟨w, hw, rfl⟩ := h.unsigned
    obtain ⟨-, rfl⟩ := hw z hz
    cases hnegative : r.negative with
    | false => simpa [hnegative] using hv
    | true =>
      rw [← signs.neg_neg z.value]
      exact laws.neg _ (by simpa [hnegative] using hv)

end Run

namespace Term

variable {keyOf : Term → Key} {s : Bool} {t l r : Tree String} {depth : Nat}

mutual
theorem within_true : ∀ t : Term, t.Within fun _ => True
  | number _ | undefined | symbol _ => trivial
  | constant _ | exponential _ => ⟨trivial, fun _ => trivial⟩
  | sum ts | product ts => allWithin_true ts
  | power b e => ⟨within_true b, within_true e, .inr trivial⟩
  | call _ ts => ⟨trivial, allWithin_true ts⟩

theorem allWithin_true : ∀ ts : List Term, AllWithin (fun _ => True) ts
  | [] => trivial
  | t :: ts => ⟨within_true t, allWithin_true ts⟩
end

theorem ne_pow_of_mem_rest (keyOf : Term → Key) (depth : Nat) (t : Term) :
    ∀ i ∈ (run keyOf depth t).rest, i.1 ≠ .pow := fun i hi =>
  ((within_run depth (within_true t)).rest i hi).1

/-- A plain tree is spoilt as soon as its operand is. -/
theorem spoilt_of_plain (hplain : (ofTree .compiled t).isPlain = true)
    (h : ∀ depth x, (ofTree .compiled t).depth ≤ depth + 1 →
      run keyOf (depth + 1) (ofTree .compiled t) = .ofLine x → x.Spoilt b)
    (hdepth : (signed s t).depth ≤ depth) : (run keyOf depth (signed s t)).Spoilt b := by
  obtain ⟨d, x, hd, hx, hrun⟩ := exists_run_signed keyOf hplain hdepth
  rw [hrun]
  exact .inl (h d x hd hx)

theorem spoilt_quotient (hcombined : Tree.Uncombined s .div l r)
    (h : (run keyOf depth (firstFactor l)).line.Spoilt b ∨
      (run keyOf depth (ofTree .compiled r)).line.Spoilt b) :
    (run keyOf (depth + 1) (signed s (.binary .div l r))).Spoilt b := by
  have hsplits : Splits keyOf _ _ (firstFactor l) (ofTree .compiled r).inverse :=
    splits_signed keyOf (.inr rfl) hcombined
  rw [run, runWith_of_div (run keyOf depth) hsplits (divisor?_firstFactor l) rfl, entries_eq]
  · refine Run.spoilt_ofFactors _ ?_
    simpa using h
  · intro _
    cases leadsNegative s l with
    | false => decide
    | true => decide

section
variable (laws : NaNSpoils α)
include laws

theorem spoilt_sum {f : Term} {ts : List Term} (hf : f ∈ ts)
    (h : (run keyOf depth f).line.Spoilt b ∧ (run keyOf depth f).unsigned.Spoilt b)
    {x : Line Decimal} (hx : run keyOf (depth + 1) (sum ts) = .ofLine x) : x.Spoilt b := by
  obtain ⟨summand, hrun, hsummand⟩ := exists_run_sum keyOf depth ts
  obtain rfl := congrArg Run.first (hx.symm.trans hrun)
  refine Run.spoilt_joined laws ⟨summand f, List.mem_map_of_mem ?_, ?_⟩
  · exact (writtenTerms_perm keyOf ts).mem_iff.mpr hf
  · obtain heq | heq := hsummand f
    · rwa [heq]
    · rw [heq]
      exact ⟨h.1, h.1⟩

/-- A sum of two trees is spoilt with either of its terms, whatever sign stands in front of it. -/
theorem spoilt_binary_sum {o : Operator} (ho : o = .add ∨ o = .sub) {f : Term}
    (hf : f ∈ [ofTree .compiled l, signed (o == .sub) r])
    (h : ∀ {depth : Nat}, f.depth ≤ depth →
      (run keyOf depth f).line.Spoilt b ∧ (run keyOf depth f).unsigned.Spoilt b)
    (hdepth : (signed s (.binary o l r)).depth ≤ depth) :
    (run keyOf depth (signed s (.binary o l r))).Spoilt b := by
  have hsum := ofTree_sum (l := l) (r := r) ho
  refine spoilt_of_plain (by rw [hsum]; rfl) (fun d x hle hx => ?_) hdepth
  rw [hsum] at hle hx
  exact spoilt_sum laws hf (h (Nat.le_of_lt_succ ((depth_lt_sum hf).trans_le hle))) hx

/-- A factor is spoilt with one of its operands, and with its value unless it is opened up. -/
theorem exists_spoilt_entry {level : Binding} {f : Term}
    (h : (run keyOf depth f).Spoilt b ∨
      (run keyOf depth f).line.Spoilt b ∧ (f.binding = .product → 1 ≤ level.strength)) :
    ∃ i ∈ entries (run keyOf depth) level f, i.2.Spoilt b := by
  rcases h with h | ⟨h, hlevel⟩
  · unfold entries
    split
    · exact ⟨_, List.mem_singleton_self _, h.line laws (ne_pow_of_mem_rest keyOf depth f)⟩
    · simp only [Run.factors, List.mem_cons, exists_eq_or_imp]
      exact h.imp_left (Run.Spoilt.signedFirst laws)
  · rw [entries_eq hlevel]
    exact ⟨_, List.mem_singleton_self _, h⟩

theorem spoilt_product (hcombined : Tree.Uncombined s .mul l r) {f : Term}
    (hf : f = firstFactor l ∨ f = ofTree .compiled r)
    (h : (run keyOf depth f).Spoilt b ∨
      (run keyOf depth f).line.Spoilt b ∧ Tree.Unopened s .mul l f) :
    (run keyOf (depth + 1) (signed s (.binary .mul l r))).Spoilt b := by
  have hsplits : Splits keyOf _ _ (firstFactor l) (ofTree .compiled r) :=
    splits_signed keyOf (.inl rfl) hcombined
  have hentry : ∃ i ∈ entries (run keyOf depth) (if leadsNegative s l then .sum else .product) f,
      i.2.Spoilt b := by
    refine exists_spoilt_entry laws (h.imp_right fun h => ⟨h.1, fun hproduct => ?_⟩)
    cases hnegative : leadsNegative s l with
    | false => exact le_rfl
    | true => exact absurd hproduct (h.2 hnegative rfl)
  obtain ⟨i, hi, hspoilt⟩ := hentry
  rw [run]
  obtain hrun | hrun := runWith_of_mul (run keyOf depth) hsplits (divisor?_firstFactor l)
    (divisor?_ofTree r) rfl
  · rw [hrun]
    refine Run.spoilt_ofFactors _ ⟨i, List.mem_append.mpr ?_, hspoilt⟩
    exact hf.imp (fun heq => by rwa [← heq]) fun heq => by rwa [← heq]
  · rw [hrun]
    refine Run.spoilt_ofFactors _ ⟨i, List.mem_append.mpr ?_, hspoilt⟩
    exact hf.symm.imp (fun heq => by rwa [← heq]) fun heq => by rwa [← heq]

/-- A node without a number spoils each tree that it stands in. -/
theorem spoilt_of_stands (signs : SignLaws α) {symbols : List Symbol}
    (hwhole : ∀ s, (b.value s).whole = false) (hsymbols : ∀ s, s ∉ symbols → b.lookup s = none)
    {u : Tree String} {closed : Bool} (h : u.Stands symbols closed s t)
    (hu : isNaN (u.valueOver b) = true) (hdepth : (signed s t).depth ≤ depth) :
    (closed = false → (run keyOf depth (signed s t)).Spoilt b) ∧
      (run keyOf depth (signed s t)).line.Spoilt b ∧
      (run keyOf depth (signed s t)).unsigned.Spoilt b := by
  have hrun : ∀ {d : Nat} {t : Term} {closed : Bool}, (run keyOf d t).Spoilt b →
      (closed = false → (run keyOf d t).Spoilt b) ∧
        (run keyOf d t).line.Spoilt b ∧ (run keyOf d t).unsigned.Spoilt b := fun h =>
    ⟨fun _ => h, h.line laws (ne_pow_of_mem_rest keyOf _ _),
      h.unsigned laws (ne_pow_of_mem_rest keyOf _ _)⟩
  induction h generalizing depth with
  | @whole s h =>
    refine ⟨fun h => absurd h Bool.noConfusion, ?_⟩
    refine (gives_of_kept signs hwhole hsymbols h hdepth).spoilt laws signs ?_
    cases s with
    | false => exact hu
    | true => exact laws.neg _ hu
  | @operand s hplain h =>
    refine hrun (spoilt_of_plain hplain (fun d x hle hx => ?_) hdepth)
    have hgives : (run keyOf (d + 1) (ofTree .compiled u)).Gives b (u.valueOver b) :=
      gives_of_kept signs hwhole hsymbols h (show (signed false u).depth ≤ d + 1 from hle)
    rw [hx] at hgives
    exact (hgives.spoilt laws signs hu).1
  | closed h ih => exact ⟨fun h => absurd h Bool.noConfusion, (ih hdepth).2⟩
  | negate h ih =>
    rw [signed_negate] at hdepth ⊢
    exact ih hdepth
  | summand_left ho _ ih =>
    exact hrun (spoilt_binary_sum laws ho List.mem_cons_self (fun hle => (ih hle).2) hdepth)
  | summand_right ho _ ih =>
    exact hrun (spoilt_binary_sum laws ho (List.mem_cons_of_mem _ List.mem_cons_self)
      (fun hle => (ih hle).2) hdepth)
  | @factor_left closed s o l r ho hl _ hopen ih =>
    obtain ⟨d, rfl, hfirst, -⟩ := exists_depth ho hdepth
    rw [firstFactor_of_none hl] at hfirst
    have hspoilt := ih hfirst
    refine hrun ?_
    obtain rfl | rfl := ho
    · refine spoilt_product laws (fun _ => .inl hl) (.inl (firstFactor_of_none hl).symm) ?_
      cases closed with
      | false => exact .inl (hspoilt.1 rfl)
      | true => exact .inr ⟨hspoilt.2.1, hopen rfl⟩
    · refine spoilt_quotient (fun _ => .inl hl) (.inl ?_)
      rw [firstFactor_of_none hl]
      exact hspoilt.2.1
  | @factor_right closed s l r hr _ hopen ih =>
    obtain ⟨d, rfl, -, hother⟩ := exists_depth (.inl rfl) hdepth
    have hspoilt := ih hother
    refine hrun (spoilt_product laws hr (.inr rfl) ?_)
    cases closed with
    | false => exact .inl (hspoilt.1 rfl)
    | true => exact .inr ⟨hspoilt.2.1, hopen rfl⟩
  | @divisor s l r hr _ ih =>
    obtain ⟨d, rfl, -, hother⟩ := exists_depth (.inr rfl) hdepth
    exact hrun (spoilt_quotient hr (.inr (ih hother).2.1))
  | @argument s f args t hf ht _ ih =>
    refine hrun (spoilt_of_plain rfl (fun d x hle hx => ?_) hdepth)
    replace hle : depthAll (ofTrees .compiled args) + 1 ≤ d + 1 := hle
    obtain rfl := congrArg Run.first hx
    have hmem : ofTree .compiled t ∈ ofTrees .compiled args := by
      rw [ofTrees_eq_map]
      exact List.mem_map_of_mem ht
    have hdepth : (ofTree .compiled t).depth ≤ d :=
      (depth_le_depthAll hmem).trans (Nat.le_of_succ_le_succ hle)
    exact Line.spoilt_call laws hf ⟨_, List.mem_map_of_mem hmem, (ih hdepth).2.1⟩

end

end Term

end PhasePortrait
