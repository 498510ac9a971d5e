import PhasePortrait.Proofs.PhaseLine.Candidates

/-!
# What is selected

The candidates are sorted; those inside a degenerate interval are dropped, and a kept candidate
drops those that follow it by less than the spacing of the grid. So what is dropped lies in an
interval or has something kept shortly before it, and intervals keep away from two neighbours that
are not zero.

## Main definitions

* `PhaseLine.Comparable value` — scalars that compare like the real numbers that they stand for.
* `PhaseLine.kept f xMin xMax count tolerance` — the candidates that become equilibria.
-/
namespace PhasePortrait.PhaseLine
open Scalar
variable {α : Type}

/-! ## Degenerate intervals -/

theorem exists_append_of_mem_cells {values : List (GridValue α)} {l r : GridValue α}
    (h : (l, r) ∈ cells values) : ∃ before after, values = before ++ l :: r :: after := by
  induction values with
  | nil => cases h
  | cons s values ih =>
    cases values with
    | nil => cases h
    | cons t values =>
      rcases List.mem_cons.mp h with heq | h
      · cases heq
        exact ⟨[], values, rfl⟩
      · obtain ⟨before, after, heq⟩ := ih h
        exact ⟨s :: before, after, by rw [heq, List.cons_append]⟩

/-- A grid point that is not zero separates the intervals before it from those after it. -/
theorem runsFrom_append {β : Type} (run : Option (OpenRun β)) (before : List (β × Bool)) (x : β)
    (after : List (β × Bool)) :
    runsFrom run (before ++ (x, false) :: after) = runsFrom run before ++ runsFrom none after := by
  induction before generalizing run with
  | nil => rfl
  | cons flag before ih =>
    obtain ⟨y, zero⟩ := flag
    cases zero with
    | true => exact ih _
    | false =>
      change OpenRun.close run ++ runsFrom none (before ++ _) =
        OpenRun.close run ++ runsFrom none before ++ _
      rw [ih, List.append_assoc]

theorem ends_of_mem_close {β : Type} {run : Option (OpenRun β)} {i : Interval β}
    (h : i ∈ OpenRun.close run) :
    i.low ∈ (run.map OpenRun.first).toList ∧ i.high ∈ (run.map OpenRun.last).toList := by
  cases run with
  | none => cases h
  | some run =>
    simp only [OpenRun.close] at h
    split at h
    · rw [List.mem_singleton.mp h]
      exact ⟨List.mem_singleton_self _, List.mem_singleton_self _⟩
    · cases h

/-- The ends of an interval are grid points, or ends of the run that was open before them. -/
theorem ends_of_mem_runsFrom {β : Type} {run : Option (OpenRun β)} {flags : List (β × Bool)}
    {i : Interval β} (h : i ∈ runsFrom run flags) :
    i.low ∈ (run.map OpenRun.first).toList ++ flags.map Prod.fst ∧
      i.high ∈ (run.map OpenRun.last).toList ++ flags.map Prod.fst := by
  induction flags generalizing run with
  | nil =>
    rw [List.map_nil, List.append_nil, List.append_nil]
    exact ends_of_mem_close h
  | cons flag flags ih =>
    obtain ⟨x, zero⟩ := flag
    cases zero with
    | true =>
      obtain ⟨hlow, hhigh⟩ := ih h
      cases run with
      | none => exact ⟨hlow, hhigh⟩
      | some run =>
        -- the run keeps its first end and has `x` for its last one
        refine ⟨?_, List.mem_append_right _ hhigh⟩
        rcases List.mem_append.mp hlow with hfirst | hlater
        · exact List.mem_append_left _ hfirst
        · exact List.mem_append_right _ (List.mem_cons_of_mem _ hlater)
    | false =>
      rcases List.mem_append.mp h with h | h
      · obtain ⟨hlow, hhigh⟩ := ends_of_mem_close h
        exact ⟨List.mem_append_left _ hlow, List.mem_append_left _ hhigh⟩
      · obtain ⟨hlow, hhigh⟩ := ih h
        exact ⟨List.mem_append_right _ (List.mem_cons_of_mem _ hlow),
          List.mem_append_right _ (List.mem_cons_of_mem _ hhigh)⟩

section
variable [Scalar α]

/-- Beside two neighbours that are not zero every interval lies before or after both. -/
theorem before_or_after_of_mem_degenerateIntervals {before after : List (GridValue α)}
    {l r : GridValue α} (hl : l.zero = false) (hr : r.zero = false) {i : Interval α}
    (h : i ∈ degenerateIntervals ((before ++ l :: r :: after).map fun s => (s.x, s.zero))) :
    (∃ s ∈ before, i.high = s.x) ∨ ∃ s ∈ after, i.low = s.x := by
  have hsplit : degenerateIntervals ((before ++ l :: r :: after).map fun s => (s.x, s.zero)) =
      runsFrom none (before.map fun s => (s.x, s.zero)) ++
        runsFrom none (after.map fun s => (s.x, s.zero)) := by
    rw [degenerateIntervals, List.map_append, List.map_cons, List.map_cons, hl, hr, runsFrom_append]
    rfl
  have hpoints : ∀ values : List (GridValue α),
      (values.map fun s => (s.x, s.zero)).map Prod.fst = values.map GridValue.x := fun _ => by
    rw [List.map_map]
    rfl
  rw [hsplit] at h
  rcases List.mem_append.mp h with h | h
  · obtain ⟨s, hs, heq⟩ := List.mem_map.mp (hpoints before ▸ (ends_of_mem_runsFrom h).2)
    exact .inl ⟨s, hs, heq.symm⟩
  · obtain ⟨s, hs, heq⟩ := List.mem_map.mp (hpoints after ▸ (ends_of_mem_runsFrom h).1)
    exact .inr ⟨s, hs, heq.symm⟩

/-! ## Sorting -/

/-- Sorting with a relation that is an order on the items of the list. -/
theorem pairwise_mergeSort_of_forall {β : Type} {p : β → Prop} {le : β → β → Bool}
    (trans : ∀ a b c, p a → p b → p c → le a b = true → le b c = true → le a c = true)
    (total : ∀ a b, p a → p b → (le a b || le b a) = true) {xs : List β} (h : ∀ x ∈ xs, p x) :
    (xs.mergeSort le).Pairwise fun a b => le a b = true := by
  lift xs to List {x // p x} using h
  rw [← List.map_mergeSort (r := fun a b : {x // p x} => le a b) fun _ _ _ _ => rfl, List.pairwise_map]
  exact List.pairwise_mergeSort (fun (a b c : {x // p x}) => trans a b c a.2 b.2 c.2)
    (fun (a b : {x // p x}) => total a b a.2 b.2) xs

/-- Scalars that compare like the real numbers that they stand for. -/
structure Comparable (value : α → ℝ → Prop) : Prop where
  lt_iff : ∀ {a b : α} {x y : ℝ}, value a x → value b y → (a < b ↔ x < y)
  le_iff : ∀ {a b : α} {x y : ℝ}, value a x → value b y → (a ≤ b ↔ x ≤ y)

namespace Comparable
variable {value : α → ℝ → Prop} (hvalue : Comparable value)
include hvalue

theorem before_iff {c d : Candidate α} {x y : ℝ} (hc : value c.1 x) (hd : value d.1 y) :
    c.before d = true ↔ x < y ∨ x = y ∧ (c.2 = .crossing ∨ d.2 = .tangent) := by
  have hxy : x = y ↔ x ≤ y ∧ y ≤ x := le_antisymm_iff
  have hbehind : c.before d = true ↔ ¬(y < x ∨ x = y ∧ c.2 = .tangent ∧ d.2 = .crossing) := by
    simp only [Candidate.before, same, Bool.not_eq_true', ← Bool.not_eq_true, Bool.or_eq_true,
      Bool.and_eq_true, decide_eq_true_iff, hvalue.lt_iff hd hc, hvalue.le_iff hc hd,
      hvalue.le_iff hd hc, hxy]
  have hkind : c.2 = .crossing ∨ d.2 = .tangent ↔ ¬(c.2 = .tangent ∧ d.2 = .crossing) := by
    cases c.2 <;> cases d.2 <;> simp
  rw [hbehind, hkind, not_or, not_lt, not_and, le_iff_lt_or_eq]
  constructor
  · rintro ⟨hlt | heq, htie⟩
    · exact .inl hlt
    · exact .inr ⟨heq, htie heq⟩
  · rintro (hlt | ⟨heq, htie⟩)
    · exact ⟨.inl hlt, fun heq => absurd heq hlt.ne⟩
    · exact ⟨.inr heq, fun _ => htie⟩

/-- Candidates at real numbers are sorted by position. -/
theorem pairwise_mergeSort_before {cs : List (Candidate α)} (h : ∀ c ∈ cs, ∃ x, value c.1 x) :
    (cs.mergeSort Candidate.before).Pairwise fun c d => c.1 ≤ d.1 := by
  have hsorted : (cs.mergeSort Candidate.before).Pairwise fun c d => c.before d = true := by
    refine pairwise_mergeSort_of_forall (p := fun c : Candidate α => ∃ x, value c.1 x) ?_ ?_ h
    · rintro a b c ⟨x, hx⟩ ⟨y, hy⟩ ⟨z, hz⟩ hab hbc
      rw [hvalue.before_iff hx hy] at hab
      rw [hvalue.before_iff hy hz] at hbc
      rw [hvalue.before_iff hx hz]
      grind
    · rintro a b ⟨x, hx⟩ ⟨y, hy⟩
      rw [Bool.or_eq_true, hvalue.before_iff hx hy, hvalue.before_iff hy hx]
      have hkind : a.2 = .crossing ∨ a.2 = .tangent := by cases a.2 <;> simp
      rcases lt_trichotomy x y with hlt | rfl | hlt
      · exact .inl (.inl hlt)
      · grind
      · exact .inr (.inl hlt)
  refine hsorted.imp_of_mem fun {c d} hc hd hbefore => ?_
  obtain ⟨x, hx⟩ := h c (List.mem_mergeSort.mp hc)
  obtain ⟨y, hy⟩ := h d (List.mem_mergeSort.mp hd)
  rw [hvalue.le_iff hx hy]
  exact ((hvalue.before_iff hx hy).mp hbefore).elim le_of_lt fun heq => heq.1.le

end Comparable

/-! ## Selection -/

/-- Nothing is kept inside an interval. -/
theorem not_contains_of_mem_select {intervals : List (Interval α)} {gap : α} {last : Option α}
    {cs : List (Candidate α)} {c : Candidate α} (hc : c ∈ select intervals gap last cs)
    {i : Interval α} (hi : i ∈ intervals) : Interval.contains i c.1 = false := by
  induction cs generalizing last with
  | nil => cases hc
  | cons d cs ih =>
    rw [select] at hc
    split at hc
    · exact ih hc
    · next hinside =>
      split at hc
      · exact ih hc
      · rcases List.mem_cons.mp hc with rfl | hc
        · exact Bool.eq_false_iff.mpr fun h => hinside (List.any_eq_true.mpr ⟨i, hi, h⟩)
        · exact ih hc

/-- In a list in order, what is not kept lies in an interval or follows something kept by less than
the gap. -/
theorem mem_select_or {intervals : List (Interval α)} {gap : α} {last : Option α}
    {cs : List (Candidate α)} (hsorted : cs.Pairwise fun c d => c.1 ≤ d.1)
    (hlast : ∀ q ∈ last, ∀ d ∈ cs, q ≤ d.1) {c : Candidate α} (hc : c ∈ cs) :
    c ∈ select intervals gap last cs ∨ (∃ i ∈ intervals, Interval.contains i c.1 = true) ∨
      ∃ q, (q ∈ last ∨ ∃ d ∈ select intervals gap last cs, d.1 = q) ∧ q ≤ c.1 ∧ c.1 - q < gap := by
  induction cs generalizing last with
  | nil => cases hc
  | cons d cs ih =>
    obtain ⟨hd, hsorted⟩ := List.pairwise_cons.mp hsorted
    have hrest : ∀ q ∈ last, ∀ e ∈ cs, q ≤ e.1 := fun q hq e he =>
      hlast q hq e (List.mem_cons_of_mem _ he)
    rw [select]
    split
    · next hinside =>
      rcases List.mem_cons.mp hc with rfl | hc
      · exact .inr (.inl (List.any_eq_true.mp hinside))
      · exact ih hsorted hrest hc
    · split
      · next hclose =>
        rcases List.mem_cons.mp hc with rfl | hc
        · obtain ⟨q, hq, hgap⟩ := (Option.any_eq_true _ _).mp hclose
          exact .inr (.inr ⟨q, .inl hq, hlast q hq c List.mem_cons_self, of_decide_eq_true hgap⟩)
        · exact ih hsorted hrest hc
      · rcases List.mem_cons.mp hc with rfl | hc
        · exact .inl List.mem_cons_self
        · have hnext : ∀ q ∈ some d.1, ∀ e ∈ cs, q ≤ e.1 := by
            intro q hq e he
            cases hq
            exact hd e he
          rcases ih hsorted hnext hc with h | h | ⟨q, hq, hle, hgap⟩
          · exact .inl (List.mem_cons_of_mem _ h)
          · exact .inr (.inl h)
          · refine .inr (.inr ⟨q, .inr ?_, hle, hgap⟩)
            rcases hq with hq | ⟨e, he, rfl⟩
            · cases hq
              exact ⟨d, List.mem_cons_self, rfl⟩
            · exact ⟨e, List.mem_cons_of_mem _ he, rfl⟩

/-- The candidates that become equilibria. -/
def kept (f : α → α) (xMin xMax : α) (count : Nat) (tolerance : α) :
    List (Candidate α) :=
  select (ofFunction f xMin xMax count tolerance).degenerate (spacing xMin xMax count) none
    ((candidates f tolerance (gridValues f xMin xMax count)).mergeSort Candidate.before)

theorem equilibria_eq (f : α → α) (xMin xMax : α) (count : Nat) (tolerance : α) :
    (ofFunction f xMin xMax count tolerance).equilibria =
      (kept f xMin xMax count tolerance).map fun c =>
        ⟨c.1, classify f c.1 (spacing xMin xMax count / 2.0), c.2⟩ := rfl

end

end PhasePortrait.PhaseLine
