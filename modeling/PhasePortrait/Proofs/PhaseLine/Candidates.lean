import PhasePortrait.Proofs.Number.Arithmetic
import PhasePortrait.Proofs.PhaseLine.Bisection

/-!
# Where equilibria come from

Every equilibrium of a phase line is a grid point where the derivative counts as zero, a dip at which
it nearly vanishes, or the outcome of a bisection. The first two have been tested; the third one is
reported as it is. So the derivative nearly vanishes at an equilibrium unless the bisection that has
found it came to no zero: it has then stopped where the derivative is not finite, or has run out of
steps with the change of sign, or the jump, still before it.

## Main definitions

* `PhaseLine.crossingPoint f l r` — where the search over the cell from `l` to `r` ends.
* `PhaseLine.Origin f tolerance values c` — how the candidate `c` has been found.
* `PhaseLine.Unresolved f l r x` — a bisection between `l` and `r` has come to `x` and to no zero.
-/
namespace PhasePortrait
open Scalar
variable {α : Type}

namespace PhaseLine

/-! ## Neighbours on the grid -/

/-- The neighbouring pairs of a grid. -/
def cells (values : List (GridValue α)) : List (GridValue α × GridValue α) :=
  values.zip values.tail

theorem mem_of_mem_cells {values : List (GridValue α)} {l r : GridValue α}
    (h : (l, r) ∈ cells values) : l ∈ values ∧ r ∈ values :=
  ⟨(List.of_mem_zip h).1, List.mem_of_mem_tail (List.of_mem_zip h).2⟩

theorem mem_of_mem_withNeighbours {β : Type} {xs : List β} {l r : Option β} {x : β}
    (h : (l, x, r) ∈ withNeighbours xs) : x ∈ xs :=
  (List.of_mem_zip (List.of_mem_zip h).2).1

section
variable [Scalar α] {f : α → α} {tolerance xMin xMax : α} {count : Nat}

/-! ## Candidates -/

/-- Where the search over a cell ends. -/
def crossingPoint (f : α → α) (l r : GridValue α) : α := bisect f l.x r.x l.f

/-- The three ways to find a candidate. -/
inductive Origin (f : α → α) (tolerance : α) (values : List (GridValue α)) : Candidate α → Prop
  | zero {s : GridValue α} (hmem : s ∈ values) (hzero : s.zero = true) (kind : RootKind) :
      Origin f tolerance values (s.x, kind)
  | crossing {l r : GridValue α} (hmem : (l, r) ∈ cells values) (hl : l.regular = true)
      (hr : r.regular = true) (hchange : l.f * r.f < 0.0) :
      Origin f tolerance values (crossingPoint f l r, .crossing)
  | tangent {l m r : GridValue α} (hl : l ∈ values) (hr : r ∈ values)
      (hsmall : abs (f (minimizeAbs f l.x r.x)) < tolerance) :
      Origin f tolerance values (minimizeAbs f l.x r.x, .tangent)

theorem origin_of_zeroCandidate? {values : List (GridValue α)}
    {n : Option (GridValue α) × GridValue α × Option (GridValue α)} {c : Candidate α}
    (hmem : n ∈ withNeighbours values) (h : zeroCandidate? n = some c) :
    Origin f tolerance values c := by
  obtain ⟨l, s, r⟩ := n
  have hs := mem_of_mem_withNeighbours hmem
  unfold zeroCandidate? at h
  dsimp only at h
  split at h
  · next hzero =>
    split at h
    · cases h
      exact .zero hs hzero _
    · cases h
      exact .zero hs hzero _
  · cases h

theorem origin_of_crossingCandidate? {values : List (GridValue α)} {cell : GridValue α × GridValue α}
    {c : Candidate α} (hmem : cell ∈ cells values) (h : crossingCandidate? f cell = some c) :
    Origin f tolerance values c := by
  obtain ⟨l, r⟩ := cell
  rw [crossingCandidate?] at h
  split at h
  · next hcell =>
    cases h
    simp only [Bool.and_eq_true, decide_eq_true_iff] at hcell
    exact .crossing hmem hcell.1.1 hcell.1.2 hcell.2
  · cases h

theorem origin_of_tangentCandidate? {values : List (GridValue α)}
    {window : GridValue α × GridValue α × GridValue α} {c : Candidate α}
    (hmem : window ∈ values.zip (values.tail.zip values.tail.tail))
    (h : tangentCandidate? f tolerance window = some c) : Origin f tolerance values c := by
  obtain ⟨l, m, r⟩ := window
  obtain ⟨hl, hrest⟩ := List.of_mem_zip hmem
  have hr := List.mem_of_mem_tail (List.mem_of_mem_tail (List.of_mem_zip hrest).2)
  rw [tangentCandidate?] at h
  split at h
  · dsimp only at h
    split at h
    · next hsmall =>
      cases h
      exact .tangent (m := m) hl hr hsmall
    · cases h
  · cases h

theorem origin_of_mem_candidates {values : List (GridValue α)} {c : Candidate α}
    (h : c ∈ candidates f tolerance values) : Origin f tolerance values c := by
  simp only [candidates, List.mem_append, List.mem_filterMap] at h
  obtain (⟨n, hmem, hc⟩ | ⟨cell, hmem, hc⟩) | ⟨window, hmem, hc⟩ := h
  · exact origin_of_zeroCandidate? hmem hc
  · exact origin_of_crossingCandidate? hmem hc
  · exact origin_of_tangentCandidate? hmem hc

/-! ## Selection -/

theorem mem_of_mem_select {intervals : List (Interval α)} {gap : α} {last : Option α}
    {cs : List (Candidate α)} {c : Candidate α} (h : c ∈ select intervals gap last cs) : c ∈ cs := by
  induction cs generalizing last with
  | nil => exact h
  | cons d cs ih =>
    rw [select] at h
    split at h
    · exact List.mem_cons_of_mem _ (ih h)
    · split at h
      · exact List.mem_cons_of_mem _ (ih h)
      · rcases List.mem_cons.mp h with rfl | h
        · exact List.mem_cons_self
        · exact List.mem_cons_of_mem _ (ih h)

theorem origin_of_mem_equilibria {p : PhaseLinePoint α}
    (h : p ∈ (ofFunction f xMin xMax count tolerance).equilibria) :
    Origin f tolerance (gridValues f xMin xMax count) (p.x, p.kind) := by
  obtain ⟨c, hc, rfl⟩ := List.mem_map.mp h
  exact origin_of_mem_candidates (List.mem_mergeSort.mp (mem_of_mem_select hc))

theorem f_eq_of_mem_gridValues {s : GridValue α} (h : s ∈ gridValues f xMin xMax count) :
    s.f = f s.x := by
  obtain ⟨x, -, rfl⟩ := List.mem_map.mp h
  rfl

/-! ## Bisections without a zero -/

/-- Between two grid values on different sides of zero the search has narrowed down a range to its
middle `x`, which is no zero: the function is not finite there, or all steps are used up while the ends
of the range are still on different sides. -/
structure Unresolved (f : α → α) (l r : GridValue α) (x : α) : Prop where
  left : l.regular = true
  right : r.regular = true
  change : l.f * r.f < 0.0
  range : ∃ k a b, Halvings f k (l.x, r.x) (a, b) ∧ x = middle a b ∧
    decide (f a < 0.0) ≠ decide (f b < 0.0) ∧ (isFinite (f x) = false ∨ k = refinements)

end

/-! ## Doubles -/

theorem abs_lt_of_isZero {a tolerance : Float} (hzero : isZero a = true)
    (htolerance : zeroTolerance < tolerance) : abs a < tolerance := by
  have habs := (Double.isZero_iff.mp hzero).abs
  rw [abs_zero] at habs
  refine Double.lt_of_le_of_lt ((Double.le_iff habs Double.is_zero).mpr le_rfl)
    (Double.lt_of_le_of_lt ?_ htolerance)
  decide +kernel

/-- A bisection comes to a zero or stays unresolved. -/
theorem crossingPoint_zero_or_unresolved {f : Float → Float} {l r : GridValue Float} (hl : l.f = f l.x)
    (hr : r.f = f r.x) (hleft : l.regular = true) (hright : r.regular = true)
    (hchange : l.f * r.f < 0.0) :
    isZero (f (crossingPoint f l r)) = true ∨ Unresolved f l r (crossingPoint f l r) := by
  have hfinite : ∀ s : GridValue Float, s.regular = true → isFinite s.f = true := fun s hs =>
    (Bool.and_eq_true_iff.mp hs).1
  have hsides := Double.side_ne_of_mul_neg (hfinite l hleft) (hfinite r hright) hchange
  rw [hl, hr] at hsides
  obtain ⟨k, a, b, -, hs, heq, hend⟩ := bisectFrom_eq f refinements l.x r.x
  have hmiddle : crossingPoint f l r = middle a b := by rw [crossingPoint, bisect, hl, heq]
  have hkept : decide (f a < 0.0) ≠ decide (f b < 0.0) := by
    obtain ⟨hlow, hhigh⟩ := hs.sides hsides
    rwa [hlow, hhigh]
  rw [hmiddle]
  rcases hend with hk | hnotFinite | hzero
  · exact .inr ⟨hleft, hright, hchange, k, a, b, hs, rfl, hkept, .inr hk⟩
  · exact .inr ⟨hleft, hright, hchange, k, a, b, hs, rfl, hkept, .inl hnotFinite⟩
  · exact .inl hzero

end PhaseLine

namespace LineSystem
open PhaseLine

variable {s : LineSystem Float} {params : ParameterValues Float} {xMin xMax tolerance : Float}
  {count : Nat} {line : PhaseLine Float}

theorem phaseLine_eq_ok (hrange : ¬ xMax ≤ xMin) (hcount : 2 ≤ count) (hvalid : s.isValid = true) :
    s.phaseLine params xMin xMax count tolerance =
      .ok (ofFunction (s.derivative params) xMin xMax count tolerance) := by
  rw [phaseLine, if_neg hrange, if_neg (by omega), if_pos hvalid]

theorem eq_of_phaseLine_eq_ok (hvalid : s.isValid = true)
    (hline : s.phaseLine params xMin xMax count tolerance = .ok line) :
    ¬ xMax ≤ xMin ∧ 2 ≤ count ∧
      line = ofFunction (s.derivative params) xMin xMax count tolerance := by
  rw [phaseLine, if_pos hvalid] at hline
  split at hline
  · cases hline
  · next hrange =>
    split at hline
    · cases hline
    · next hcount =>
      cases hline
      exact ⟨hrange, by omega, rfl⟩

/-- The phase line of a valid system is that of its derivative; an invalid one has no equilibria. -/
theorem mem_equilibria_of_phaseLine {p : PhaseLinePoint Float}
    (hline : s.phaseLine params xMin xMax count tolerance = .ok line) (hp : p ∈ line.equilibria) :
    p ∈ (ofFunction (s.derivative params) xMin xMax count tolerance).equilibria := by
  by_cases hvalid : s.isValid = true
  · obtain ⟨-, -, rfl⟩ := eq_of_phaseLine_eq_ok hvalid hline
    exact hp
  · rw [phaseLine, if_neg hvalid] at hline
    split at hline
    · cases hline
    · split at hline <;> cases hline
      cases hp

/-- **The derivative nearly vanishes at an equilibrium, or a bisection has come to no zero there.** -/
theorem derivative_abs_lt_or_unresolved
    (hline : s.phaseLine params xMin xMax count tolerance = .ok line)
    (htolerance : zeroTolerance < tolerance) {p : PhaseLinePoint Float} (hp : p ∈ line.equilibria) :
    (isFinite (s.derivative params p.x) = true ∧ abs (s.derivative params p.x) < tolerance) ∨
      p.kind = .crossing ∧
        ∃ l r, (l, r) ∈ cells (gridValues (s.derivative params) xMin xMax count) ∧
          Unresolved (s.derivative params) l r p.x := by
  have htested : ∀ {x : Float}, abs (s.derivative params x) < tolerance →
      isFinite (s.derivative params x) = true ∧ abs (s.derivative params x) < tolerance := fun h =>
    ⟨Double.isFinite_of_abs_lt h, h⟩
  obtain ⟨x, stability, kind⟩ := p
  cases origin_of_mem_equilibria (mem_equilibria_of_phaseLine hline hp) with
  | zero hmem hzero =>
    refine .inl (htested (Double.lt_of_le_of_lt ?_ htolerance))
    rw [← f_eq_of_mem_gridValues hmem]
    exact of_decide_eq_true (Bool.and_eq_true_iff.mp hzero).2
  | crossing hmem hl hr hchange =>
    obtain ⟨hlmem, hrmem⟩ := mem_of_mem_cells hmem
    rcases crossingPoint_zero_or_unresolved (f_eq_of_mem_gridValues hlmem) (f_eq_of_mem_gridValues hrmem)
      hl hr hchange with hzero | hunresolved
    · exact .inl (htested (abs_lt_of_isZero hzero htolerance))
    · exact .inr ⟨rfl, _, _, hmem, hunresolved⟩
  | tangent _ _ hsmall => exact .inl (htested hsmall)

/-- A zero on the grid. -/
theorem derivative_abs_lt_or_unresolved_identity :
    ∃ line p, (ofText "X" [] : LineSystem Float).phaseLine [] (-1.0) 1.0 2 defaultTolerance = .ok line ∧
      zeroTolerance < (defaultTolerance : Float) ∧ p ∈ line.equilibria ∧
      ((isFinite ((ofText "X" [] : LineSystem Float).derivative [] p.x) = true ∧
          abs ((ofText "X" [] : LineSystem Float).derivative [] p.x) < defaultTolerance) ∨
        p.kind = .crossing ∧
          ∃ l r, (l, r) ∈ cells (gridValues ((ofText "X" [] : LineSystem Float).derivative [])
              (-1.0) 1.0 2) ∧
            Unresolved ((ofText "X" [] : LineSystem Float).derivative []) l r p.x) := by
  have hline : (ofText "X" [] : LineSystem Float).phaseLine [] (-1.0) 1.0 2 defaultTolerance = .ok _ :=
    phaseLine_eq_ok (by decide +kernel) (by decide) (by decide +kernel)
  have hne : (ofFunction ((ofText "X" [] : LineSystem Float).derivative []) (-1.0) 1.0 2
      defaultTolerance).equilibria ≠ [] := by
    rw [← List.length_pos_iff]
    decide +kernel
  exact ⟨_, _, hline, by decide +kernel, List.head_mem hne,
    derivative_abs_lt_or_unresolved hline (by decide +kernel) (List.head_mem hne)⟩

/-- At a pole in the middle of a cell, between values on different sides of zero, the derivative is
not finite; the pole is reported all the same. -/
theorem not_finite_at_pole :
    ¬ ∀ (s : LineSystem Float) (params : ParameterValues Float) (xMin xMax : Float) (count : Nat)
      (line : PhaseLine Float) (p : PhaseLinePoint Float),
      s.phaseLine params xMin xMax count defaultTolerance = .ok line → p ∈ line.equilibria →
        isFinite (s.derivative params p.x) = true ∧
          abs (s.derivative params p.x) < defaultTolerance := by
  intro h
  have hall : ((ofFunction ((ofText "1/X" [] : LineSystem Float).derivative []) (-1.0) 1.0 9
      defaultTolerance).equilibria.all fun p =>
        isFinite ((ofText "1/X" [] : LineSystem Float).derivative [] p.x)) = true :=
    List.all_eq_true.mpr fun p hp => (h (ofText "1/X" []) [] (-1.0) 1.0 9 _ p
      (phaseLine_eq_ok (by decide +kernel) (by decide) (by decide +kernel)) hp).1
  revert hall
  decide +kernel

end LineSystem

end PhasePortrait
