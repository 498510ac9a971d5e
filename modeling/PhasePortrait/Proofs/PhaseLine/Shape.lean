import PhasePortrait.Proofs.Number.Functions
import PhasePortrait.Proofs.PhaseLine.Containment
import PhasePortrait.Proofs.PhaseLine.Selection

/-!
# The shape of phase lines

In exact arithmetic the equilibria of a phase line increase on its range, at least one spacing of the grid
apart, and outside its degenerate intervals; these lie between grid points, in order and apart. All
candidates are in the range, so sorting brings them in order, and whatever is as far as the gap from the
last one kept is as far from all that have been kept before. For the intervals only the places of the grid
points count: a run that is open covers the places since its first one, so each interval ends before the
next one begins.

## Main definitions

* `PhaseLine.Shape xMin xMax count line` — what is shown of a phase line.
* `PhaseLine.InOrder low high intervals` — intervals of places between two others, in order and apart.
-/
namespace PhasePortrait.PhaseLine
open Scalar Exact

/-! ## Intervals of places -/

section
variable {α β : Type}

def Interval.map (g : α → β) (i : Interval α) : Interval β := ⟨g i.low, g i.high⟩

def OpenRun.map (g : α → β) (run : OpenRun α) : OpenRun β := ⟨g run.first, g run.last, run.length⟩

theorem OpenRun.close_map (g : α → β) (run : Option (OpenRun α)) :
    close (run.map (OpenRun.map g)) = (close run).map (Interval.map g) := by
  cases run with
  | none => rfl
  | some run =>
    simp only [close, Option.map_some, OpenRun.map]
    split <;> rfl

/-- Which positions are compared does not matter to the search for runs. -/
theorem runsFrom_map (g : α → β) (run : Option (OpenRun α)) (flags : List (α × Bool)) :
    runsFrom (run.map (OpenRun.map g)) (flags.map (Prod.map g id)) =
      (runsFrom run flags).map (Interval.map g) := by
  induction flags generalizing run with
  | nil => exact OpenRun.close_map g run
  | cons flag flags ih =>
    obtain ⟨x, zero⟩ := flag
    cases zero with
    | true =>
      have hpush : some (OpenRun.push (g x) (run.map (OpenRun.map g))) =
          (some (OpenRun.push x run)).map (OpenRun.map g) := by
        cases run <;> rfl
      change runsFrom (some (OpenRun.push (g x) _)) _ = _
      rw [hpush, ih]
      rfl
    | false =>
      change OpenRun.close (run.map _) ++ runsFrom (Option.map (OpenRun.map g) none) _ = _
      rw [OpenRun.close_map, ih, ← List.map_append]
      rfl

end

/-- Intervals of at least `minRun` places from `low` on and before `high`, in order and apart. -/
structure InOrder (low high : Nat) (intervals : List (Interval Nat)) : Prop where
  low_le : ∀ i ∈ intervals, low ≤ i.low
  long : ∀ i ∈ intervals, i.low + minRun ≤ i.high + 1
  high_lt : ∀ i ∈ intervals, i.high < high
  apart : intervals.Pairwise fun i j => i.high < j.low

namespace InOrder
variable {a b c d : Nat}

theorem nil : InOrder a b [] :=
  ⟨List.forall_mem_nil _, List.forall_mem_nil _, List.forall_mem_nil _, .nil⟩

theorem append {is js : List (Interval Nat)} (his : InOrder a b is) (hjs : InOrder c d js) (hac : a ≤ c)
    (hbc : b ≤ c) (hbd : b ≤ d) : InOrder a d (is ++ js) where
  low_le := List.forall_mem_append.mpr
    ⟨his.low_le, fun j hj => hac.trans (hjs.low_le j hj)⟩
  long := List.forall_mem_append.mpr ⟨his.long, hjs.long⟩
  high_lt := List.forall_mem_append.mpr
    ⟨fun i hi => (his.high_lt i hi).trans_le hbd, hjs.high_lt⟩
  apart := List.pairwise_append.mpr ⟨his.apart, hjs.apart, fun i hi j hj =>
    ((his.high_lt i hi).trans_le hbc).trans_le (hjs.low_le j hj)⟩

end InOrder

namespace OpenRun
variable {k : Nat} {run : Option (OpenRun Nat)}

/-- The places of a run up to the one before `k`. -/
structure EndsBefore (k : Nat) (run : OpenRun Nat) : Prop where
  last : run.last + 1 = k
  length : run.first + run.length = k

/-- The first place that is open, or else the next one. -/
def start (k : Nat) (run : Option (OpenRun Nat)) : Nat := (run.map first).getD k

theorem EndsBefore.push (h : ∀ r ∈ run, EndsBefore k r) : EndsBefore (k + 1) (push k run) := by
  cases run with
  | none => exact ⟨rfl, rfl⟩
  | some run =>
    exact ⟨rfl, by rw [OpenRun.push, ← (h run rfl).length, Nat.add_assoc]⟩

theorem start_push : start (k + 1) (some (push k run)) = start k run := by cases run <;> rfl

theorem start_le (h : ∀ r ∈ run, EndsBefore k r) : start k run ≤ k := by
  cases run with
  | none => exact le_rfl
  | some run => exact (Nat.le_add_right _ _).trans_eq (h run rfl).length

theorem inOrder_close (h : ∀ r ∈ run, EndsBefore k r) : InOrder (start k run) k (close run) := by
  cases run with
  | none => exact .nil
  | some run =>
    obtain ⟨hlast, hlength⟩ := h run rfl
    rw [close]
    split
    · next hlong =>
      refine ⟨?_, ?_, ?_, List.pairwise_singleton _ _⟩ <;> rw [List.forall_mem_singleton]
      · exact le_rfl
      · change run.first + minRun ≤ run.last + 1
        omega
      · change run.last < k
        omega
    · exact .nil

end OpenRun

/-- The search from one place on, with a run open that ends before it. -/
theorem inOrder_runsFrom (zero : Nat → Bool) {k : Nat} (m : Nat) (run : Option (OpenRun Nat))
    (h : ∀ r ∈ run, OpenRun.EndsBefore k r) :
    InOrder (OpenRun.start k run) (k + m)
      (runsFrom run ((List.range' k m).map fun i => (i, zero i))) := by
  induction m generalizing k run with
  | zero => exact OpenRun.inOrder_close h
  | succ m ih =>
    rw [List.range'_succ, List.map_cons, Nat.add_comm m 1, ← Nat.add_assoc]
    cases zero k with
    | true =>
      have hpush : ∀ r ∈ some (OpenRun.push k run), OpenRun.EndsBefore (k + 1) r := by
        rintro r ⟨⟩
        exact .push h
      rw [← OpenRun.start_push]
      exact ih _ hpush
    | false =>
      have hstart := OpenRun.start_le h
      exact (OpenRun.inOrder_close h).append (ih none (by simp)) (hstart.trans k.le_succ) k.le_succ (by omega)

theorem inOrder_degenerateIntervals (zero : Nat → Bool) (count : Nat) :
    InOrder 0 count (degenerateIntervals ((List.range count).map fun i => (i, zero i))) := by
  have h : InOrder 0 (0 + count) _ := inOrder_runsFrom zero count none (by simp)
  rwa [Nat.zero_add, ← List.range_eq_range'] at h

section
variable {α : Type} [Scalar α] {f : α → α} {xMin xMax : α} {count : Nat} {tolerance : α}

/-- Whether the function counts as zero at a grid point. -/
def zeroAt (f : α → α) (xMin xMax : α) (count i : Nat) : Bool :=
  GridValue.zero ⟨Grid.point xMin xMax count i, f (Grid.point xMin xMax count i)⟩

/-- The intervals of a grid are those of its places. -/
theorem degenerate_ofFunction : (ofFunction f xMin xMax count tolerance).degenerate =
    (degenerateIntervals ((List.range (count + 1)).map fun i => (i, zeroAt f xMin xMax count i))).map
      (Interval.map (Grid.point xMin xMax count)) := by
  rw [degenerateIntervals, ← runsFrom_map, List.map_map]
  change degenerateIntervals ((gridValues f xMin xMax count).map _) = _
  rw [degenerateIntervals, gridValues, Grid.points, List.map_map, List.map_map]
  rfl

theorem exists_places_of_mem_degenerate {i : Interval α}
    (hi : i ∈ (ofFunction f xMin xMax count tolerance).degenerate) :
    ∃ j k, j < k ∧ k ≤ count ∧
      i = ⟨Grid.point xMin xMax count j, Grid.point xMin xMax count k⟩ := by
  rw [degenerate_ofFunction] at hi
  obtain ⟨places, hplaces, rfl⟩ := List.mem_map.mp hi
  have hinOrder := inOrder_degenerateIntervals (zeroAt f xMin xMax count) (count + 1)
  have hlong := hinOrder.long places hplaces
  rw [minRun] at hlong
  exact ⟨places.low, places.high, by omega, Nat.lt_succ_iff.mp (hinOrder.high_lt places hplaces), rfl⟩

/-- Where the grid points increase, so do the intervals. -/
theorem pairwise_degenerate (hpoint : ∀ {j k : Nat}, j < k → k ≤ count →
      Grid.point xMin xMax count j < Grid.point xMin xMax count k) :
    (ofFunction f xMin xMax count tolerance).degenerate.Pairwise fun i j => i.high < j.low := by
  have hinOrder := inOrder_degenerateIntervals (zeroAt f xMin xMax count) (count + 1)
  rw [degenerate_ofFunction, List.pairwise_map]
  refine hinOrder.apart.imp_of_mem fun {i j} _ hj hlt => hpoint hlt ?_
  have hlong := hinOrder.long j hj
  have hhigh := hinOrder.high_lt j hj
  rw [minRun] at hlong
  omega

end

/-! ## Selection -/

section
variable {α : Type} [Scalar α] [Exact α] {a b : ℝ} {q gap : α} {last : Option α}
  {intervals : List (Interval α)} {cs : List (Candidate α)}

/-- What is kept is as far as the gap from the last one kept before. -/
theorem le_sub_of_mem_select (hcs : ∀ c ∈ cs, Inside a b c.1)
    (hsorted : cs.Pairwise fun c d => c.1 ≤ d.1) (hgap : isFinite gap = true) (hq : Inside a b q)
    (hle : ∀ c ∈ cs, q ≤ c.1) {d : Candidate α} (hd : d ∈ select intervals gap (some q) cs) :
    gap ≤ d.1 - q := by
  induction cs generalizing q with
  | nil => cases hd
  | cons c cs ih =>
    obtain ⟨hc, hcs⟩ := List.forall_mem_cons.mp hcs
    obtain ⟨hqc, hle⟩ := List.forall_mem_cons.mp hle
    obtain ⟨hcle, hsorted⟩ := List.pairwise_cons.mp hsorted
    rw [select] at hd
    split at hd
    · exact ih hcs hsorted hq hle hd
    · split at hd
      · exact ih hcs hsorted hq hle hd
      · next hfar =>
        obtain ⟨g, rfl⟩ := (isFinite_iff gap).mp hgap
        obtain ⟨u, -, rfl⟩ := hq
        rcases List.mem_cons.mp hd with rfl | hlater
        · obtain ⟨v, -, hv⟩ := hc
          have hfar : ¬ (d.1 - ofReal u < ofReal g) := fun h => hfar (decide_eq_true h)
          rw [hv, ofReal_sub, ofReal_lt] at hfar
          rw [hv, ofReal_sub, ofReal_le]
          exact not_lt.mp hfar
        · -- kept behind `c`, which is not before `q`
          have hbehind := ih hcs hsorted hc hcle hlater
          obtain ⟨v, -, hv⟩ := hc
          obtain ⟨w, -, hw⟩ := hcs d (mem_of_mem_select hlater)
          rw [hv, hw, ofReal_sub, ofReal_le] at hbehind
          rw [hv, ofReal_le] at hqc
          rw [hw, ofReal_sub, ofReal_le]
          exact hbehind.trans (sub_le_sub_left hqc w)

theorem pairwise_select (hcs : ∀ c ∈ cs, Inside a b c.1) (hsorted : cs.Pairwise fun c d => c.1 ≤ d.1)
    (hgap : isFinite gap = true) :
    (select intervals gap last cs).Pairwise fun c d => gap ≤ d.1 - c.1 := by
  induction cs generalizing last with
  | nil => exact .nil
  | cons c cs ih =>
    obtain ⟨hc, hcs⟩ := List.forall_mem_cons.mp hcs
    obtain ⟨hcle, hsorted⟩ := List.pairwise_cons.mp hsorted
    rw [select]
    split
    · exact ih hcs hsorted
    · split
      · exact ih hcs hsorted
      · exact List.pairwise_cons.mpr
          ⟨fun d hd => le_sub_of_mem_select hcs hsorted hgap hc hcle hd, ih hcs hsorted⟩

end

/-- The real numbers among exact scalars compare like themselves. -/
theorem comparable_ofReal {α : Type} [Scalar α] [Exact α] :
    Comparable fun (a : α) (x : ℝ) => a = ofReal x where
  lt_iff := by
    rintro _ _ x y rfl rfl
    exact ofReal_lt x y
  le_iff := by
    rintro _ _ x y rfl rfl
    exact ofReal_le x y

section
variable {α : Type} [Scalar α] [Exact α] (f : α → α) {a b : ℝ} (hab : a < b) {count : Nat}
  (hcount : 0 < count) (tolerance : α)
include hab hcount

theorem inside_of_mem_kept {c : Candidate α} (hc : c ∈ kept f (ofReal a) (ofReal b) count tolerance) :
    Inside a b c.1 :=
  inside_of_mem_candidates hab hcount (List.mem_mergeSort.mp (mem_of_mem_select hc))

theorem pairwise_kept : (kept f (ofReal a) (ofReal b) count tolerance).Pairwise fun c d =>
    spacing (ofReal a) (ofReal b) count ≤ d.1 - c.1 := by
  have hinside : ∀ c ∈ candidates f tolerance (gridValues f (ofReal a) (ofReal b) count),
      Inside a b c.1 := fun c hc => inside_of_mem_candidates hab hcount hc
  refine pairwise_select (fun c hc => hinside c (List.mem_mergeSort.mp hc)) ?_ ?_
  · exact comparable_ofReal.pairwise_mergeSort_before fun c hc => (hinside c hc).imp fun _ h => h.2
  · rw [spacing_eq hab hcount, isFinite_ofReal]

theorem point_lt_point_of_lt {j k : Nat} (hjk : j < k) :
    Grid.point (ofReal a : α) (ofReal b) count j < Grid.point (ofReal a) (ofReal b) count k := by
  rw [point_eq hab hcount, point_eq hab hcount, ofReal_lt]
  exact gridPoint_lt hab hcount hjk

end

/-! ## The shape -/

/-- Equilibria in order on the range and one spacing apart, outside of degenerate intervals that lie
between grid points, in order and apart. -/
structure Shape {α : Type} [Scalar α] (xMin xMax : α) (count : Nat) (line : PhaseLine α) : Prop where
  range : ∀ p ∈ line.equilibria, isFinite p.x = true ∧ xMin ≤ p.x ∧ p.x ≤ xMax
  increasing : line.equilibria.Pairwise fun p q => p.x < q.x
  separated : line.equilibria.Pairwise fun p q => spacing xMin xMax count ≤ q.x - p.x
  outside : ∀ p ∈ line.equilibria, ∀ i ∈ line.degenerate, Interval.contains i p.x = false
  ends : ∀ i ∈ line.degenerate, ∃ j k, j < k ∧ k ≤ count ∧
    i = ⟨Grid.point xMin xMax count j, Grid.point xMin xMax count k⟩
  proper : ∀ i ∈ line.degenerate, i.low < i.high
  disjoint : line.degenerate.Pairwise fun i j => i.high < j.low

/-- Nothing is shown of an empty phase line. -/
theorem Shape.nil {α : Type} [Scalar α] {xMin xMax : α} {count : Nat} : Shape xMin xMax count ⟨[], []⟩ where
  range := List.forall_mem_nil _
  increasing := .nil
  separated := .nil
  outside := List.forall_mem_nil _
  ends := List.forall_mem_nil _
  proper := List.forall_mem_nil _
  disjoint := .nil

/-- The phase line of a function has this shape. -/
theorem ofFunction_shape {α : Type} [Scalar α] [Exact α] (f : α → α) {a b : ℝ} (hab : a < b) {count : Nat}
    (hcount : 0 < count) (tolerance : α) :
    Shape (ofReal a) (ofReal b) count (ofFunction f (ofReal a) (ofReal b) count tolerance) where
  range p hp := by
    obtain ⟨c, hc, rfl⟩ := List.mem_map.mp hp
    obtain ⟨x, ⟨hlow, hhigh⟩, hx⟩ := inside_of_mem_kept f hab hcount tolerance hc
    dsimp only
    rw [hx, ofReal_le, ofReal_le]
    exact ⟨isFinite_ofReal x, hlow, hhigh⟩
  increasing := by
    rw [equilibria_eq, List.pairwise_map]
    refine (pairwise_kept f hab hcount tolerance).imp_of_mem fun {c d} hc hd hgap => ?_
    obtain ⟨x, -, hx⟩ := inside_of_mem_kept f hab hcount tolerance hc
    obtain ⟨y, -, hy⟩ := inside_of_mem_kept f hab hcount tolerance hd
    have hstep : 0 < (b - a) / count := div_pos (sub_pos.mpr hab) (by exact_mod_cast hcount)
    rw [spacing_eq hab hcount, hx, hy, ofReal_sub, ofReal_le] at hgap
    dsimp only
    rw [hx, hy, ofReal_lt]
    linarith
  separated := by
    rw [equilibria_eq, List.pairwise_map]
    exact pairwise_kept f hab hcount tolerance
  outside p hp i hi := by
    obtain ⟨c, hc, rfl⟩ := List.mem_map.mp hp
    exact not_contains_of_mem_select hc hi
  ends i hi := exists_places_of_mem_degenerate hi
  proper i hi := by
    obtain ⟨j, k, hjk, -, rfl⟩ := exists_places_of_mem_degenerate hi
    exact point_lt_point_of_lt hab hcount hjk
  disjoint := pairwise_degenerate fun hjk _ => point_lt_point_of_lt hab hcount hjk

end PhasePortrait.PhaseLine

namespace PhasePortrait.LineSystem
open Scalar Exact PhaseLine

/-- **The shape of every phase line.** In exact arithmetic, on a range with at least two cells, every system
has a phase line, with equilibria in order on the range and one spacing apart, outside of degenerate
intervals that lie between grid points, in order and apart. -/
theorem phaseLine_shape {α : Type} [Elementary α] [Exact α] (s : LineSystem α) (params : ParameterValues α)
    {xMin xMax : α} (hxMin : isFinite xMin = true) (hxMax : isFinite xMax = true) (hrange : xMin < xMax)
    {count : Nat} (hcount : 2 ≤ count) (tolerance : α) :
    ∃ line, s.phaseLine params xMin xMax count tolerance = .ok line ∧ Shape xMin xMax count line := by
  obtain ⟨a, rfl⟩ := (isFinite_iff xMin).mp hxMin
  obtain ⟨b, rfl⟩ := (isFinite_iff xMax).mp hxMax
  have hab : a < b := (ofReal_lt a b).mp hrange
  have horder : ¬ (ofReal b : α) ≤ ofReal a := fun h => hab.not_ge ((ofReal_le b a).mp h)
  rw [phaseLine, if_neg horder, if_neg (Nat.not_lt.mpr hcount)]
  split
  · exact ⟨_, rfl, ofFunction_shape _ hab (by omega) tolerance⟩
  · exact ⟨_, rfl, .nil⟩

/-- A line with a zero at its lower end. -/
theorem phaseLine_shape_identity :
    isFinite (PartialReal.real 0) = true ∧ isFinite (PartialReal.real 1) = true ∧
      PartialReal.real 0 < .real 1 ∧ 2 ≤ 2 ∧
      ∃ line, (ofText "X" [] : LineSystem PartialReal).phaseLine [] (.real 0) (.real 1) 2 (.real 0) =
        .ok line ∧ Shape (.real 0) (.real 1) 2 line := by
  have hrange : PartialReal.real 0 < .real 1 := zero_lt_one (α := ℝ)
  exact ⟨rfl, rfl, hrange, le_rfl, phaseLine_shape _ [] rfl rfl hrange le_rfl (.real 0)⟩

end PhasePortrait.LineSystem
