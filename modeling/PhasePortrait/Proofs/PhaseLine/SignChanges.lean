import PhasePortrait.Proofs.PhaseLine.Positions
import PhasePortrait.Proofs.PhaseLine.Selection

/-!
# What becomes of a change of sign

A cell of the grid over which the derivative changes its sign gives a candidate in the cell. On a range
of moderate size all candidates are real numbers, so they are sorted by position, and the candidate is
reported unless it is merged with one reported shortly before it. A degenerate interval can hold it only
where rounding keeps the grid points from increasing.

## Main definitions

* `PhaseLine.SignChange l r` — finite values on different sides of zero, neither counting as zero.
* `PhaseLine.Between a b x` — `x` lies between `a` and `b`, whichever of these comes first.
* `PhaseLine.Moderate xMin xMax count` — a range on which positions do not overflow.
-/
namespace PhasePortrait
open Scalar

namespace PhaseLine

section
variable {α : Type} [Scalar α]

/-- Finite values on different sides of zero, neither of which counts as zero. -/
structure SignChange (l r : GridValue α) : Prop where
  left : isFinite l.f = true
  right : isFinite r.f = true
  leftSize : zeroTolerance < abs l.f
  rightSize : zeroTolerance < abs r.f
  sides : l.f < 0.0 ∧ 0.0 < r.f ∨ 0.0 < l.f ∧ r.f < 0.0

/-- `x` lies between `a` and `b`, whichever of these comes first. -/
def Between (a b x : α) : Prop := a ≤ x ∧ x ≤ b ∨ b ≤ x ∧ x ≤ a

end

open Double

variable {f : Float → Float} {l r : GridValue Float} {xMin xMax tolerance : Float} {count : Nat}

/-! ## The candidate of a cell -/

theorem is_zeroTolerance : ∃ t : ℝ, Is (zeroTolerance : Float) t ∧ 2 ^ (-40 : ℤ) ≤ t := by
  have hunpack : (zeroTolerance : Float).toModel.unpack =
      .finite .positive 4951760157141521 (-92) (by decide) := by
    with_unfolding_all rfl
  refine ⟨_, is_of_unpack hunpack, ?_⟩
  norm_num [factor]

theorem zero_eq_false_of_lt {s : GridValue Float} (h : zeroTolerance < abs s.f) : s.zero = false := by
  rw [GridValue.zero, decide_eq_false (Double.not_le_of_lt h), Bool.and_false]

theorem regular_of_lt {s : GridValue Float} (hfinite : isFinite s.f = true)
    (h : zeroTolerance < abs s.f) : s.regular = true := by
  rw [GridValue.regular, zero_eq_false_of_lt h, Bool.not_false, Bool.and_true]
  exact hfinite

/-- The product of the values does not underflow. -/
theorem SignChange.mul_neg (h : SignChange l r) : l.f * r.f < 0.0 := by
  obtain ⟨x, hx⟩ := isFinite_eq_true_iff.mp h.left
  obtain ⟨y, hy⟩ := isFinite_eq_true_iff.mp h.right
  obtain ⟨t, ht, hsize⟩ := is_zeroTolerance
  have hxt : t < |x| := EReal.coe_lt_coe_iff.mp ((lt_iff ht hx.abs).mp h.leftSize)
  have hyt : t < |y| := EReal.coe_lt_coe_iff.mp ((lt_iff ht hy.abs).mp h.rightSize)
  have hneg : x * y < 0 := by
    rcases h.sides with ⟨hl, hr⟩ | ⟨hl, hr⟩
    · exact mul_neg_of_neg_of_pos (EReal.coe_lt_coe_iff.mp ((lt_iff hx is_zero).mp hl))
        (EReal.coe_lt_coe_iff.mp ((lt_iff is_zero hy).mp hr))
    · exact mul_neg_of_pos_of_neg (EReal.coe_lt_coe_iff.mp ((lt_iff is_zero hx).mp hl))
        (EReal.coe_lt_coe_iff.mp ((lt_iff hy is_zero).mp hr))
  refine mul_neg_of_le hx hy (le_neg_of_le_neg ?_)
  calc (2 : ℝ) ^ (-80 : ℤ) = 2 ^ (-40 : ℤ) * 2 ^ (-40 : ℤ) := by norm_num
    _ ≤ |x| * |y| := mul_le_mul (hsize.trans hxt.le) (hsize.trans hyt.le)
        (zpow_pos two_pos _).le (abs_nonneg x)
    _ = -(x * y) := by rw [← abs_mul, abs_of_neg hneg]

theorem SignChange.crossingPoint_mem_candidates {values : List (GridValue Float)}
    (h : SignChange l r) (hmem : (l, r) ∈ cells values) :
    (crossingPoint f l r, .crossing) ∈ candidates f tolerance values := by
  have hcandidate : crossingCandidate? f (l, r) = some (crossingPoint f l r, .crossing) := by
    rw [crossingCandidate?, regular_of_lt h.left h.leftSize, regular_of_lt h.right h.rightSize,
      decide_eq_true h.mul_neg]
    rfl
  rw [candidates, List.mem_append, List.mem_append]
  exact .inl (.inr (List.mem_filterMap.mpr ⟨(l, r), hmem, hcandidate⟩))

/-! ## The candidates in order -/

/-- Doubles that are real numbers compare like these. -/
theorem comparable_is : Comparable fun (a : Float) (x : ℝ) => Is a x where
  lt_iff hx hy := (lt_iff hx hy).trans EReal.coe_lt_coe_iff
  le_iff hx hy := (le_iff hx hy).trans EReal.coe_le_coe_iff

/-- A candidate is reported, merged with an equilibrium shortly before it, or inside an interval. -/
theorem exists_or_of_mem_candidates
    (hfinite : ∀ c ∈ candidates f tolerance (gridValues f xMin xMax count), isFinite c.1 = true)
    {c : Candidate Float} (hc : c ∈ candidates f tolerance (gridValues f xMin xMax count)) :
    (∃ p ∈ (ofFunction f xMin xMax count tolerance).equilibria, p.x = c.1) ∨
      (∃ p ∈ (ofFunction f xMin xMax count tolerance).equilibria,
        p.x ≤ c.1 ∧ c.1 - p.x < spacing xMin xMax count) ∨
      ∃ i ∈ (ofFunction f xMin xMax count tolerance).degenerate, Interval.contains i c.1 = true := by
  have hnone : ∀ q ∈ (none : Option Float), ∀ d ∈ (candidates f tolerance
      (gridValues f xMin xMax count)).mergeSort Candidate.before, q ≤ d.1 := fun _ hq => nomatch hq
  have hsorted := comparable_is.pairwise_mergeSort_before fun d hd =>
    isFinite_eq_true_iff.mp (hfinite d hd)
  rcases mem_select_or hsorted hnone (List.mem_mergeSort.mpr hc) with
    hkept | hinside | ⟨q, hq, hle, hgap⟩
  · exact .inl ⟨_, List.mem_map_of_mem hkept, rfl⟩
  · exact .inr (.inr hinside)
  · obtain ⟨d, hd, rfl⟩ := hq.resolve_left (fun hq => nomatch hq)
    exact .inr (.inl ⟨_, List.mem_map_of_mem hd, hle, hgap⟩)

/-! ## Ranges of moderate size -/

/-- A range whose grid points have sums in range, and so many cells that their number is finite. -/
structure Moderate (xMin xMax : Float) (count : Nat) : Prop where
  low : abs xMin ≤ 8.9e307
  high : abs xMax ≤ 8.9e307
  order : ¬ xMax ≤ xMin
  finite : isFinite (count : Float) = true
  pos : 0 < count

theorem Moderate.within (h : Moderate xMin xMax count) {s : GridValue Float}
    (hs : s ∈ gridValues f xMin xMax count) : Within (reach + 6 * slack) s.x := by
  obtain ⟨x, hx, hxM⟩ := within_reach h.low
  obtain ⟨y, hy, hyM⟩ := within_reach h.high
  have hxy : x ≤ y := by
    have horder := h.order
    rw [le_iff hy hx, EReal.coe_le_coe_iff] at horder
    exact (lt_of_not_ge horder).le
  obtain ⟨p, hp, rfl⟩ := List.mem_map.mp hs
  obtain ⟨j, hj, rfl⟩ := List.mem_map.mp hp
  have hroom := reach_add_le
  have hslack := slack_pos
  exact within_point hx hy hxM hyM (by linarith) hxy h.finite h.pos
    (Nat.lt_succ_iff.mp (List.mem_range.mp hj))

/-- The crossing of a cell lies in the cell. -/
theorem Moderate.between_crossingPoint (h : Moderate xMin xMax count)
    (hmem : (l, r) ∈ cells (gridValues f xMin xMax count)) :
    Between l.x r.x (crossingPoint f l r) ∧ isFinite (crossingPoint f l r) = true := by
  obtain ⟨hl, hr⟩ := mem_of_mem_cells hmem
  obtain ⟨x, hx, hxM⟩ := h.within hl
  obtain ⟨y, hy, hyM⟩ := h.within hr
  have hroom := reach_add_le
  have hslack := slack_pos
  obtain ⟨z, hz, hbetween⟩ := is_bisect (f := f) hx hy (by linarith) (by linarith)
  rw [← f_eq_of_mem_gridValues hl] at hz
  refine ⟨?_, isFinite_eq_true_iff.mpr ⟨z, hz⟩⟩
  simp only [Between, crossingPoint, le_iff hx hz, le_iff hz hy, le_iff hy hz, le_iff hz hx,
    EReal.coe_le_coe_iff]
  exact Set.mem_uIcc.mp hbetween

theorem Moderate.isFinite_of_mem_candidates (h : Moderate xMin xMax count) {c : Candidate Float}
    (hc : c ∈ candidates f tolerance (gridValues f xMin xMax count)) : isFinite c.1 = true := by
  cases origin_of_mem_candidates hc with
  | zero hmem _ kind =>
    obtain ⟨x, hx, -⟩ := h.within hmem
    exact isFinite_eq_true_iff.mpr ⟨x, hx⟩
  | crossing hmem => exact (h.between_crossingPoint hmem).2
  | tangent hl hr =>
    obtain ⟨x, hx, -⟩ := within_minimizeAbs (f := f) (h.within hl) (h.within hr) reach_add_le
    exact isFinite_eq_true_iff.mpr ⟨x, hx⟩

/-! ## Degenerate intervals beside a cell -/

theorem point_lt_point
    (h : ∀ j < count, Grid.point xMin xMax count j < Grid.point xMin xMax count (j + 1))
    {i j : ℕ} (hij : i < j) (hj : j ≤ count) :
    Grid.point xMin xMax count i < Grid.point xMin xMax count j := by
  induction j, hij using Nat.le_induction with
  | base => exact h i hj
  | succ j hij ih =>
    exact Double.lt_of_lt_of_le (ih (Nat.le_of_succ_le hj)) (Double.le_of_lt (h j hj))

theorem pairwise_gridValues
    (h : ∀ j < count, Grid.point xMin xMax count j < Grid.point xMin xMax count (j + 1)) :
    (gridValues f xMin xMax count).Pairwise fun s t => s.x < t.x := by
  rw [gridValues, Grid.points, List.pairwise_map, List.pairwise_map]
  refine List.pairwise_lt_range.imp_of_mem fun {i j} _ hj hij => ?_
  exact point_lt_point h hij (Nat.lt_succ_iff.mp (List.mem_range.mp hj))

/-- Where the grid points increase, degenerate intervals keep away from a change of sign. -/
theorem SignChange.not_contains (hchange : SignChange l r)
    (h : ∀ j < count, Grid.point xMin xMax count j < Grid.point xMin xMax count (j + 1))
    (hmem : (l, r) ∈ cells (gridValues f xMin xMax count)) {x : Float} (hx : Between l.x r.x x)
    {i : Interval Float}
    (hi : i ∈ degenerateIntervals ((gridValues f xMin xMax count).map fun s => (s.x, s.zero))) :
    ¬ Interval.contains i x = true := by
  have hsorted := pairwise_gridValues (f := f) h
  obtain ⟨before, after, heq⟩ := exists_append_of_mem_cells hmem
  rw [heq] at hi hsorted
  obtain ⟨-, htail, hbefore⟩ := List.pairwise_append.mp hsorted
  obtain ⟨hl, htail⟩ := List.pairwise_cons.mp htail
  have hafter := (List.pairwise_cons.mp htail).1
  have hcell : l.x ≤ x ∧ x ≤ r.x := hx.resolve_right fun ⟨hrx, hxl⟩ =>
    Double.not_le_of_lt (Double.lt_of_lt_of_le (hl r List.mem_cons_self) hrx) hxl
  rw [Interval.contains, Bool.and_eq_true, decide_eq_true_iff, decide_eq_true_iff]
  rintro ⟨hlow, hhigh⟩
  rcases before_or_after_of_mem_degenerateIntervals (zero_eq_false_of_lt hchange.leftSize)
    (zero_eq_false_of_lt hchange.rightSize) hi with ⟨s, hs, heq⟩ | ⟨s, hs, heq⟩
  · rw [heq] at hhigh
    exact Double.not_le_of_lt (Double.lt_of_lt_of_le (hbefore s hs l List.mem_cons_self) hcell.1) hhigh
  · rw [heq] at hlow
    exact Double.not_le_of_lt (Double.lt_of_le_of_lt hcell.2 (hafter s hs)) hlow

end PhaseLine

namespace LineSystem
open PhaseLine

variable {s : LineSystem Float} {params : ParameterValues Float} {xMin xMax tolerance : Float}
  {count : Nat} {line : PhaseLine Float} {l r : GridValue Float}

/-- **A change of sign is reported in its cell or merged with an equilibrium shortly before it.** Only
where rounding keeps the grid points from increasing can a degenerate interval hold it. -/
theorem sign_change_reported_or_merged (hvalid : s.isValid = true)
    (hline : s.phaseLine params xMin xMax count tolerance = .ok line)
    (hxMin : abs xMin ≤ 8.9e307) (hxMax : abs xMax ≤ 8.9e307) (hcount : isFinite (count : Float) = true)
    (hmem : (l, r) ∈ cells (gridValues (s.derivative params) xMin xMax count))
    (hchange : SignChange l r) :
    Between l.x r.x (crossingPoint (s.derivative params) l r) ∧
      ((∃ p ∈ line.equilibria, p.x = crossingPoint (s.derivative params) l r) ∨
        (∃ p ∈ line.equilibria, p.x ≤ crossingPoint (s.derivative params) l r ∧
          crossingPoint (s.derivative params) l r - p.x < spacing xMin xMax count) ∨
        (∃ i ∈ line.degenerate,
            Interval.contains i (crossingPoint (s.derivative params) l r) = true) ∧
          ∃ j < count, ¬ Grid.point xMin xMax count j < Grid.point xMin xMax count (j + 1)) := by
  obtain ⟨hrange, htwo, rfl⟩ := eq_of_phaseLine_eq_ok hvalid hline
  have hmoderate : Moderate xMin xMax count := ⟨hxMin, hxMax, hrange, hcount, by omega⟩
  have hbetween := (hmoderate.between_crossingPoint hmem).1
  refine ⟨hbetween, ?_⟩
  have hcandidate : (crossingPoint (s.derivative params) l r, .crossing) ∈
      candidates (s.derivative params) tolerance (gridValues (s.derivative params) xMin xMax count) :=
    hchange.crossingPoint_mem_candidates hmem
  have hfinite : ∀ c ∈ candidates (s.derivative params) tolerance
      (gridValues (s.derivative params) xMin xMax count), isFinite c.1 = true := fun c hc =>
    hmoderate.isFinite_of_mem_candidates hc
  rcases exists_or_of_mem_candidates hfinite hcandidate with hreported | hmerged | ⟨i, hi, hinside⟩
  · exact .inl hreported
  · exact .inr (.inl hmerged)
  · refine .inr (.inr ⟨⟨i, hi, hinside⟩, ?_⟩)
    by_contra hincreasing
    push Not at hincreasing
    exact hchange.not_contains hincreasing hmem hbetween hi hinside

/-- A zero in the middle of the first cell. -/
theorem sign_change_reported_or_merged_linear :
    ∃ line l r, (ofText "X-0.25" [] : LineSystem Float).isValid = true ∧
      (ofText "X-0.25" [] : LineSystem Float).phaseLine [] 0.0 1.0 2 defaultTolerance = .ok line ∧
      abs (0.0 : Float) ≤ 8.9e307 ∧ abs (1.0 : Float) ≤ 8.9e307 ∧ isFinite ((2 : Nat) : Float) = true ∧
      (l, r) ∈ cells (gridValues ((ofText "X-0.25" [] : LineSystem Float).derivative []) 0.0 1.0 2) ∧
      SignChange l r ∧
      Between l.x r.x (crossingPoint ((ofText "X-0.25" []).derivative []) l r) ∧
      ((∃ p ∈ line.equilibria, p.x = crossingPoint ((ofText "X-0.25" []).derivative []) l r) ∨
        (∃ p ∈ line.equilibria, p.x ≤ crossingPoint ((ofText "X-0.25" []).derivative []) l r ∧
          crossingPoint ((ofText "X-0.25" []).derivative []) l r - p.x < spacing 0.0 1.0 2) ∨
        (∃ i ∈ line.degenerate,
            Interval.contains i (crossingPoint ((ofText "X-0.25" []).derivative []) l r) = true) ∧
          ∃ j < 2, ¬ Grid.point (0.0 : Float) 1.0 2 j < Grid.point 0.0 1.0 2 (j + 1)) := by
  have hvalid : (ofText "X-0.25" [] : LineSystem Float).isValid = true := by decide +kernel
  have hline : (ofText "X-0.25" [] : LineSystem Float).phaseLine [] 0.0 1.0 2 defaultTolerance =
      .ok _ := phaseLine_eq_ok (by decide +kernel) (by decide) hvalid
  have hmem : (cells (gridValues ((ofText "X-0.25" [] : LineSystem Float).derivative [])
      0.0 1.0 2))[0] ∈ _ := List.getElem_mem _
  have hchange : SignChange
      (cells (gridValues ((ofText "X-0.25" [] : LineSystem Float).derivative []) 0.0 1.0 2))[0].1
      (cells (gridValues ((ofText "X-0.25" [] : LineSystem Float).derivative []) 0.0 1.0 2))[0].2 :=
    ⟨by decide +kernel, by decide +kernel, by decide +kernel, by decide +kernel, by decide +kernel⟩
  have hxMin : abs (0.0 : Float) ≤ 8.9e307 := by decide +kernel
  have hxMax : abs (1.0 : Float) ≤ 8.9e307 := by decide +kernel
  have hcount : isFinite ((2 : Nat) : Float) = true := by decide +kernel
  exact ⟨_, _, _, hvalid, hline, hxMin, hxMax, hcount, hmem, hchange,
    sign_change_reported_or_merged hvalid hline hxMin hxMax hcount hmem hchange⟩

/-- Two zeros in neighbouring cells, closer than the spacing: the cell of the upper one has none of the
equilibria. -/
theorem sign_change_merged :
    ¬ ∀ (s : LineSystem Float) (params : ParameterValues Float) (xMin xMax tolerance : Float)
      (count : Nat) (line : PhaseLine Float) (l r : GridValue Float), s.isValid = true →
      s.phaseLine params xMin xMax count tolerance = .ok line →
      (l, r) ∈ cells (gridValues (s.derivative params) xMin xMax count) → SignChange l r →
        ∃ p ∈ line.equilibria, l.x ≤ p.x ∧ p.x ≤ r.x := by
  intro h
  have hvalid : (ofText "(X-0.75)*(X-1.25)" [] : LineSystem Float).isValid = true := by decide +kernel
  have hmem : (cells (gridValues ((ofText "(X-0.75)*(X-1.25)" [] : LineSystem Float).derivative [])
      0.0 3.0 3))[1] ∈ _ := List.getElem_mem _
  have hcell := h _ [] 0.0 3.0 defaultTolerance 3 _ _ _ hvalid
    (phaseLine_eq_ok (by decide +kernel) (by decide) hvalid) hmem
    ⟨by decide +kernel, by decide +kernel, by decide +kernel, by decide +kernel, by decide +kernel⟩
  have hsorted : (candidates ((ofText "(X-0.75)*(X-1.25)" [] : LineSystem Float).derivative [])
      defaultTolerance (gridValues ((ofText "(X-0.75)*(X-1.25)" [] : LineSystem Float).derivative [])
        0.0 3.0 3)).Pairwise fun c d => Candidate.before c d = true := by
    decide +kernel
  rw [ofFunction, List.mergeSort_of_pairwise hsorted] at hcell
  revert hcell
  decide +kernel

end LineSystem

end PhasePortrait
