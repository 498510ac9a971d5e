import Mathlib.Analysis.Convex.Segment
import Mathlib.NumberTheory.Real.GoldenRatio
import PhasePortrait.Proofs.Number.Exact
import PhasePortrait.Proofs.PhaseLine.Candidates

/-!
# Searches in exact arithmetic

In exact arithmetic both searches move between points of the segment that they start from: the middle of
two of its points is one, and so are the probes, which divide it in the golden ratio. Grid points divide
the range evenly, so all candidates lie in it.

## Main definitions

* `PhaseLine.Inside a b x` — the scalar `x` is a number of the range from `a` to `b`.
* `PhaseLine.golden` — the ratio of the probes.
-/
namespace PhasePortrait.PhaseLine
open Scalar Exact

/-- A number between two real numbers. -/
def Inside {α : Type} [Scalar α] [Exact α] (a b : ℝ) (x : α) : Prop :=
  ∃ r ∈ Set.Icc a b, x = ofReal r

variable {α : Type} [Scalar α] [Exact α] {a b : ℝ} {x y : α} {f : α → α} {tolerance : α} {count : Nat}

/-- Ranges are convex. -/
theorem Inside.of_combination {u v g w : ℝ} (hu : u ∈ Set.Icc a b) (hv : v ∈ Set.Icc a b) (hg : 0 ≤ g)
    (hg' : g ≤ 1) (hw : (1 - g) * u + g * v = w) : Inside a b (ofReal w : α) :=
  ⟨w, hw ▸ convex_Icc a b hu hv (sub_nonneg.mpr hg') hg (sub_add_cancel 1 g), rfl⟩

/-! ## The search over a change of sign -/

theorem middle_ofReal (u v : ℝ) : middle (ofReal u : α) (ofReal v) = ofReal ((u + v) / 2) := by
  rw [middle, ofScientific_eq, ofReal_add, ofReal_mul]
  congr 1
  ring

theorem Inside.middle (hx : Inside a b x) (hy : Inside a b y) : Inside a b (middle x y) := by
  obtain ⟨u, hu, rfl⟩ := hx
  obtain ⟨v, hv, rfl⟩ := hy
  rw [middle_ofReal]
  exact .of_combination (g := 1 / 2) hu hv (by norm_num) (by norm_num) (by ring)

theorem Halving.inside {p q : α × α} (h : Halving f p q) (hlow : Inside a b p.1)
    (hhigh : Inside a b p.2) : Inside a b q.1 ∧ Inside a b q.2 := by
  cases h with
  | upper => exact ⟨hlow.middle hhigh, hhigh⟩
  | lower => exact ⟨hlow, hlow.middle hhigh⟩

theorem Halvings.inside {k : Nat} {p q : α × α} (h : Halvings f k p q) (hlow : Inside a b p.1)
    (hhigh : Inside a b p.2) : Inside a b q.1 ∧ Inside a b q.2 := by
  induction h with
  | refl => exact ⟨hlow, hhigh⟩
  | step hstep _ ih =>
    obtain ⟨hlow', hhigh'⟩ := hstep.inside hlow hhigh
    exact ih hlow' hhigh'

theorem Inside.bisect (hx : Inside a b x) (hy : Inside a b y) : Inside a b (bisect f x y (f x)) := by
  obtain ⟨k, a', b', -, hs, heq, -⟩ := bisectFrom_eq f refinements x y
  obtain ⟨hlow, hhigh⟩ := hs.inside hx hy
  rw [PhaseLine.bisect, heq]
  exact hlow.middle hhigh

/-! ## The search for a dip -/

/-- The positive number `r` with `r² + r = 1`. -/
noncomputable def golden : ℝ := Real.goldenRatio⁻¹

theorem golden_sq : golden ^ 2 + golden = 1 := by
  rw [golden, Real.inv_goldenRatio, neg_sq, Real.goldenConj_sq]
  ring

theorem golden_pos : 0 < golden := inv_pos.mpr Real.goldenRatio_pos

theorem golden_lt_one : golden < 1 := inv_lt_one_of_one_lt₀ Real.one_lt_goldenRatio

theorem goldenRatio_eq : (goldenRatio : α) = ofReal golden := by
  have hfive : sqrt (5.0 : α) = ofReal √5 := by
    rw [ofScientific_eq, sqrt_ofReal _ (by norm_num)]
    norm_num
  have hgolden : golden = (√5 - 1) / 2 := by
    rw [golden, Real.inv_goldenRatio]
    ring
  rw [goldenRatio, hfive, ofScientific_eq, ofScientific_eq, ofReal_sub, ofReal_div _ _ (by norm_num),
    hgolden]
  norm_num

theorem lowerProbe_ofReal (u v : ℝ) :
    lowerProbe (ofReal u : α) (ofReal v) = ofReal (v - golden * (v - u)) := by
  rw [lowerProbe, goldenRatio_eq, ofReal_sub, ofReal_mul, ofReal_sub]

theorem upperProbe_ofReal (u v : ℝ) :
    upperProbe (ofReal u : α) (ofReal v) = ofReal (u + golden * (v - u)) := by
  rw [upperProbe, goldenRatio_eq, ofReal_sub, ofReal_mul, ofReal_add]

theorem Inside.lowerProbe (hx : Inside a b x) (hy : Inside a b y) : Inside a b (lowerProbe x y) := by
  obtain ⟨u, hu, rfl⟩ := hx
  obtain ⟨v, hv, rfl⟩ := hy
  rw [lowerProbe_ofReal]
  exact .of_combination hv hu golden_pos.le golden_lt_one.le (by ring)

theorem Inside.upperProbe (hx : Inside a b x) (hy : Inside a b y) : Inside a b (upperProbe x y) := by
  obtain ⟨u, hu, rfl⟩ := hx
  obtain ⟨v, hv, rfl⟩ := hy
  rw [upperProbe_ofReal]
  exact .of_combination hu hv golden_pos.le golden_lt_one.le (by ring)

/-- Each round goes on with a probe for one end, and takes a new one. -/
theorem Inside.narrow {c d : α} (hx : Inside a b x) (hy : Inside a b y) (hc : Inside a b c)
    (hd : Inside a b d) (fc fd : α) : Inside a b (narrow f count x y c d fc fd) := by
  induction count generalizing x y c d fc fd with
  | zero => exact hx.middle hy
  | succ count ih =>
    rw [PhaseLine.narrow]
    split
    · exact ih hx hd (hx.lowerProbe hd) hc _ _
    · exact ih hc hy hd (hc.upperProbe hy) _ _

theorem Inside.minimizeAbs (hx : Inside a b x) (hy : Inside a b y) : Inside a b (minimizeAbs f x y) :=
  hx.narrow hy (hx.lowerProbe hy) (hx.upperProbe hy) _ _

/-! ## The grid -/

/-- The ends of equal parts of a range. -/
noncomputable def gridPoint (a b : ℝ) (count i : Nat) : ℝ := i * ((b - a) / count) + a

theorem gridPoint_lt (hab : a < b) (hcount : 0 < count) {i j : Nat} (hij : i < j) :
    gridPoint a b count i < gridPoint a b count j := by
  have hstep : 0 < (b - a) / count := div_pos (sub_pos.mpr hab) (by exact_mod_cast hcount)
  have hcast : (i : ℝ) < j := by exact_mod_cast hij
  exact add_lt_add_left (mul_lt_mul_of_pos_right hcast hstep) a

theorem gridPoint_zero : gridPoint a b count 0 = a := by simp [gridPoint]

theorem gridPoint_last (hcount : 0 < count) : gridPoint a b count count = b := by
  have hne : (count : ℝ) ≠ 0 := by exact_mod_cast hcount.ne'
  rw [gridPoint, mul_div_cancel₀ _ hne, sub_add_cancel]

theorem point_eq (hab : a < b) (hcount : 0 < count) (i : Nat) :
    Grid.point (ofReal a : α) (ofReal b) count i = ofReal (gridPoint a b count i) := by
  have hne : (count : ℝ) ≠ 0 := by exact_mod_cast hcount.ne'
  have hstep : (ofReal b - ofReal a) / (count : α) = ofReal ((b - a) / count) := by
    rw [ofReal_sub, natCast_eq, ofReal_div _ _ hne]
  have hnonzero : ¬ isZero (ofReal ((b - a) / count) : α) = true := by
    rw [isZero_ofReal_iff]
    exact div_ne_zero (sub_ne_zero.mpr hab.ne') hne
  unfold Grid.point
  split
  · next hlast => rw [hlast, gridPoint_last hcount]
  · dsimp only
    rw [hstep, if_neg hnonzero, natCast_eq, ofReal_mul, ofReal_add, gridPoint]

theorem spacing_eq (hab : a < b) (hcount : 0 < count) :
    spacing (ofReal a : α) (ofReal b) count = ofReal ((b - a) / count) := by
  rw [spacing, point_eq hab hcount, point_eq hab hcount, ofReal_sub]
  simp [gridPoint]

theorem inside_point (hab : a < b) (hcount : 0 < count) {i : Nat} (hi : i ≤ count) :
    Inside a b (Grid.point (ofReal a : α) (ofReal b) count i) := by
  refine ⟨_, ⟨?_, ?_⟩, point_eq hab hcount i⟩
  · rcases i.eq_zero_or_pos with rfl | hpos
    · rw [gridPoint_zero]
    · exact gridPoint_zero.symm.trans_le (gridPoint_lt hab hcount hpos).le
  · rcases hi.eq_or_lt with rfl | hlt
    · rw [gridPoint_last hcount]
    · exact (gridPoint_lt hab hcount hlt).le.trans_eq (gridPoint_last hcount)

/-! ## Candidates -/

theorem inside_of_mem_gridValues (hab : a < b) (hcount : 0 < count) {s : GridValue α}
    (h : s ∈ gridValues f (ofReal a) (ofReal b) count) : Inside a b s.x := by
  obtain ⟨x, hx, rfl⟩ := List.mem_map.mp h
  obtain ⟨i, hi, rfl⟩ := List.mem_map.mp hx
  exact inside_point hab hcount (Nat.lt_succ_iff.mp (List.mem_range.mp hi))

/-- All candidates lie in the range. -/
theorem inside_of_mem_candidates (hab : a < b) (hcount : 0 < count) {c : Candidate α}
    (h : c ∈ candidates f tolerance (gridValues f (ofReal a) (ofReal b) count)) : Inside a b c.1 := by
  cases origin_of_mem_candidates h with
  | zero hmem => exact inside_of_mem_gridValues hab hcount hmem
  | crossing hmem =>
    obtain ⟨hl, hr⟩ := mem_of_mem_cells hmem
    rw [crossingPoint, f_eq_of_mem_gridValues hl]
    exact (inside_of_mem_gridValues hab hcount hl).bisect (inside_of_mem_gridValues hab hcount hr)
  | tangent hl hr =>
    exact (inside_of_mem_gridValues hab hcount hl).minimizeAbs (inside_of_mem_gridValues hab hcount hr)

end PhasePortrait.PhaseLine
