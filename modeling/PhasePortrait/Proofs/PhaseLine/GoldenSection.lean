import Mathlib.Order.Monotone.Basic
import PhasePortrait.Proofs.PhaseLine.Inquiry

/-!
# The golden section

The search for a dip divides its range by two probes and goes on with one of the two overlapping parts.
The ratio `r` is chosen so that `r² + r = 1`: the probe that lies inside of the part divides it the same
way, so it is kept together with the size that was found there, and one new probe takes the place of the
other one. If the size falls up to `m` and rises from there, the smaller of the two sizes tells on which
part `m` lies, and where both are equal it lies between the probes. So each round leaves a range around `m`
that is shorter by the factor `r`.

## Main definitions

* `PhaseLine.lowerPoint a b`, `PhaseLine.upperPoint a b` — the two probes of a range of real numbers.
* `PhaseLine.Dips f g a m b` — the size of `f` falls on the range from `a` to `m` and rises from `m` to `b`.
* `Dips.narrowOn f g count a b` — what so many rounds come to on a range.
* `Dips.Around low m high a b` — a part of the range with the dip on it.
-/
namespace PhasePortrait.PhaseLine
open Scalar Exact

/-! ## Probes -/

noncomputable def lowerPoint (a b : ℝ) : ℝ := b - golden * (b - a)

noncomputable def upperPoint (a b : ℝ) : ℝ := a + golden * (b - a)

theorem half_lt_golden : 1 / 2 < golden := by
  rw [golden, one_div]
  exact inv_strictAnti₀ Real.goldenRatio_pos Real.goldenRatio_lt_two

section
variable (a b : ℝ)

theorem upperPoint_sub : upperPoint a b - a = golden * (b - a) := by rw [upperPoint]; ring

theorem sub_lowerPoint : b - lowerPoint a b = golden * (b - a) := by rw [lowerPoint]; ring

/-- In the lower part the lower probe is the upper one. -/
theorem upperPoint_upperPoint : upperPoint a (upperPoint a b) = lowerPoint a b := by
  calc upperPoint a (upperPoint a b) = a + golden ^ 2 * (b - a) := by
        rw [upperPoint, upperPoint_sub]; ring
    _ = a + (1 - golden) * (b - a) := by rw [← golden_sq]; ring
    _ = lowerPoint a b := by rw [lowerPoint]; ring

/-- In the upper part the upper probe is the lower one. -/
theorem lowerPoint_lowerPoint : lowerPoint (lowerPoint a b) b = upperPoint a b := by
  calc lowerPoint (lowerPoint a b) b = b - golden ^ 2 * (b - a) := by
        rw [lowerPoint, sub_lowerPoint]; ring
    _ = b - (1 - golden) * (b - a) := by rw [← golden_sq]; ring
    _ = upperPoint a b := by rw [upperPoint]; ring

variable {a b}

theorem lowerPoint_lt_upperPoint (hab : a < b) : lowerPoint a b < upperPoint a b := by
  have hwidth : 0 < (golden - 1 / 2) * (b - a) :=
    mul_pos (sub_pos.mpr half_lt_golden) (sub_pos.mpr hab)
  rw [lowerPoint, upperPoint]
  linarith

theorem golden_mul_mem (hab : a < b) : golden * (b - a) ∈ Set.Ioo 0 (b - a) :=
  ⟨mul_pos golden_pos (sub_pos.mpr hab), mul_lt_of_lt_one_left (sub_pos.mpr hab) golden_lt_one⟩

theorem lowerPoint_mem (hab : a < b) : lowerPoint a b ∈ Set.Ioo a b := by
  obtain ⟨hpos, hlt⟩ := golden_mul_mem hab
  rw [lowerPoint]
  constructor <;> linarith

theorem upperPoint_mem (hab : a < b) : upperPoint a b ∈ Set.Ioo a b := by
  obtain ⟨hpos, hlt⟩ := golden_mul_mem hab
  rw [upperPoint]
  constructor <;> linarith

end

/-! ## Dips -/

variable {α : Type} [Scalar α] [Exact α] {f : α → α} {g : ℝ → ℝ} {low m high a b c d : ℝ}

/-- On the range `f` has the real values `g`, whose size falls up to `m` and rises from there. -/
structure Dips (f : α → α) (g : ℝ → ℝ) (low m high : ℝ) : Prop where
  value : ∀ x ∈ Set.Icc low high, f (ofReal x) = ofReal (g x)
  falls : StrictAntiOn (fun x => |g x|) (Set.Icc low m)
  rises : StrictMonoOn (fun x => |g x|) (Set.Icc m high)

namespace Dips

theorem abs_value (h : Dips f g low m high) {x : ℝ} (hx : x ∈ Set.Icc low high) :
    abs (f (ofReal x)) = ofReal |g x| := by
  rw [h.value x hx, abs_ofReal]

/-- Where the size has grown, the dip is not behind. -/
theorem le_of_lt (h : Dips f g low m high) (hc : low ≤ c) (hcd : c < d) (hlt : |g c| < |g d|) :
    m ≤ d := by
  by_contra hd
  have hfall : |g d| < |g c| := h.falls ⟨hc, hcd.le.trans (not_le.mp hd).le⟩
    ⟨hc.trans hcd.le, (not_le.mp hd).le⟩ hcd
  exact hfall.not_gt hlt

/-- Where the size has not grown, the dip is not before. -/
theorem le_of_not_lt (h : Dips f g low m high) (hd : d ≤ high) (hcd : c < d)
    (hnot : ¬ |g c| < |g d|) : c ≤ m := by
  by_contra hc
  have hrise : |g c| < |g d| := h.rises ⟨(not_le.mp hc).le, hcd.le.trans hd⟩
    ⟨(not_le.mp hc).le.trans hcd.le, hd⟩ hcd
  exact hnot hrise

/-! ## Rounds -/

/-- The rest of the search on a range, given its probes and the sizes there. -/
noncomputable def narrowOn (f : α → α) (g : ℝ → ℝ) (count : ℕ) (a b : ℝ) : α :=
  narrow f count (ofReal a) (ofReal b) (ofReal (lowerPoint a b)) (ofReal (upperPoint a b))
    (ofReal |g (lowerPoint a b)|) (ofReal |g (upperPoint a b)|)

/-- On to the upper probe: the lower one takes its place. -/
theorem narrowOn_lower (h : Dips f g low m high) (ha : low ≤ a) (hb : b ≤ high) (hab : a < b)
    (hless : |g (lowerPoint a b)| < |g (upperPoint a b)|) (count : ℕ) :
    narrowOn f g (count + 1) a b = narrowOn f g count a (upperPoint a b) := by
  obtain ⟨hhigh, hhigh'⟩ := upperPoint_mem hab
  obtain ⟨hnew, hnew'⟩ := lowerPoint_mem hhigh
  have hprobe : lowerProbe (ofReal a : α) (ofReal (upperPoint a b)) =
      ofReal (lowerPoint a (upperPoint a b)) := lowerProbe_ofReal _ _
  have hsize := h.abs_value ⟨ha.trans hnew.le, hnew'.le.trans (hhigh'.le.trans hb)⟩
  rw [narrowOn, narrow, if_pos ((ofReal_lt _ _).mpr hless), hprobe]
  dsimp only
  rw [hsize, narrowOn, upperPoint_upperPoint]

/-- On from the lower probe: the upper one takes its place. -/
theorem narrowOn_upper (h : Dips f g low m high) (ha : low ≤ a) (hb : b ≤ high) (hab : a < b)
    (hnot : ¬ |g (lowerPoint a b)| < |g (upperPoint a b)|) (count : ℕ) :
    narrowOn f g (count + 1) a b = narrowOn f g count (lowerPoint a b) b := by
  obtain ⟨hlow, hlow'⟩ := lowerPoint_mem hab
  obtain ⟨hnew, hnew'⟩ := upperPoint_mem hlow'
  have hprobe : upperProbe (ofReal (lowerPoint a b) : α) (ofReal b) =
      ofReal (upperPoint (lowerPoint a b) b) := upperProbe_ofReal _ _
  have hsize := h.abs_value ⟨ha.trans (hlow.le.trans hnew.le), hnew'.le.trans hb⟩
  rw [narrowOn, narrow, if_neg (mt (ofReal_lt _ _).mp hnot), hprobe]
  dsimp only
  rw [hsize, narrowOn, lowerPoint_lowerPoint]

/-- A part of the range with the dip on it. -/
structure Around (low m high a b : ℝ) : Prop where
  low_le : low ≤ a
  le_high : b ≤ high
  mem : m ∈ Set.Icc a b
  lt : a < b

/-- Each round leaves a part around the dip that is shorter by the ratio. -/
theorem exists_round (h : Dips f g low m high) (hab : Around low m high a b) :
    ∃ a' b', Around low m high a' b' ∧ b' - a' = golden * (b - a) ∧
      ∀ count, narrowOn f g (count + 1) a b = narrowOn f g count a' b' := by
  obtain ⟨ha, hb, hm, hlt⟩ := hab
  obtain ⟨hlow, hlow'⟩ := lowerPoint_mem hlt
  obtain ⟨hhigh, hhigh'⟩ := upperPoint_mem hlt
  have hprobes := lowerPoint_lt_upperPoint hlt
  by_cases hless : |g (lowerPoint a b)| < |g (upperPoint a b)|
  · have hle : m ≤ upperPoint a b := h.le_of_lt (ha.trans hlow.le) hprobes hless
    exact ⟨a, upperPoint a b, ⟨ha, hhigh'.le.trans hb, ⟨hm.1, hle⟩, hhigh⟩, upperPoint_sub a b,
      h.narrowOn_lower ha hb hlt hless⟩
  · have hle : lowerPoint a b ≤ m := h.le_of_not_lt (hhigh'.le.trans hb) hprobes hless
    exact ⟨lowerPoint a b, b, ⟨ha.trans hlow.le, hb, ⟨hle, hm.2⟩, hlow'⟩, sub_lowerPoint a b,
      h.narrowOn_upper ha hb hlt hless⟩

/-- All rounds from a part around the dip. -/
theorem exists_narrowOn (h : Dips f g low m high) (count : ℕ) (hab : Around low m high a b) :
    ∃ x : ℝ, narrowOn f g count a b = ofReal x ∧ |x - m| ≤ golden ^ count * (b - a) / 2 := by
  induction count generalizing a b with
  | zero =>
    obtain ⟨-, -, hm, -⟩ := hab
    refine ⟨(a + b) / 2, middle_ofReal a b, ?_⟩
    rw [pow_zero, one_mul, abs_le]
    constructor <;> linarith [hm.1, hm.2]
  | succ count ih =>
    obtain ⟨a', b', hab', hwidth, hround⟩ := h.exists_round hab
    obtain ⟨x, hx, hdistance⟩ := ih hab'
    rw [hwidth, ← mul_assoc, ← pow_succ] at hdistance
    exact ⟨x, (hround count).trans hx, hdistance⟩

/-- The whole search, from the probes of the range. -/
theorem minimizeAbs_eq_narrowOn (h : Dips f g low m high) (hlt : low < high) :
    minimizeAbs f (ofReal low) (ofReal high) = narrowOn f g refinements low high := by
  have hlower : lowerProbe (ofReal low : α) (ofReal high) = ofReal (lowerPoint low high) :=
    lowerProbe_ofReal _ _
  have hupper : upperProbe (ofReal low : α) (ofReal high) = ofReal (upperPoint low high) :=
    upperProbe_ofReal _ _
  rw [minimizeAbs, hlower, hupper, h.abs_value (Set.Ioo_subset_Icc_self (lowerPoint_mem hlt)),
    h.abs_value (Set.Ioo_subset_Icc_self (upperPoint_mem hlt)), narrowOn]

end Dips

/-- **The search for a dip closes in on it.** In exact arithmetic the ratio is the positive number `r` with
`r ^ 2 + r = 1`. If the size of `f` falls from `a` to `m` and rises from there to `b`, the search arrives
at a number `x` that is at most half of `r ^ 60` times the range away from `m`, and it has asked about
numbers of the range only. -/
theorem minimizeAbs_near_dip {α : Type} [Scalar α] [Exact α] {f : α → α} {g : ℝ → ℝ} {a m b : ℝ}
    (ham : a < m) (hmb : m < b) (hvalue : ∀ x ∈ Set.Icc a b, f (ofReal x) = ofReal (g x))
    (hfalls : StrictAntiOn (fun x => |g x|) (Set.Icc a m))
    (hrises : StrictMonoOn (fun x => |g x|) (Set.Icc m b)) :
    ∃ r x : ℝ, 0 < r ∧ r ^ 2 + r = 1 ∧ (goldenRatio : α) = ofReal r ∧
      minimizeAbs f (ofReal a) (ofReal b) = ofReal x ∧ |x - m| ≤ r ^ 60 * (b - a) / 2 ∧
      (dipSearch (ofReal a) (ofReal b)).run f = ofReal x ∧
      ∀ y ∈ (dipSearch (ofReal a) (ofReal b)).asked f, ∃ z ∈ Set.Icc a b, y = ofReal z := by
  have hab := ham.trans hmb
  have hdips : Dips f g a m b := ⟨hvalue, hfalls, hrises⟩
  obtain ⟨x, hx, hdistance⟩ :=
    hdips.exists_narrowOn refinements ⟨le_rfl, le_rfl, ⟨ham.le, hmb.le⟩, hab⟩
  rw [← hdips.minimizeAbs_eq_narrowOn hab] at hx
  have hlow : Inside a b (ofReal a : α) := ⟨a, Set.left_mem_Icc.mpr hab.le, rfl⟩
  have hhigh : Inside a b (ofReal b : α) := ⟨b, Set.right_mem_Icc.mpr hab.le, rfl⟩
  exact ⟨golden, x, golden_pos, golden_sq, goldenRatio_eq, hx, hdistance,
    (run_dipSearch f _ _).trans hx, fun y hy => inside_of_mem_asked_dipSearch hlow hhigh hy⟩

/-- The dip of a parabola that touches zero. -/
theorem minimizeAbs_near_dip_square :
    let f : PartialReal → PartialReal := fun y => y * y
    (-1 : ℝ) < 0 ∧ (0 : ℝ) < 2 ∧ (∀ x ∈ Set.Icc (-1 : ℝ) 2, f (.real x) = .real (x * x)) ∧
      StrictAntiOn (fun x : ℝ => |x * x|) (Set.Icc (-1) 0) ∧
      StrictMonoOn (fun x : ℝ => |x * x|) (Set.Icc 0 2) ∧
      ∃ r x : ℝ, 0 < r ∧ r ^ 2 + r = 1 ∧ (goldenRatio : PartialReal) = .real r ∧
        minimizeAbs f (.real (-1)) (.real 2) = .real x ∧ |x - 0| ≤ r ^ 60 * (2 - -1) / 2 ∧
        (dipSearch (.real (-1)) (.real 2)).run f = .real x ∧
        ∀ y ∈ (dipSearch (.real (-1)) (.real 2)).asked f, ∃ z ∈ Set.Icc (-1 : ℝ) 2, y = .real z := by
  intro f
  have hvalue : ∀ x ∈ Set.Icc (-1 : ℝ) 2, f (.real x) = .real (x * x) := fun _ _ => rfl
  have hfalls : StrictAntiOn (fun x : ℝ => |x * x|) (Set.Icc (-1) 0) := by
    intro x _ y hy hxy
    have hfall : 0 < (x - y) * (x + y) :=
      mul_pos_of_neg_of_neg (sub_neg.mpr hxy) (by linarith [hy.2])
    simp only [abs_mul_self]
    linarith
  have hrises : StrictMonoOn (fun x : ℝ => |x * x|) (Set.Icc 0 2) := by
    intro x hx y _ hxy
    simp only [abs_mul_self]
    exact mul_self_lt_mul_self hx.1 hxy
  have hlow : (-1 : ℝ) < 0 := by norm_num
  exact ⟨hlow, two_pos, hvalue, hfalls, hrises,
    minimizeAbs_near_dip hlow two_pos hvalue hfalls hrises⟩

end PhasePortrait.PhaseLine
