import PhasePortrait.Proofs.Number.Reach
import PhasePortrait.Proofs.PhaseLine.Candidates

/-!
# Positions on a phase line

On a range of moderate size every grid point and every candidate is a real number, and the search over
a change of sign does not leave its cell. Rounding carries a grid point or a probe of the search for a
dip a little past the ends of its range, but each step adds no more than `Double.slack`.

## Main definitions

* `PhaseLine.reach` — the size of the ranges that are followed here.
-/
namespace PhasePortrait.PhaseLine
open Scalar Double

variable {f : Float → Float} {a b c d : Float} {x y M : ℝ} {count : Nat}

/-! ## The search over a change of sign -/

theorem Halving.within {p q : Float × Float} (h : Halving f p q) (hx : Is p.1 x) (hy : Is p.2 y)
    (hxM : |x| ≤ largest / 2) (hyM : |y| ≤ largest / 2) :
    ∃ x' y' : ℝ, Is q.1 x' ∧ Is q.2 y' ∧ x' ∈ Set.uIcc x y ∧ y' ∈ Set.uIcc x y := by
  cases h with
  | upper =>
    obtain ⟨z, hz, hmem⟩ := is_middle hx hy hxM hyM
    exact ⟨z, y, hz, hy, hmem, Set.right_mem_uIcc⟩
  | lower =>
    obtain ⟨z, hz, hmem⟩ := is_middle hx hy hxM hyM
    exact ⟨x, z, hx, hz, Set.left_mem_uIcc, hmem⟩

theorem Halvings.within {k : Nat} {p q : Float × Float} (h : Halvings f k p q) (hx : Is p.1 x)
    (hy : Is p.2 y) (hxM : |x| ≤ largest / 2) (hyM : |y| ≤ largest / 2) :
    ∃ x' y' : ℝ, Is q.1 x' ∧ Is q.2 y' ∧ x' ∈ Set.uIcc x y ∧ y' ∈ Set.uIcc x y := by
  induction h generalizing x y with
  | refl => exact ⟨x, y, hx, hy, Set.left_mem_uIcc, Set.right_mem_uIcc⟩
  | step hstep _ ih =>
    obtain ⟨x₁, y₁, hx₁, hy₁, hxmem, hymem⟩ := hstep.within hx hy hxM hyM
    obtain ⟨x', y', hx', hy', hxmem', hymem'⟩ := ih hx₁ hy₁ (abs_le_of_mem_uIcc hxmem hxM hyM)
      (abs_le_of_mem_uIcc hymem hxM hyM)
    have hsubset := Set.uIcc_subset_uIcc hxmem hymem
    exact ⟨x', y', hx', hy', hsubset hxmem', hsubset hymem'⟩

/-- A bisection ends in its cell. -/
theorem is_bisect (hx : Is a x) (hy : Is b y) (hxM : |x| ≤ largest / 2) (hyM : |y| ≤ largest / 2) :
    ∃ z : ℝ, Is (bisect f a b (f a)) z ∧ z ∈ Set.uIcc x y := by
  obtain ⟨k, a', b', -, hs, heq, -⟩ := bisectFrom_eq f refinements a b
  obtain ⟨x', y', hx', hy', hxmem, hymem⟩ := hs.within hx hy hxM hyM
  obtain ⟨z, hz, hmem⟩ := is_middle hx' hy' (abs_le_of_mem_uIcc hxmem hxM hyM)
    (abs_le_of_mem_uIcc hymem hxM hyM)
  rw [bisect, heq]
  exact ⟨z, hz, Set.uIcc_subset_uIcc hxmem hymem hmem⟩

/-! ## The search for a dip -/

theorem is_goldenRatio : ∃ g : ℝ, Is (goldenRatio : Float) g ∧ 0 ≤ g ∧ g ≤ 1 := by
  have hunpack : (goldenRatio : Float).toModel.unpack =
      .finite .positive 5566755282872656 (-53) (by decide) := by
    with_unfolding_all rfl
  refine ⟨_, is_of_unpack hunpack, ?_, ?_⟩ <;> norm_num [factor]

/-- Two rounding errors displace a point between two others by no more than they amount to. -/
theorem abs_probe_le {g S e₁ e₂ : ℝ} (hg : 0 ≤ g) (hg' : g ≤ 1) (hx : |x| ≤ M) (hy : |y| ≤ M)
    (h₁ : |e₁| ≤ S) (h₂ : |e₂| ≤ S) : |y - (g * (y - x + e₁) + e₂)| ≤ M + 2 * S := by
  have hsplit : y - (g * (y - x + e₁) + e₂) = (1 - g) * y + g * x - (g * e₁ + e₂) := by ring
  have hconvex : |(1 - g) * y + g * x| ≤ M := by
    have hle : |(1 - g) * y| + |g * x| ≤ (1 - g) * M + g * M := by
      rw [abs_mul, abs_mul, abs_of_nonneg hg, abs_of_nonneg (sub_nonneg.mpr hg')]
      exact add_le_add (mul_le_mul_of_nonneg_left hy (sub_nonneg.mpr hg'))
        (mul_le_mul_of_nonneg_left hx hg)
    linarith [abs_add_le ((1 - g) * y) (g * x)]
  have herror : |g * e₁ + e₂| ≤ 2 * S := by
    have hge : |g * e₁| ≤ S := by
      rw [abs_mul, abs_of_nonneg hg]
      exact (mul_le_of_le_one_left (abs_nonneg e₁) hg').trans h₁
    linarith [abs_add_le (g * e₁) e₂]
  rw [hsplit]
  linarith [abs_sub ((1 - g) * y + g * x) (g * e₁ + e₂)]

/-- The part of a range that a probe cuts off, up to two rounding errors. -/
theorem is_cut (hx : Is a x) (hy : Is b y) (hxM : |x| ≤ largest / 2) (hyM : |y| ≤ largest / 2) :
    ∃ g e₁ e₂ : ℝ, 0 ≤ g ∧ g ≤ 1 ∧ |e₁| ≤ slack ∧ |e₂| ≤ slack ∧
      Is (goldenRatio * (b - a)) (g * (y - x + e₁) + e₂ : ℝ) := by
  obtain ⟨g, hg, hg0, hg1⟩ := is_goldenRatio
  have hwidth : |y - x| ≤ largest := by linarith [abs_sub y x]
  have hsub := hy.sub_of_abs_le hx hwidth
  have hproduct : |g * nearest (y - x)| ≤ largest := by
    rw [abs_mul, abs_of_nonneg hg0]
    exact (mul_le_of_le_one_left (abs_nonneg _) hg1).trans (abs_nearest_le_largest hwidth)
  refine ⟨g, nearest (y - x) - (y - x), nearest (g * nearest (y - x)) - g * nearest (y - x), hg0, hg1,
    abs_nearest_sub_le_slack hwidth, abs_nearest_sub_le_slack hproduct, ?_⟩
  have hvalue : g * (y - x + (nearest (y - x) - (y - x))) +
      (nearest (g * nearest (y - x)) - g * nearest (y - x)) = nearest (g * nearest (y - x)) := by
    ring
  rw [hvalue]
  exact hg.mul_of_abs_le hsub hproduct

theorem within_lowerProbe (ha : Within M a) (hb : Within M b) (hM : M ≤ largest / 2) :
    Within (M + 3 * slack) (lowerProbe a b) := by
  obtain ⟨x, hx, hxM⟩ := ha
  obtain ⟨y, hy, hyM⟩ := hb
  obtain ⟨g, e₁, e₂, hg0, hg1, h₁, h₂, hcut⟩ := is_cut hx hy (hxM.trans hM) (hyM.trans hM)
  have hprobe := abs_probe_le hg0 hg1 hxM hyM h₁ h₂
  have hrange : |y - (g * (y - x + e₁) + e₂)| ≤ largest := by linarith [slack_le, slack_pos]
  refine ⟨_, hy.sub_of_abs_le hcut hrange, ?_⟩
  have hround := abs_nearest_sub_le_slack hrange
  linarith [abs_sub_abs_le_abs_sub (nearest (y - (g * (y - x + e₁) + e₂)))
    (y - (g * (y - x + e₁) + e₂))]

theorem within_upperProbe (ha : Within M a) (hb : Within M b) (hM : M ≤ largest / 2) :
    Within (M + 3 * slack) (upperProbe a b) := by
  obtain ⟨x, hx, hxM⟩ := ha
  obtain ⟨y, hy, hyM⟩ := hb
  obtain ⟨g, e₁, e₂, hg0, hg1, h₁, h₂, hcut⟩ := is_cut hx hy (hxM.trans hM) (hyM.trans hM)
  have hprobe : |x + (g * (y - x + e₁) + e₂)| ≤ M + 2 * slack := by
    -- the mirror image of the lower probe
    have h := abs_probe_le hg0 hg1 (x := -y) (y := -x) ((abs_neg y).trans_le hyM)
      ((abs_neg x).trans_le hxM) h₁ h₂
    rwa [← abs_neg, show -(-x - (g * (-x - -y + e₁) + e₂)) = x + (g * (y - x + e₁) + e₂) by ring] at h
  have hrange : |x + (g * (y - x + e₁) + e₂)| ≤ largest := by linarith [slack_le, slack_pos]
  refine ⟨_, hx.add_of_abs_le hcut hrange, ?_⟩
  have hround := abs_nearest_sub_le_slack hrange
  linarith [abs_sub_abs_le_abs_sub (nearest (x + (g * (y - x + e₁) + e₂)))
    (x + (g * (y - x + e₁) + e₂))]

/-- Each round of the search adds one probe. -/
theorem within_narrow (ha : Within M a) (hb : Within M b) (hc : Within M c) (hd : Within M d)
    (hM : M + count * (3 * slack) ≤ largest / 2) (fc fd : Float) :
    Within (largest / 2) (narrow f count a b c d fc fd) := by
  have hslack := slack_pos
  induction count generalizing M a b c d fc fd with
  | zero =>
    rw [Nat.cast_zero, zero_mul, add_zero] at hM
    exact ((ha.middle hb hM).mono hM)
  | succ count ih =>
    push_cast at hM
    have hcount : (0 : ℝ) ≤ count * (3 * slack) := by positivity
    have hnow : M ≤ largest / 2 := by linarith
    have hrest : M + 3 * slack + count * (3 * slack) ≤ largest / 2 := by linarith
    have hmore : M ≤ M + 3 * slack := by linarith
    rw [narrow]
    split
    · exact ih (ha.mono hmore) (hd.mono hmore) (within_lowerProbe ha hd hnow) (hc.mono hmore) hrest _ _
    · exact ih (hc.mono hmore) (hb.mono hmore) (hd.mono hmore) (within_upperProbe hc hb hnow) hrest _ _

theorem within_minimizeAbs (ha : Within M a) (hb : Within M b)
    (hM : M + 61 * (3 * slack) ≤ largest / 2) : Within (largest / 2) (minimizeAbs f a b) := by
  have hslack := slack_pos
  have hnow : M ≤ largest / 2 := by linarith
  have hmore : M ≤ M + 3 * slack := by linarith
  rw [minimizeAbs]
  refine within_narrow (ha.mono hmore) (hb.mono hmore) (within_lowerProbe ha hb hnow)
    (within_upperProbe ha hb hnow) ?_ _ _
  rw [refinements]
  push_cast
  linarith

/-! ## The grid -/

theorem limit_mul_least_le_slack : limit * least ≤ slack :=
  limit_mul ▸ mul_le_mul_of_nonneg_left (zpow_le_zpow_right₀ one_le_two (by norm_num)) limit_pos.le

/-- Numbers up to one that is finite as a double are all so, and in order. -/
theorem is_natCast {i n : ℕ} (hn : isFinite (n : Float) = true) (hi : i ≤ n) :
    Is (i : Float) (nearest i : ℝ) ∧ nearest i ≤ nearest n ∧ nearest n ≤ limit := by
  obtain ⟨k, hk⟩ := isFinite_eq_true_iff.mp hn
  have hround : Double.round n = (k : EReal) := (is_ofNat n).unique hk
  have hmono : nearest i ≤ nearest n := nearest_mono (by exact_mod_cast hi)
  have hnonneg : 0 ≤ nearest i := nearest_nonneg (Nat.cast_nonneg i)
  have hlt : nearest n < limit := by
    refine lt_of_not_ge fun hge => ?_
    rw [Double.round, clip, if_neg (by linarith [limit_pos]), if_pos hge] at hround
    exact EReal.coe_ne_top k hround.symm
  have hclip : Double.round i = (nearest i : EReal) := by
    rw [Double.round, clip_eq]
    rw [abs_of_nonneg hnonneg]
    linarith
  refine ⟨?_, hmono, hlt.le⟩
  rw [← hclip]
  exact is_ofNat i

/-- A rounded share of a width is no larger than the width. -/
theorem nearest_share_le {i n w : ℝ} (hi : 0 ≤ i) (hin : i ≤ n) (hn : 0 < n) (hw : 0 ≤ w)
    (hdouble : nearest w = w) :
    0 ≤ nearest (i / n) * w ∧ nearest (i / n) * w ≤ w ∧
      nearest (nearest (i / n) * w) ≤ w := by
  have hratio0 : 0 ≤ nearest (i / n) := nearest_nonneg (div_nonneg hi hn.le)
  have hratio1 : nearest (i / n) ≤ 1 := by
    have h := nearest_mono ((div_le_one hn).mpr hin)
    rwa [nearest_one] at h
  have hle : nearest (i / n) * w ≤ w := mul_le_of_le_one_left hw hratio1
  refine ⟨mul_nonneg hratio0 hw, hle, ?_⟩
  have h := nearest_mono hle
  rwa [hdouble] at h

/-- The multiples of a rounded step are not much larger than the width. -/
theorem mul_nearest_step_le {i n w : ℝ} (hin : i ≤ n) (hn : 1 ≤ n) (hlimit : n ≤ limit) (hw : 0 ≤ w)
    (hwlimit : w ≤ largest) : i * nearest (w / n) ≤ w + 2 * slack := by
  have hn0 : 0 < n := by linarith
  have hquotient : 0 ≤ w / n := div_nonneg hw hn0.le
  have hstep : nearest (w / n) ≤ w / n + (w / n * 2 ^ (-52 : ℤ) + least) := by
    have h := abs_nearest_sub_le_scaled (w / n)
    rw [abs_of_nonneg hquotient] at h
    linarith [le_abs_self (nearest (w / n) - w / n)]
  have hrelative : w * 2 ^ (-52 : ℤ) ≤ slack :=
    limit_mul ▸ mul_le_mul_of_nonneg_right (hwlimit.trans largest_lt_limit.le) (zpow_pos two_pos _).le
  have habsolute : n * least ≤ slack :=
    (mul_le_mul_of_nonneg_right hlimit least_pos.le).trans limit_mul_least_le_slack
  calc i * nearest (w / n) ≤ n * (w / n + (w / n * 2 ^ (-52 : ℤ) + least)) :=
        mul_le_mul hin hstep (nearest_nonneg hquotient) hn0.le
    _ = w + w * 2 ^ (-52 : ℤ) + n * least := by
        field_simp
        ring
    _ ≤ w + 2 * slack := by linarith

/-- An offset that is not much larger than the width does not lead far past the high end. -/
theorem within_offset {o : Float} {p : ℝ} (ho : Is o p) (hx : Is a x) (hxM : |x| ≤ M) (hyM : |y| ≤ M)
    (hM : M + 6 * slack ≤ largest / 2) (hp0 : 0 ≤ p) (hp : p ≤ y - x + 4 * slack) :
    Within (M + 6 * slack) (o + a) := by
  have hslack := slack_pos
  have hxbounds := abs_le.mp hxM
  have hybounds := abs_le.mp hyM
  have hle : |p + x| ≤ M + 4 * slack := abs_le.mpr ⟨by linarith, by linarith⟩
  have hrange : |p + x| ≤ largest := by linarith
  refine ⟨_, ho.add_of_abs_le hx hrange, ?_⟩
  linarith [abs_sub_abs_le_abs_sub (nearest (p + x)) (p + x), abs_nearest_sub_le_slack hrange]

/-- The grid points stay in the range, up to the rounding of the step, its multiple and their sum. -/
theorem within_point {i : ℕ} (hx : Is a x) (hy : Is b y) (hxM : |x| ≤ M) (hyM : |y| ≤ M)
    (hM : M + 6 * slack ≤ largest / 2) (hxy : x ≤ y) (hcount : isFinite (count : Float) = true)
    (hpos : 0 < count) (hi : i ≤ count) : Within (M + 6 * slack) (Grid.point a b count i) := by
  have hslack := slack_pos
  have hxbounds := abs_le.mp hxM
  have hybounds := abs_le.mp hyM
  rw [Grid.point]
  split
  · exact ⟨y, hy, by linarith⟩
  obtain ⟨hI, hIN, hN⟩ := is_natCast hcount hi
  obtain ⟨hcast, -, -⟩ := is_natCast hcount le_rfl
  have hI0 : 0 ≤ nearest i := nearest_nonneg (Nat.cast_nonneg i)
  have hN1 : 1 ≤ nearest count := by
    rw [← nearest_one]
    exact nearest_mono (by exact_mod_cast hpos)
  have hN0 : 0 < nearest count := by linarith
  have hwidth : |y - x| ≤ largest := by
    rw [abs_of_nonneg (sub_nonneg.mpr hxy)]
    linarith
  have hsub := hy.sub_of_abs_le hx hwidth
  have hw0 : 0 ≤ nearest (y - x) := nearest_nonneg (sub_nonneg.mpr hxy)
  have hwle : nearest (y - x) ≤ y - x + slack := by
    linarith [le_abs_self (nearest (y - x) - (y - x)), abs_nearest_sub_le_slack hwidth]
  have hwlargest : nearest (y - x) ≤ largest := (le_abs_self _).trans (abs_nearest_le_largest hwidth)
  dsimp only
  split
  · have hratio0 : 0 ≤ nearest i / nearest count := div_nonneg hI0 hN0.le
    have hratio1 : nearest i / nearest count ≤ 1 := (div_le_one hN0).mpr hIN
    have hratio := hI.div_of_abs_le hcast hN0.ne'
      (by rw [abs_of_nonneg hratio0]; linarith [one_le_largest])
    obtain ⟨hp0, hpw, hpn⟩ := nearest_share_le hI0 hIN hN0 hw0 hsub.nearest_eq
    have hoffset := hratio.mul_of_abs_le hsub (by rw [abs_of_nonneg hp0]; linarith)
    exact within_offset hoffset hx hxM hyM hM (nearest_nonneg hp0) (by linarith)
  · have hquotient0 : 0 ≤ nearest (y - x) / nearest count := div_nonneg hw0 hN0.le
    have hquotient : nearest (y - x) / nearest count ≤ nearest (y - x) := div_le_self hw0 hN1
    have hstep := hsub.div_of_abs_le hcast hN0.ne' (by rw [abs_of_nonneg hquotient0]; linarith)
    have hp0 := mul_nonneg hI0 (nearest_nonneg hquotient0)
    have hp := mul_nearest_step_le hIN hN1 hN hw0 hwlargest
    have hrange : |nearest i * nearest (nearest (y - x) / nearest count)| ≤ largest := by
      rw [abs_of_nonneg hp0]
      linarith
    refine within_offset (hI.mul_of_abs_le hstep hrange) hx hxM hyM hM (nearest_nonneg hp0) ?_
    linarith [le_abs_self (nearest (nearest i * nearest (nearest (y - x) / nearest count)) -
      nearest i * nearest (nearest (y - x) / nearest count)), abs_nearest_sub_le_slack hrange]

/-! ## Ranges of moderate size -/

/-- A little less than half of the largest double, so that rounding errors have room. -/
noncomputable def reach : ℝ := 0.4995 * largest

theorem is_bound : ∃ x : ℝ, Is (8.9e307 : Float) x ∧ x ≤ reach := by
  have hbits : (8.9e307 : Float) = Float.ofBits 0x7fdfaf5f8d197479 := by decide +kernel
  have hunpack : (Float.ofBits 0x7fdfaf5f8d197479).toModel.unpack =
      .finite .positive 8918549202039929 970 (by decide) := rfl
  have hpower : (0 : ℝ) < 2 ^ (970 : ℤ) := zpow_pos two_pos _
  refine ⟨_, hbits ▸ is_of_unpack hunpack, ?_⟩
  rw [reach, largest, factor, show (971 : ℤ) = 1 + 970 by norm_num, zpow_one_add₀ two_ne_zero]
  generalize (2 : ℝ) ^ (970 : ℤ) = t at hpower
  push_cast
  linarith

theorem within_reach (h : abs a ≤ 8.9e307) : ∃ x : ℝ, Is a x ∧ |x| ≤ reach := by
  have hlt : abs a < 1e308 := Double.lt_of_le_of_lt h (by decide +kernel)
  obtain ⟨x, hx⟩ := isFinite_eq_true_iff.mp (isFinite_of_abs_lt hlt)
  obtain ⟨y, hy, hle⟩ := is_bound
  exact ⟨x, hx, (EReal.coe_le_coe_iff.mp ((le_iff hx.abs hy).mp h)).trans hle⟩

theorem reach_add_le : reach + 6 * slack + 61 * (3 * slack) ≤ largest / 2 := by
  rw [reach]
  linarith [slack_le, slack_pos]

end PhasePortrait.PhaseLine
