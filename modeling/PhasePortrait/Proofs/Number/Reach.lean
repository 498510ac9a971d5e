import PhasePortrait.Proofs.Number.Arithmetic

/-!
# Doubles of moderate size

Sums and differences of doubles up to half of the largest one do not overflow, and none of them is
further from the exact result than one part in `2 ^ 52` of the range. Rounding moves whole numbers by a
minute part of them. The middle of two such doubles lies between them.

## Main definitions

* `Double.Within M a` — the double `a` is a real number of at most the size `M`.
* `Double.slack` — how far rounding carries a number that is in range.
-/
namespace PhasePortrait.Double

variable {a b : Float} {x y M N : ℝ}

/-- The double `a` is a real number of at most this size. -/
def Within (M : ℝ) (a : Float) : Prop := ∃ x : ℝ, Is a x ∧ |x| ≤ M

theorem Within.mono (h : Within M a) (hMN : M ≤ N) : Within N a := by
  obtain ⟨x, hx, hle⟩ := h
  exact ⟨x, hx, hle.trans hMN⟩

/-! ## Results in range -/

theorem Is.add_of_abs_le (ha : Is a x) (hb : Is b y) (h : |x + y| ≤ largest) :
    Is (a + b) (nearest (x + y) : ℝ) := by
  rw [← round_eq_nearest h]
  exact ha.add hb

theorem Is.sub_of_abs_le (ha : Is a x) (hb : Is b y) (h : |x - y| ≤ largest) :
    Is (a - b) (nearest (x - y) : ℝ) := by
  rw [← round_eq_nearest h]
  exact ha.sub hb

theorem Is.mul_of_abs_le (ha : Is a x) (hb : Is b y) (h : |x * y| ≤ largest) :
    Is (a * b) (nearest (x * y) : ℝ) := by
  rw [← round_eq_nearest h]
  exact ha.mul hb

theorem Is.div_of_abs_le (ha : Is a x) (hb : Is b y) (hy : y ≠ 0) (h : |x / y| ≤ largest) :
    Is (a / b) (nearest (x / y) : ℝ) := by
  rw [← round_eq_nearest h]
  exact ha.div hb hy

theorem abs_nearest_le_largest (h : |x| ≤ largest) : |nearest x| ≤ largest :=
  abs_nearest_le nearest_largest h

/-! ## Products -/

/-- A negative product that is not minute does not round to zero. -/
theorem mul_neg_of_le (ha : Is a x) (hb : Is b y) (h : x * y ≤ -2 ^ (-80 : ℤ)) : a * b < 0.0 := by
  have hdouble : nearest (-2 ^ (-80 : ℤ)) = -2 ^ (-80 : ℤ) := by
    have hdyadic := nearest_dyadic (k := -1) (e := -80) (by norm_num) (by norm_num)
    rwa [Int.cast_neg, Int.cast_one, neg_one_mul] at hdyadic
  have hsize : |(-2 ^ (-80 : ℤ) : ℝ)| < limit := by
    rw [abs_neg, abs_of_pos (zpow_pos two_pos _), limit_eq]
    exact zpow_lt_zpow_right₀ one_lt_two (by norm_num)
  refine (lt_iff (ha.mul hb) is_zero).mpr ?_
  calc round (x * y) ≤ round (-2 ^ (-80 : ℤ)) := round_mono h
    _ = (-2 ^ (-80 : ℤ) : ℝ) := Double.round_eq hdouble hsize
    _ < (0 : ℝ) := EReal.coe_lt_coe_iff.mpr (neg_neg_of_pos (zpow_pos two_pos _))

/-! ## How far rounding carries -/

/-- The unit in the last place of numbers that are just out of range. -/
noncomputable def slack : ℝ := ulp limit

theorem slack_pos : 0 < slack := ulp_pos _

theorem slack_eq : slack = 2 * 2 ^ (971 : ℤ) := by
  have hlog : Int.log 2 |limit| = 1024 := by
    have h := Int.log_zpow (R := ℝ) one_lt_two 1024
    rwa [abs_of_pos limit_pos, limit_eq, ← Nat.cast_ofNat]
  rw [slack, ulp, lastExponent, hlog, ← zpow_one_add₀ two_ne_zero]
  norm_num

theorem limit_mul : limit * 2 ^ (-52 : ℤ) = slack := by
  rw [slack_eq, limit_eq, ← zpow_add₀ two_ne_zero, ← zpow_one_add₀ two_ne_zero]
  norm_num

theorem slack_le : 2 ^ 40 * slack ≤ largest := by
  have hpower : (0 : ℝ) < 2 ^ (971 : ℤ) := zpow_pos two_pos _
  rw [slack_eq, largest]
  generalize (2 : ℝ) ^ (971 : ℤ) = t at hpower
  linarith

theorem largest_mul_add_least_le_slack : largest * 2 ^ (-52 : ℤ) + least ≤ slack := by
  have hleast : least ≤ (2 : ℝ) ^ (971 : ℤ) * 2 ^ (-52 : ℤ) := by
    rw [least, ← zpow_add₀ two_ne_zero]
    exact zpow_le_zpow_right₀ one_le_two (by norm_num)
  rw [← limit_mul, ← largest_add, add_mul]
  exact add_le_add_right hleast _

theorem abs_nearest_sub_le_slack (h : |x| ≤ largest) : |nearest x - x| ≤ slack :=
  calc |nearest x - x| ≤ |x| * 2 ^ (-52 : ℤ) + least := abs_nearest_sub_le_scaled x
    _ ≤ largest * 2 ^ (-52 : ℤ) + least :=
        add_le_add_left (mul_le_mul_of_nonneg_right h (zpow_pos two_pos _).le) _
    _ ≤ slack := largest_mul_add_least_le_slack

/-! ## Whole numbers -/

theorem is_natCast_of_cast_le {n : ℕ} (hn : (n : ℝ) ≤ largest) : Is (n : Float) (nearest n : ℝ) := by
  rw [← round_eq_nearest (by rwa [Nat.abs_cast])]
  exact is_ofNat n

/-- Whole numbers of this size are far from the ends of the range. -/
theorem is_natCast_of_le {n : ℕ} (hn : n ≤ 2 ^ 65) : Is (n : Float) (nearest n : ℝ) := by
  have hcast : (n : ℝ) ≤ 2 ^ 65 := by exact_mod_cast hn
  have hpower : (2 : ℝ) ^ (65 : ℕ) ≤ 2 ^ (971 : ℤ) := by
    rw [← zpow_natCast]
    exact zpow_le_zpow_right₀ one_le_two (by norm_num)
  refine is_natCast_of_cast_le ?_
  calc (n : ℝ) ≤ 2 ^ (971 : ℤ) := hcast.trans hpower
    _ ≤ largest := le_mul_of_one_le_left (zpow_pos two_pos _).le (by norm_num)

/-- Rounding moves a positive whole number by a minute part of it. -/
theorem abs_nearest_natCast_sub_le {n : ℕ} (hn : 0 < n) : |nearest n - n| ≤ n * 2 ^ (-20 : ℤ) := by
  have hcast : (1 : ℝ) ≤ n := by exact_mod_cast hn
  have hsmall : (2 : ℝ) ^ (-52 : ℤ) + least ≤ 2 ^ (-20 : ℤ) := by
    have hleast : least ≤ 2 ^ (-52 : ℤ) := zpow_le_zpow_right₀ one_le_two (by norm_num)
    have htwice : (2 : ℝ) ^ (-52 : ℤ) + 2 ^ (-52 : ℤ) ≤ 2 ^ (-20 : ℤ) := by norm_num
    linarith
  calc |nearest n - n| ≤ |(n : ℝ)| * 2 ^ (-52 : ℤ) + least := abs_nearest_sub_le_scaled _
    _ ≤ n * 2 ^ (-52 : ℤ) + n * least := by
        rw [Nat.abs_cast]
        exact add_le_add_right (le_mul_of_one_le_left least_pos.le hcast) _
    _ ≤ n * 2 ^ (-20 : ℤ) := by
        rw [← mul_add]
        exact mul_le_mul_of_nonneg_left hsmall (Nat.cast_nonneg n)

/-! ## Middles -/

/-- The middle of two doubles lies between them, since these are doubles. -/
theorem is_middle (ha : Is a x) (hb : Is b y) (hx : |x| ≤ largest / 2) (hy : |y| ≤ largest / 2) :
    ∃ z : ℝ, Is (0.5 * (a + b)) z ∧ z ∈ Set.uIcc x y := by
  have hsum : |x + y| ≤ largest := by
    have := abs_add_le x y
    linarith
  have hadd := ha.add_of_abs_le hb hsum
  have hhalf : |1 / 2 * nearest (x + y)| ≤ largest := by
    have hle := abs_nearest_le_largest hsum
    rw [abs_mul, abs_of_pos one_half_pos]
    linarith [abs_nonneg (nearest (x + y))]
  refine ⟨_, is_half.mul_of_abs_le hadd hhalf, ?_⟩
  have hbetween : ∀ {x y : ℝ}, nearest x = x → nearest y = y → x ≤ y →
      nearest (1 / 2 * nearest (x + y)) ∈ Set.Icc x y := by
    intro x y hx hy hle
    have hlo : nearest (2 * x) ≤ nearest (x + y) := nearest_mono (by linarith)
    have hhi : nearest (x + y) ≤ nearest (2 * y) := nearest_mono (by linarith)
    rw [nearest_two_mul hx] at hlo
    rw [nearest_two_mul hy] at hhi
    constructor
    · calc x = nearest x := hx.symm
        _ ≤ nearest (1 / 2 * nearest (x + y)) := nearest_mono (by linarith)
    · calc nearest (1 / 2 * nearest (x + y)) ≤ nearest y := nearest_mono (by linarith)
        _ = y := hy
  rcases le_total x y with hle | hle
  · rw [Set.uIcc_of_le hle]
    exact hbetween ha.nearest_eq hb.nearest_eq hle
  · rw [Set.uIcc_of_ge hle, add_comm]
    exact hbetween hb.nearest_eq ha.nearest_eq hle

theorem abs_le_of_mem_uIcc {z : ℝ} (hz : z ∈ Set.uIcc x y) (hx : |x| ≤ M) (hy : |y| ≤ M) : |z| ≤ M := by
  have hsubset : Set.uIcc x y ⊆ Set.Icc (-M) M :=
    Set.uIcc_subset_Icc (abs_le.mp hx) (abs_le.mp hy)
  exact abs_le.mpr (hsubset hz)

theorem Within.middle (ha : Within M a) (hb : Within M b) (hM : M ≤ largest / 2) :
    Within M (0.5 * (a + b)) := by
  obtain ⟨x, hx, hxM⟩ := ha
  obtain ⟨y, hy, hyM⟩ := hb
  obtain ⟨z, hz, hmem⟩ := is_middle hx hy (hxM.trans hM) (hyM.trans hM)
  exact ⟨z, hz, abs_le_of_mem_uIcc hmem hxM hyM⟩

end PhasePortrait.Double
