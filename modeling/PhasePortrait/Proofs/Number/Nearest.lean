import Mathlib.Data.EReal.Basic
import Mathlib.Data.Int.Log
import Mathlib.Tactic.NormNum
import Mathlib.Tactic.Positivity
import Mathlib.Tactic.Ring

/-!
# Rounding real numbers to doubles

The double nearest to a real number, of two the one with the even last digit. Rounding keeps the order
and leaves the numbers alone that doubles represent, so it never carries a number past one of these.

## Main definitions

* `Double.roundEven x` — the whole number nearest to `x`.
* `Double.nearest x` — the number nearest to `x` with 53 binary digits, none of them below the last one
  that doubles have.
* `Double.round x` — the same, or an infinity where it is out of range.
-/
namespace PhasePortrait.Double
variable {x y : ℝ}

/-! ## Whole numbers -/

/-- The whole number nearest to a real one, the even one of two. -/
noncomputable def roundEven (x : ℝ) : ℤ :=
  if Int.fract x < 1 / 2 then ⌊x⌋
  else if Int.fract x = 1 / 2 then ⌊x⌋ + ⌊x⌋ % 2
  else ⌊x⌋ + 1

@[simp] theorem roundEven_intCast (k : ℤ) : roundEven k = k := by simp [roundEven]

theorem floor_le_roundEven (x : ℝ) : ⌊x⌋ ≤ roundEven x := by
  unfold roundEven
  split_ifs <;> omega

theorem roundEven_le_floor_add_one (x : ℝ) : roundEven x ≤ ⌊x⌋ + 1 := by
  unfold roundEven
  split_ifs <;> omega

theorem roundEven_mono (h : x ≤ y) : roundEven x ≤ roundEven y := by
  rcases (Int.floor_mono h).lt_or_eq with hfloor | hfloor
  · have hx := roundEven_le_floor_add_one x
    have hy := floor_le_roundEven y
    omega
  · have hfract : Int.fract x ≤ Int.fract y := by
      unfold Int.fract
      rw [hfloor]
      linarith
    unfold roundEven
    rw [hfloor]
    split_ifs <;> first | omega | (exfalso; grind)

theorem roundEven_neg (x : ℝ) : roundEven (-x) = -roundEven x := by
  rcases (Int.fract_nonneg x).eq_or_lt with hzero | hpos
  · obtain ⟨k, rfl⟩ : ∃ k : ℤ, x = k := ⟨⌊x⌋, by rw [← sub_eq_zero]; exact hzero.symm⟩
    rw [← Int.cast_neg, roundEven_intCast, roundEven_intCast]
  · have hfract : Int.fract (-x) = 1 - Int.fract x := Int.fract_neg hpos.ne'
    have hfloor : ⌊-x⌋ = -⌊x⌋ - 1 := by
      have h : ((⌊-x⌋ : ℤ) : ℝ) = ((-⌊x⌋ - 1 : ℤ) : ℝ) := by
        have hx := Int.floor_add_fract x
        have hneg := Int.floor_add_fract (-x)
        push_cast
        linarith
      exact_mod_cast h
    unfold roundEven
    rw [hfract, hfloor]
    split_ifs <;> first | omega | (exfalso; grind)

theorem abs_roundEven_sub_le (x : ℝ) : |roundEven x - x| ≤ 1 / 2 := by
  have hx := Int.floor_add_fract x
  have hlt := Int.fract_lt_one x
  have hnonneg := Int.fract_nonneg x
  unfold roundEven
  split_ifs with hbelow hhalf
  · rw [abs_le]
    constructor <;> linarith
  · have hparity : ((⌊x⌋ % 2 : ℤ) : ℝ) = 0 ∨ ((⌊x⌋ % 2 : ℤ) : ℝ) = 1 := by
      rcases Int.emod_two_eq_zero_or_one ⌊x⌋ with h | h <;> simp [h]
    push_cast at hparity ⊢
    rw [abs_le]
    rcases hparity with h | h <;> constructor <;> linarith
  · push_cast
    rw [abs_le]
    constructor <;> linarith

/-! ## The distance of neighbouring doubles -/

/-- The exponent of the last of 53 digits, or of the last one that doubles have. -/
noncomputable def lastExponent (x : ℝ) : ℤ := max (Int.log 2 |x| - 52) (-1074)

/-- The unit in the last place. -/
noncomputable def ulp (x : ℝ) : ℝ := 2 ^ lastExponent x

theorem ulp_pos (x : ℝ) : 0 < ulp x := zpow_pos two_pos _

@[simp] theorem lastExponent_neg (x : ℝ) : lastExponent (-x) = lastExponent x := by
  simp [lastExponent]

@[simp] theorem ulp_neg (x : ℝ) : ulp (-x) = ulp x := by simp [ulp]

theorem abs_lt_ulp (x : ℝ) : |x| < 2 ^ 53 * ulp x := by
  have hlog : Int.log 2 |x| + 1 ≤ 53 + lastExponent x := by
    unfold lastExponent
    omega
  calc |x| < (2 : ℕ) ^ (Int.log 2 |x| + 1) := Int.lt_zpow_succ_log_self one_lt_two _
    _ ≤ (2 : ℝ) ^ (53 + lastExponent x) := by
        rw [Nat.cast_two]
        exact zpow_le_zpow_right₀ one_le_two hlog
    _ = 2 ^ 53 * ulp x := by
        rw [zpow_add₀ two_ne_zero, ulp]
        norm_num

theorem ulp_le_abs (hx : x ≠ 0) (hlast : -1074 < lastExponent x) : 2 ^ 52 * ulp x ≤ |x| := by
  have hlog : 52 + lastExponent x = Int.log 2 |x| := by
    unfold lastExponent at hlast ⊢
    omega
  calc 2 ^ 52 * ulp x = (2 : ℝ) ^ (52 + lastExponent x) := by
        rw [zpow_add₀ two_ne_zero, ulp]
        norm_num
    _ = (2 : ℕ) ^ Int.log 2 |x| := by rw [hlog, Nat.cast_two]
    _ ≤ |x| := Int.zpow_log_le_self one_lt_two (abs_pos.mpr hx)

theorem lastExponent_mono (hx : x ≠ 0) (h : |x| ≤ |y|) : lastExponent x ≤ lastExponent y := by
  have hlog := Int.log_mono_right (b := 2) (abs_pos.mpr hx) h
  unfold lastExponent
  omega

/-- The least positive double. -/
noncomputable def least : ℝ := 2 ^ (-1074 : ℤ)

theorem least_pos : 0 < least := zpow_pos two_pos _

theorem ulp_le (hx : x ≠ 0) : ulp x ≤ |x| * 2 ^ (-52 : ℤ) + least := by
  rcases eq_or_ne (lastExponent x) (-1074) with hlast | hlast
  · rw [ulp, hlast]
    exact le_add_of_nonneg_left (mul_nonneg (abs_nonneg x) (zpow_pos two_pos _).le)
  · have hbelow : -1074 < lastExponent x := lt_of_le_of_ne (le_max_right _ _) hlast.symm
    have hscaled : ulp x ≤ |x| * 2 ^ (-52 : ℤ) := by
      have hulp := ulp_le_abs hx hbelow
      rw [zpow_neg, ← div_eq_mul_inv, le_div_iff₀ (zpow_pos two_pos _), zpow_ofNat]
      linarith
    exact hscaled.trans (le_add_of_nonneg_right least_pos.le)

/-! ## The nearest double -/

/-- The nearest multiple of the unit in the last place. -/
noncomputable def nearest (x : ℝ) : ℝ := roundEven (x / ulp x) * ulp x

@[simp] theorem nearest_zero : nearest 0 = 0 := by
  simp [nearest, show roundEven 0 = 0 from mod_cast roundEven_intCast 0]

@[simp] theorem nearest_neg (x : ℝ) : nearest (-x) = -nearest x := by
  simp [nearest, neg_div, roundEven_neg]

theorem abs_nearest_sub_le (x : ℝ) : |nearest x - x| ≤ ulp x / 2 := by
  have hpos := ulp_pos x
  have hscaled : nearest x - x = (roundEven (x / ulp x) - x / ulp x) * ulp x := by
    rw [sub_mul, div_mul_cancel₀ _ hpos.ne', nearest]
  rw [hscaled, abs_mul, abs_of_pos hpos]
  nlinarith [abs_roundEven_sub_le (x / ulp x)]

/-- How far rounding carries a number, whatever its size. -/
theorem abs_nearest_sub_le_scaled (x : ℝ) :
    |nearest x - x| ≤ |x| * 2 ^ (-52 : ℤ) + least := by
  rcases eq_or_ne x 0 with rfl | hx
  · simpa using least_pos.le
  · linarith [abs_nearest_sub_le x, ulp_le hx, ulp_pos x]

theorem nearest_nonneg (hx : 0 ≤ x) : 0 ≤ nearest x := by
  have hround : 0 ≤ roundEven (x / ulp x) := by
    rw [← roundEven_intCast 0]
    exact roundEven_mono (by simpa using div_nonneg hx (ulp_pos x).le)
  exact mul_nonneg (mod_cast hround) (ulp_pos x).le

theorem abs_roundEven_div_ulp_le (x : ℝ) : |roundEven (x / ulp x)| ≤ 2 ^ 53 := by
  have hquotient : |x / ulp x| ≤ ((2 ^ 53 : ℤ) : ℝ) := by
    rw [abs_div, abs_of_pos (ulp_pos x), div_le_iff₀ (ulp_pos x), Int.cast_pow, Int.cast_ofNat]
    exact (abs_lt_ulp x).le
  rw [abs_le] at hquotient ⊢
  have hlo := roundEven_mono hquotient.1
  have hhi := roundEven_mono hquotient.2
  rw [roundEven_neg, roundEven_intCast] at hlo
  rw [roundEven_intCast] at hhi
  exact ⟨hlo, hhi⟩

theorem nearest_le_ulp (x : ℝ) : nearest x ≤ 2 ^ 53 * ulp x :=
  mul_le_mul_of_nonneg_right (mod_cast (abs_le.mp (abs_roundEven_div_ulp_le x)).2) (ulp_pos x).le

theorem ulp_le_nearest (hx : 0 < x) (hlast : -1074 < lastExponent x) :
    2 ^ 52 * ulp x ≤ nearest x := by
  have hquotient : ((2 ^ 52 : ℤ) : ℝ) ≤ x / ulp x := by
    rw [le_div_iff₀ (ulp_pos x), Int.cast_pow, Int.cast_ofNat]
    exact (ulp_le_abs hx.ne' hlast).trans_eq (abs_of_pos hx)
  have hround : 2 ^ 52 ≤ roundEven (x / ulp x) := by
    rw [← roundEven_intCast (2 ^ 52)]
    exact roundEven_mono hquotient
  exact mul_le_mul_of_nonneg_right (mod_cast hround) (ulp_pos x).le

/-- Among positive numbers: with one unit by rounding to whole numbers, and with two because the power
of two between them stays between them. -/
theorem nearest_mono_of_pos (hx : 0 < x) (h : x ≤ y) : nearest x ≤ nearest y := by
  have hy : 0 < y := hx.trans_le h
  have hlast : lastExponent x ≤ lastExponent y := by
    refine lastExponent_mono hx.ne' ?_
    rwa [abs_of_pos hx, abs_of_pos hy]
  rcases hlast.eq_or_lt with hsame | hless
  · have hulp : ulp x = ulp y := by rw [ulp, ulp, hsame]
    have hround : roundEven (x / ulp x) ≤ roundEven (y / ulp y) := by
      rw [hulp]
      exact roundEven_mono (div_le_div_of_nonneg_right h (ulp_pos y).le)
    rw [nearest, nearest, ← hulp]
    rw [← hulp] at hround
    exact mul_le_mul_of_nonneg_right (mod_cast hround) (ulp_pos x).le
  · have hbelow : -1074 < lastExponent y := lt_of_le_of_lt (le_max_right _ _) hless
    calc nearest x ≤ 2 ^ 53 * ulp x := nearest_le_ulp x
      _ = 2 ^ 52 * 2 ^ (lastExponent x + 1) := by
          rw [ulp, zpow_add_one₀ two_ne_zero]
          ring
      _ ≤ 2 ^ 52 * ulp y :=
          mul_le_mul_of_nonneg_left (zpow_le_zpow_right₀ one_le_two hless) (by positivity)
      _ ≤ nearest y := ulp_le_nearest hy hbelow

theorem nearest_mono (h : x ≤ y) : nearest x ≤ nearest y := by
  rcases lt_or_ge 0 x with hx | hx
  · exact nearest_mono_of_pos hx h
  · rcases lt_or_ge y 0 with hy | hy
    · have hneg := nearest_mono_of_pos (neg_pos.mpr hy) (neg_le_neg h)
      simpa using hneg
    · have hneg := nearest_nonneg (neg_nonneg.mpr hx)
      rw [nearest_neg] at hneg
      exact (neg_nonneg.mp hneg).trans (nearest_nonneg hy)

/-! ## Numbers that doubles represent -/

theorem lastExponent_le {k e : ℤ} (hk : k ≠ 0) (hsize : |k| < 2 ^ 53) (he : -1074 ≤ e) :
    lastExponent (k * 2 ^ e) ≤ e := by
  have hpower : (0 : ℝ) < 2 ^ e := zpow_pos two_pos e
  have habs : |(k : ℝ) * 2 ^ e| = |(k : ℝ)| * 2 ^ e := by rw [abs_mul, abs_of_pos hpower]
  have hpos : 0 < |(k : ℝ)| * 2 ^ e := mul_pos (abs_pos.mpr (mod_cast hk)) hpower
  have hlt : |(k : ℝ)| * 2 ^ e < (2 : ℕ) ^ (53 + e) := by
    rw [Nat.cast_two, zpow_add₀ two_ne_zero]
    have hcast : |(k : ℝ)| < 2 ^ (53 : ℤ) := by exact_mod_cast hsize
    exact mul_lt_mul_of_pos_right hcast hpower
  have hlog := (Int.lt_zpow_iff_log_lt one_lt_two hpos).mp hlt
  rw [lastExponent, habs]
  omega

theorem nearest_of_lt {k e : ℤ} (hsize : |k| < 2 ^ 53) (he : -1074 ≤ e) :
    nearest (k * 2 ^ e) = k * 2 ^ e := by
  rcases eq_or_ne k 0 with rfl | hk
  · simp
  · obtain ⟨n, hn⟩ := Int.eq_ofNat_of_zero_le (sub_nonneg.mpr (lastExponent_le hk hsize he))
    set E := lastExponent (k * 2 ^ e) with hE
    have hscale : (2 : ℝ) ^ e = 2 ^ n * 2 ^ E := by
      rw [← zpow_natCast, ← zpow_add₀ two_ne_zero]
      congr 1
      omega
    have hquotient : (k : ℝ) * 2 ^ e / ulp (k * 2 ^ e) = ((k * 2 ^ n : ℤ) : ℝ) := by
      rw [ulp, ← hE, hscale, ← mul_assoc, mul_div_assoc, div_self (zpow_pos two_pos E).ne']
      push_cast
      ring
    rw [nearest, hquotient, roundEven_intCast, ulp, ← hE, hscale]
    push_cast
    ring

/-- A multiple of a power of two with at most 53 digits is left alone. -/
theorem nearest_dyadic {k e : ℤ} (hsize : |k| ≤ 2 ^ 53) (he : -1074 ≤ e) :
    nearest (k * 2 ^ e) = k * 2 ^ e := by
  rcases hsize.lt_or_eq with hlt | heq
  · exact nearest_of_lt hlt he
  · have hpower : ∀ s : ℤ, |s| = 1 → nearest (s * 2 ^ 53 * 2 ^ e) = s * 2 ^ 53 * 2 ^ e := by
      intro s hs
      have hhalf : ((s * 2 ^ 52 : ℤ) : ℝ) * 2 ^ (e + 1) = s * 2 ^ 53 * 2 ^ e := by
        rw [zpow_add_one₀ two_ne_zero]
        push_cast
        ring
      rw [← hhalf]
      exact nearest_of_lt (by rw [abs_mul, hs]; norm_num) (by omega)
    rcases (abs_eq (by norm_num)).mp heq with rfl | rfl
    · simpa only [Int.cast_one, one_mul, Int.cast_pow, Int.cast_ofNat] using hpower 1 rfl
    · simpa only [Int.cast_neg, Int.cast_one, neg_one_mul, Int.cast_pow, Int.cast_ofNat]
        using hpower (-1) rfl

theorem exists_dyadic (x : ℝ) : ∃ k e : ℤ, |k| ≤ 2 ^ 53 ∧ -1074 ≤ e ∧ nearest x = k * 2 ^ e :=
  ⟨roundEven (x / ulp x), lastExponent x, abs_roundEven_div_ulp_le x, le_max_right _ _, rfl⟩

theorem nearest_two_mul (h : nearest x = x) : nearest (2 * x) = 2 * x := by
  obtain ⟨k, e, hk, he, hx⟩ := exists_dyadic x
  rw [h] at hx
  have hdouble : 2 * x = k * 2 ^ (e + 1) := by
    rw [hx, zpow_add_one₀ two_ne_zero]
    ring
  rw [hdouble]
  exact nearest_dyadic hk (by omega)

@[simp] theorem nearest_one : nearest 1 = 1 := by
  have h := nearest_dyadic (k := 1) (e := 0) (by norm_num) (by norm_num)
  rwa [zpow_zero, mul_one, Int.cast_one] at h

/-- Rounding does not carry a number past one that doubles represent. -/
theorem abs_nearest_le (hy : nearest y = y) (h : |x| ≤ y) : |nearest x| ≤ y := by
  rw [abs_le] at h ⊢
  have hlo := nearest_mono h.1
  have hhi := nearest_mono h.2
  rw [nearest_neg, hy] at hlo
  rw [hy] at hhi
  exact ⟨hlo, hhi⟩

/-! ## Overflow -/

/-- The first power of two that is out of range. -/
noncomputable def limit : ℝ := 2 ^ 1024

theorem limit_pos : 0 < limit := pow_pos two_pos _

theorem limit_eq : limit = 2 ^ (1024 : ℤ) := by rw [limit, zpow_ofNat]

/-- What becomes of a number with 53 digits that may be out of range. -/
noncomputable def clip (x : ℝ) : EReal := if x ≤ -limit then ⊥ else if limit ≤ x then ⊤ else x

/-- The double nearest to a real number. -/
noncomputable def round (x : ℝ) : EReal := clip (nearest x)

theorem clip_eq (h : |x| < limit) : clip x = x := by
  rw [abs_lt] at h
  rw [clip, if_neg h.1.not_ge, if_neg h.2.not_ge]

/-- The largest double. -/
noncomputable def largest : ℝ := (2 ^ 53 - 1) * 2 ^ (971 : ℤ)

theorem largest_add : largest + 2 ^ (971 : ℤ) = limit := by
  rw [largest, limit_eq, show (1024 : ℤ) = 53 + 971 by norm_num, zpow_add₀ two_ne_zero]
  ring

theorem largest_lt_limit : largest < limit := by
  rw [← largest_add]
  exact lt_add_of_pos_right _ (zpow_pos two_pos _)

theorem one_le_largest : 1 ≤ largest :=
  one_le_mul_of_one_le_of_one_le (by norm_num) (one_le_zpow₀ one_le_two (by norm_num))

theorem nearest_largest : nearest largest = largest := by
  have hdyadic := nearest_dyadic (k := 2 ^ 53 - 1) (e := 971) (by norm_num) (by norm_num)
  rwa [Int.cast_sub, Int.cast_pow, Int.cast_ofNat, Int.cast_one] at hdyadic

theorem round_eq_nearest (h : |x| ≤ largest) : round x = nearest x :=
  clip_eq ((abs_nearest_le nearest_largest h).trans_lt largest_lt_limit)

theorem clip_mono (h : x ≤ y) : clip x ≤ clip y := by
  have hlimit := limit_pos
  unfold clip
  split_ifs
  all_goals first
    | exact bot_le
    | exact le_top
    | exact EReal.coe_le_coe_iff.mpr h
    | (exfalso; linarith)

theorem round_mono (h : x ≤ y) : round x ≤ round y := clip_mono (nearest_mono h)

end PhasePortrait.Double
