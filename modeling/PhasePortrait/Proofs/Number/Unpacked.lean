import Mathlib
import PhasePortrait.Proofs.Number.Nearest

/-!
# Doubles taken apart

Every operation on doubles takes its operands apart into sign, whole mantissa and exponent, works on
these and packs the result. What is packed comes back as it was, or as an infinity if it is out of
range, and the rounding of a mantissa with its residual bits is the rounding of the real number that
these bits place: together, a result that is packed reads as the nearest double.

## Main definitions

* `Double.Reads u v` — the unpacked double `u` is the number or infinity `v`.
* `Double.Normal m e` — mantissa and exponent as they come out of a packed double.
* `Double.Locates m acc y` — the residual bits `acc` after `m` place the real number `y`.
-/
namespace PhasePortrait.Double
open Float.Model Float.Model.UnpackedFloat

/-! ## Values -/

/-- A sign as a factor. -/
def factor : Sign → ℝ
  | .negative => -1
  | .positive => 1

@[simp] theorem factor_mul (s t : Sign) : factor (s * t) = factor s * factor t := by
  cases s <;> cases t
  · exact (neg_one_mul (-1 : ℝ)).trans (neg_neg 1) |>.symm
  · exact (mul_one (-1 : ℝ)).symm
  · exact (one_mul (-1 : ℝ)).symm
  · exact (one_mul (1 : ℝ)).symm

@[simp] theorem factor_div (s t : Sign) : factor (s / t) = factor s * factor t := by
  rw [← factor_mul]
  cases s <;> cases t <;> rfl

@[simp] theorem factor_neg (s : Sign) : factor (-s) = -factor s := by
  cases s
  · exact (neg_neg (1 : ℝ)).symm
  · rfl

theorem factor_mul_self (s : Sign) : factor s * factor s = 1 := by cases s <;> norm_num [factor]

@[simp] theorem abs_factor (s : Sign) : |factor s| = 1 := by cases s <;> norm_num [factor]

theorem apply_eq (s : Sign) (n : ℤ) : ((s.apply n : ℤ) : ℝ) = factor s * n := by
  cases s <;> simp [factor, Sign.apply]

/-- The value of an unpacked double that is a number or an infinity. -/
inductive Reads : UnpackedFloat → EReal → Prop
  | top : Reads (.infinity .positive) ⊤
  | bot : Reads (.infinity .negative) ⊥
  | zero (s : Sign) : Reads (.zero s) (0 : ℝ)
  | finite (s : Sign) (m : ℕ) (e : ℤ) (h : 0 < m) :
      Reads (.finite s m e h) (factor s * (m * 2 ^ e) : ℝ)

/-! ## Packing -/

/-- A mantissa of at most 53 digits; of fewer only with the least exponent. -/
structure Normal (m : ℕ) (e : ℤ) : Prop where
  lt : m < 2 ^ 53
  le : -1074 ≤ e
  full : 2 ^ 52 ≤ m ∨ e = -1074

theorem toNat_one_append (v : BitVec 52) : (1#1 ++ v).toNat = 2 ^ 52 + v.toNat := by
  rw [BitVec.toNat_append, ← Nat.shiftLeft_add_eq_or_of_lt v.isLt]
  simp [Nat.shiftLeft_eq]

/-- A biased exponent in range is none of the two that are set aside. -/
theorem ofNat_ne_special {b : ℕ} (hpos : 0 < b) (hlt : b < 2047) :
    BitVec.ofNat 11 b ≠ -1#11 ∧ BitVec.ofNat 11 b ≠ 0#11 := by
  constructor
  all_goals
    intro h
    have h := congrArg BitVec.toNat h
    simp only [BitVec.toNat_ofNat, BitVec.toNat_neg] at h
    omega

theorem unpack_pack_full (s : Sign) {m : ℕ} {e : ℤ} (hm : 0 < m) (hlo : 2 ^ 52 ≤ m)
    (hhi : m < 2 ^ 53) (he : -1074 ≤ e) (hfits : e ≤ 971) :
    unpack .binary64 (pack .binary64 (.finite s m e hm)) = .finite s m e hm := by
  have hlog : m.log2 = 52 := (Nat.log2_eq_iff hm.ne').mpr ⟨hlo, hhi⟩
  have hbias : (e + Format.binary64.exponentBias
      + Format.binary64.mantissaBitsWithoutImplicit).toNat = (e + 1075).toNat := by
    change (e + (2 ^ (11 - 1) - 1 : ℕ) + (52 : ℕ)).toNat = (e + 1075).toNat
    omega
  obtain ⟨hinf, hzero⟩ := ofNat_ne_special (b := (e + 1075).toNat) (by omega) (by omega)
  have hmantissa : (1#1 ++ BitVec.ofNat 52 m).toNat = m := by
    rw [toNat_one_append, BitVec.toNat_ofNat]
    omega
  rw [UnpackedFloat.pack]
  simp only [hlog, hbias]
  rw [if_neg (by omega), if_pos (by simp [Format.mantissaBits]), UnpackedFloat.unpack]
  simp only [unpackMantissa_packComponents, unpackExponent_packComponents,
    unpackSign_packComponents, Sign.ofBitVec_toBitVec]
  rw [if_neg hinf, if_neg hzero]
  have hexponent : ((Format.binary64.exponentBias : ℕ) : ℤ) = 1023 := rfl
  simp only [hmantissa, BitVec.toNat_ofNat, hexponent]
  congr 1
  omega

theorem unpack_pack_short (s : Sign) {m : ℕ} (hm : 0 < m) (hlt : m < 2 ^ 52) :
    unpack .binary64 (pack .binary64 (.finite s m (-1074) hm)) = .finite s m (-1074) hm := by
  have hlog : m.log2 < 52 := (Nat.log2_lt hm.ne').mpr hlt
  have hbias : (-1074 + (Format.binary64.exponentBias : ℤ)
      + (Format.binary64.mantissaBitsWithoutImplicit : ℤ)).toNat = 1 := by decide
  have hmantissa : (BitVec.ofNat 52 m).toNat = m := by
    rw [BitVec.toNat_ofNat, Nat.mod_eq_of_lt hlt]
  have hne : BitVec.ofNat 52 m ≠ 0#52 := by
    intro h
    rw [h] at hmantissa
    exact hm.ne hmantissa
  rw [UnpackedFloat.pack]
  simp only [hbias]
  rw [if_neg (by decide), if_neg (by simp only [Format.mantissaBits]; omega), UnpackedFloat.unpack]
  simp only [unpackMantissa_packComponents, unpackExponent_packComponents,
    unpackSign_packComponents, Sign.ofBitVec_toBitVec]
  rw [if_neg (by decide), if_pos trivial, dif_neg hne]
  have hexponent : ((Format.binary64.exponentBias : ℕ) : ℤ) = 1023 := rfl
  simp only [hmantissa, hexponent]
  rfl

theorem unpack_pack_overflow (s : Sign) {m : ℕ} {e : ℤ} (hm : 0 < m) (he : 972 ≤ e) :
    unpack .binary64 (pack .binary64 (.finite s m e hm)) = .infinity s := by
  have hbias : 2 ^ Format.binary64.exponentBits ≤ (e + Format.binary64.exponentBias
      + Format.binary64.mantissaBitsWithoutImplicit).toNat + 1 := by
    change 2 ^ 11 ≤ (e + (2 ^ (11 - 1) - 1 : ℕ) + (52 : ℕ)).toNat + 1
    omega
  rw [UnpackedFloat.pack]
  simp only [hbias, if_true]
  cases s <;> rfl

/-- Finite doubles unpack to normal mantissas that are in range. -/
theorem normal_of_unpack {b : BitVec Format.binary64.numBits} {s : Sign} {m : ℕ} {e : ℤ}
    {h : 0 < m} (hb : unpack .binary64 b = .finite s m e h) : Normal m e ∧ e ≤ 971 := by
  have hbias : ((Format.binary64.exponentBias : ℕ) : ℤ) = 1023 := rfl
  have hbits : ((Format.binary64.mantissaBitsWithoutImplicit : ℕ) : ℤ) = 52 := rfl
  have hmantissa : (unpackMantissa b).toNat < 2 ^ 52 := (unpackMantissa b).isLt
  have hexponent : (unpackExponent b).toNat < 2048 := (unpackExponent b).isLt
  rw [UnpackedFloat.unpack] at hb
  split at hb
  · split at hb <;> cases hb
  · next hinf =>
    split at hb
    · next hzero =>
      split at hb
      · cases hb
      · have hzero : (unpackExponent b).toNat = 0 := congrArg BitVec.toNat hzero
        cases hb
        exact ⟨⟨by omega, by omega, .inr (by omega)⟩, by omega⟩
    · next hzero =>
      have hzero : (unpackExponent b).toNat ≠ 0 := fun h => hzero (BitVec.eq_of_toNat_eq h)
      have hinf : (unpackExponent b).toNat ≠ 2047 := fun h => hinf (BitVec.eq_of_toNat_eq h)
      have happend := toNat_one_append (unpackMantissa b)
      cases hb
      exact ⟨⟨by omega, by omega, .inl (by omega)⟩, by omega⟩

/-- The value of a normal mantissa with its exponent stays below the next power of two. -/
theorem Normal.abs_lt {m : ℕ} {e : ℤ} (h : Normal m e) (s : Sign) :
    |factor s * (m * 2 ^ e)| < 2 ^ 53 * 2 ^ e := by
  have hcast : (m : ℝ) < 2 ^ 53 := by exact_mod_cast h.lt
  have hpower : (0 : ℝ) < 2 ^ e := zpow_pos two_pos e
  rw [abs_mul, abs_factor, one_mul, abs_of_nonneg (by positivity)]
  exact mul_lt_mul_of_pos_right hcast hpower

theorem Normal.abs_lt_limit {m : ℕ} {e : ℤ} (h : Normal m e) (he : e ≤ 971) (s : Sign) :
    |factor s * (m * 2 ^ e)| < limit := by
  calc |factor s * (m * 2 ^ e)| < 2 ^ 53 * 2 ^ e := h.abs_lt s
    _ ≤ 2 ^ 53 * 2 ^ (971 : ℤ) :=
        mul_le_mul_of_nonneg_left (zpow_le_zpow_right₀ one_le_two he) (by positivity)
    _ = limit := by
        rw [limit_eq, ← zpow_natCast, ← zpow_add₀ two_ne_zero]
        norm_num

theorem Normal.limit_le {m : ℕ} {e : ℤ} (h : Normal m e) (he : 972 ≤ e) : limit ≤ m * 2 ^ e := by
  have hfull : (2 : ℝ) ^ 52 ≤ m := by
    exact_mod_cast h.full.resolve_right (by omega)
  calc limit = 2 ^ 52 * 2 ^ (972 : ℤ) := by
        rw [limit_eq, ← zpow_natCast, ← zpow_add₀ two_ne_zero]
        norm_num
    _ ≤ m * 2 ^ e :=
        mul_le_mul hfull (zpow_le_zpow_right₀ one_le_two he) (zpow_pos two_pos _).le (Nat.cast_nonneg m)

/-- A result that is packed reads as what it was, as far as it is in range. -/
theorem reads_pack {m : ℕ} {e : ℤ} (h : Normal m e) (s : Sign) (hm : 0 < m) :
    Reads (unpack .binary64 (pack .binary64 (.finite s m e hm))) (clip (factor s * (m * 2 ^ e))) := by
  rcases le_or_gt e 971 with hfits | hover
  · rw [clip_eq (h.abs_lt_limit hfits s)]
    have hunpack : unpack .binary64 (pack .binary64 (.finite s m e hm)) = .finite s m e hm := by
      by_cases hfull : 2 ^ 52 ≤ m
      · exact unpack_pack_full s hm hfull h.lt h.le hfits
      · obtain rfl := h.full.resolve_left hfull
        exact unpack_pack_short s hm (not_le.mp hfull)
    rw [hunpack]
    exact .finite s m e hm
  · rw [unpack_pack_overflow s hm hover]
    have hlimit := h.limit_le hover
    have hpos := limit_pos
    cases s with
    | positive =>
      rw [factor, one_mul, clip, if_neg (by linarith), if_pos hlimit]
      exact .top
    | negative =>
      rw [factor, neg_one_mul, clip, if_pos (neg_le_neg hlimit)]
      exact .bot

/-! ## Residual bits -/

/-- Where a real number lies between `m` and `m + 1`: which of the two is nearer. -/
def Locates (m : ℕ) : Accuracy → ℝ → Prop
  | .exact, y => y = m
  | .inexact .lt, y => m < y ∧ y - m < m + 1 - y
  | .inexact .eq, y => y - m = m + 1 - y
  | .inexact .gt, y => m + 1 - y < y - m ∧ y < m + 1

variable {m : ℕ} {e : ℤ} {acc : Accuracy} {y : ℝ}

theorem Locates.floor_eq (h : Locates m acc y) : ⌊y⌋ = m := by
  rw [Int.floor_eq_iff, Int.cast_natCast]
  match acc, h with
  | .exact, h => subst h; constructor <;> linarith
  | .inexact .lt, h => constructor <;> linarith [h.1, h.2]
  | .inexact .eq, h =>
    have h : y - m = m + 1 - y := h
    constructor <;> linarith
  | .inexact .gt, h => constructor <;> linarith [h.1, h.2]

theorem Locates.roundToNearestEven (h : Locates m acc y) :
    (acc.roundToNearestEven m : ℤ) = roundEven y := by
  have hfloor := h.floor_eq
  have hfract : Int.fract y = y - m := by rw [Int.fract, hfloor, Int.cast_natCast]
  unfold roundEven
  rw [hfract, hfloor]
  match acc, h with
  | .exact, h =>
    rw [if_pos (by rw [h]; norm_num)]
    rfl
  | .inexact .lt, h =>
    rw [if_pos (by linarith [h.2])]
    rfl
  | .inexact .eq, h =>
    have h : y - m = m + 1 - y := h
    rw [if_neg (by linarith), if_pos (by linarith)]
    rfl
  | .inexact .gt, h =>
    rw [if_neg (by linarith [h.1]), if_neg (by linarith [h.1])]
    rfl

@[simp] theorem mantissa_ofMantissaAndAccuracy (m : ℕ) (acc : Accuracy) :
    (ExtendedMantissa.ofMantissaAndAccuracy m acc).mantissa = m := by
  match acc with
  | .exact | .inexact .lt | .inexact .eq | .inexact .gt => rfl

@[simp] theorem accuracy_ofMantissaAndAccuracy (m : ℕ) (acc : Accuracy) :
    (ExtendedMantissa.ofMantissaAndAccuracy m acc).accuracy = acc := by
  match acc with
  | .exact | .inexact .lt | .inexact .eq | .inexact .gt => rfl

/-- Shifting by one bit halves the number that is placed. -/
theorem locates_shiftRightOne {em : ExtendedMantissa} (h : Locates em.mantissa em.accuracy y) :
    Locates em.shiftRightOne.mantissa em.shiftRightOne.accuracy (y / 2) := by
  obtain ⟨m, r, st⟩ := em
  have hhalf : ((m % 2 : ℕ) : ℝ) + 2 * ((m / 2 : ℕ) : ℝ) = m := by exact_mod_cast Nat.mod_add_div m 2
  rcases Nat.mod_two_eq_zero_or_one m with hm | hm
  all_goals
    rw [hm] at hhalf
    cases r <;> cases st
    all_goals
      simp [Locates, ExtendedMantissa.accuracy, ExtendedMantissa.shiftRightOne, hm] at h hhalf ⊢
      first
        | linarith
        | (constructor <;> linarith)

theorem locates_shiftRight {em : ExtendedMantissa} (h : Locates em.mantissa em.accuracy y) (n : ℕ) :
    Locates (em >>> n).mantissa (em >>> n).accuracy (y / 2 ^ n) := by
  induction n with
  | zero => simpa [HShiftRight.hShiftRight, Nat.repeat] using h
  | succ n ih =>
    rw [pow_succ, ← div_div]
    exact locates_shiftRightOne ih

/-! ## Rounding -/

theorem targetExponent_eq (m : ℕ) (e : ℤ) :
    Format.binary64.targetExponent (totalExponent m e) = max (m.log2 + e - 52) (-1074) := by
  simp only [Format.targetExponent, totalExponent, Format.mantissaBits, Format.minExponent]
  norm_num
  congr 1
  ring

/-- Enough digits, or none beyond the last ones there are. -/
def Ample (m : ℕ) (e : ℤ) : Prop := 52 ≤ m.log2 ∨ e ≤ -1074

theorem Ample.le_targetExponent (h : Ample m e) :
    e ≤ Format.binary64.targetExponent (totalExponent m e) := by
  rw [targetExponent_eq]
  rcases h with h | h <;> omega

theorem log_eq (hm : m ≠ 0) (h : Locates m acc y) : Int.log 2 (y * 2 ^ e) = m.log2 + e := by
  have hpower : (0 : ℝ) < 2 ^ e := zpow_pos two_pos e
  have hfloor := Int.floor_eq_iff.mp h.floor_eq
  rw [Int.cast_natCast] at hfloor
  have hlo : (2 : ℝ) ^ m.log2 ≤ y := by
    refine le_trans ?_ hfloor.1
    exact_mod_cast Nat.log2_self_le hm
  have hhi : y < 2 ^ (m.log2 + 1) := by
    refine lt_of_lt_of_le hfloor.2 ?_
    exact_mod_cast Nat.lt_log2_self
  have hy : 0 < y * 2 ^ e := mul_pos (lt_of_lt_of_le (by positivity) hlo) hpower
  have hge : (m.log2 : ℤ) + e ≤ Int.log 2 (y * 2 ^ e) := by
    rw [← Int.zpow_le_iff_le_log one_lt_two hy, Nat.cast_two, zpow_add₀ two_ne_zero, zpow_natCast]
    exact mul_le_mul_of_nonneg_right hlo hpower.le
  have hlt : Int.log 2 (y * 2 ^ e) < m.log2 + 1 + e := by
    rw [← Int.lt_zpow_iff_log_lt one_lt_two hy, Nat.cast_two, zpow_add₀ two_ne_zero,
      ← Nat.cast_add_one, zpow_natCast]
    exact mul_lt_mul_of_pos_right hhi hpower
  omega

theorem lastExponent_eq (hy : 0 < y) (h : Locates m acc y) (hample : Ample m e) :
    lastExponent (y * 2 ^ e) = Format.binary64.targetExponent (totalExponent m e) := by
  have hpower : (0 : ℝ) < 2 ^ e := zpow_pos two_pos e
  have hx : 0 < y * 2 ^ e := mul_pos hy hpower
  rw [targetExponent_eq, lastExponent, abs_of_pos hx]
  rcases eq_or_ne m 0 with rfl | hm
  · have he : e ≤ -1074 := by simpa [Ample, Nat.log2_zero] using hample
    have hlt : y * 2 ^ e < (2 : ℕ) ^ e := by
      have hlt := (Int.floor_eq_iff.mp h.floor_eq).2
      rw [Nat.cast_two]
      refine (mul_lt_iff_lt_one_left hpower).mpr ?_
      simpa using hlt
    have hlog := (Int.lt_zpow_iff_log_lt one_lt_two hx).mp hlt
    rw [Nat.log2_zero, Nat.cast_zero]
    omega
  · rw [log_eq hm h]

theorem shiftToExponent_exponent (acc : Accuracy) {t : ℤ} (h : e ≤ t) :
    (shiftToExponent m e acc t).2 = t := by
  simp only [shiftToExponent]
  omega

/-- The first shift leaves the rounded mantissa over the unit in the last place. -/
theorem roundedMantissa_eq (hy : 0 < y) (h : Locates m acc y) (hample : Ample m e) :
    ((shiftToTargetExponent .binary64 m e acc).1.roundedMantissa : ℤ) =
      roundEven (y * 2 ^ e / ulp (y * 2 ^ e)) := by
  set t := Format.binary64.targetExponent (totalExponent m e) with ht
  have hle : e ≤ t := hample.le_targetExponent
  have hstart : Locates (ExtendedMantissa.ofMantissaAndAccuracy m acc).mantissa
      (ExtendedMantissa.ofMantissaAndAccuracy m acc).accuracy y := by
    simpa using h
  have hplaced := locates_shiftRight hstart (t - e).toNat
  have hscale : y * 2 ^ e / ulp (y * 2 ^ e) = y / 2 ^ (t - e).toNat := by
    have hpower : (2 : ℝ) ^ t = 2 ^ (t - e).toNat * 2 ^ e := by
      rw [← zpow_natCast, ← zpow_add₀ two_ne_zero]
      congr 1
      omega
    rw [ulp, lastExponent_eq hy h hample, ← ht, hpower,
      mul_div_mul_right _ _ (zpow_pos two_pos e).ne']
  rw [hscale]
  exact hplaced.roundToNearestEven

/-- The second shift takes effect only where rounding has carried into a new digit. -/
theorem shiftToTargetExponent_of_lt (hm : m < 2 ^ 53) (he : -1074 ≤ e) :
    shiftToTargetExponent .binary64 m e .exact = (⟨m, false, false⟩, e) := by
  have hlog : m.log2 ≤ 52 := by
    rcases eq_or_ne m 0 with rfl | hne
    · simp
    · have := (Nat.log2_lt hne).mpr hm
      omega
  have hshift : (Format.binary64.targetExponent (totalExponent m e) - e).toNat = 0 := by
    rw [targetExponent_eq]
    omega
  simp [shiftToTargetExponent, shiftToExponent, hshift, HShiftRight.hShiftRight, Nat.repeat,
    ExtendedMantissa.ofMantissaAndAccuracy]

theorem shiftToTargetExponent_carry (he : -1074 ≤ e) :
    shiftToTargetExponent .binary64 (2 ^ 53) e .exact = (⟨2 ^ 52, false, false⟩, e + 1) := by
  have hshift : Format.binary64.targetExponent (totalExponent (2 ^ 53) e) = e + 1 := by
    rw [targetExponent_eq, Nat.log2_two_pow]
    omega
  rw [shiftToTargetExponent, hshift]
  simp [shiftToExponent, HShiftRight.hShiftRight, Nat.repeat,
    ExtendedMantissa.ofMantissaAndAccuracy, ExtendedMantissa.shiftRightOne]

/-- What a mantissa and an exponent become that have been shifted twice. -/
def assemble (s : Sign) (shifted : ExtendedMantissa × ℤ) : UnpackedFloat :=
  if h : shifted.1.mantissa = 0 then .zero s
  else .finite s shifted.1.mantissa shifted.2 (Nat.pos_of_ne_zero h)

theorem roundWithAccuracy_eq (s : Sign) (m : ℕ) (e : ℤ) (acc : Accuracy) :
    roundWithAccuracy .binary64 s m e acc =
      assemble s (shiftToTargetExponent .binary64
        (shiftToTargetExponent .binary64 m e acc).1.roundedMantissa
        (shiftToTargetExponent .binary64 m e acc).2 .exact) := rfl

theorem reads_pack_assemble {r : ℕ} {t : ℤ} (s : Sign) (hr : r ≤ 2 ^ 53) (ht : -1074 ≤ t)
    (hfull : 2 ^ 52 ≤ r ∨ t = -1074) :
    Reads (unpack .binary64 (pack .binary64
        (assemble s (shiftToTargetExponent .binary64 r t .exact))))
      (clip (factor s * (r * 2 ^ t))) := by
  unfold assemble
  rcases hr.lt_or_eq with hlt | rfl
  · rw [shiftToTargetExponent_of_lt hlt ht]
    rcases Nat.eq_zero_or_pos r with rfl | hpos
    · have hclip : clip (factor s * ((0 : ℕ) * 2 ^ t)) = (0 : ℝ) := by
        rw [Nat.cast_zero, zero_mul, mul_zero, clip_eq (by simpa using limit_pos)]
      rw [hclip, dif_pos rfl]
      cases s <;> exact .zero _
    · rw [dif_neg hpos.ne']
      exact reads_pack ⟨hlt, ht, hfull⟩ s hpos
  · rw [shiftToTargetExponent_carry ht]
    have hcarry : ((2 ^ 53 : ℕ) : ℝ) * 2 ^ t = ((2 ^ 52 : ℕ) : ℝ) * 2 ^ (t + 1) := by
      rw [zpow_add_one₀ two_ne_zero]
      push_cast
      ring
    rw [hcarry, dif_neg (by positivity)]
    exact reads_pack ⟨by norm_num, by omega, .inl le_rfl⟩ s (by positivity)

/-- **A rounded result reads as the nearest double**, whatever bits the operation has kept of it. -/
theorem reads_roundWithAccuracy (s : Sign) (hy : 0 < y) (h : Locates m acc y) (hample : Ample m e) :
    Reads (unpack .binary64 (pack .binary64 (roundWithAccuracy .binary64 s m e acc)))
      (round (factor s * (y * 2 ^ e))) := by
  have hx : 0 < y * 2 ^ e := mul_pos hy (zpow_pos two_pos e)
  have hround := roundedMantissa_eq hy h hample
  have hexponent : (shiftToTargetExponent .binary64 m e acc).2 = lastExponent (y * 2 ^ e) := by
    rw [lastExponent_eq hy h hample]
    exact shiftToExponent_exponent acc hample.le_targetExponent
  set r := (shiftToTargetExponent .binary64 m e acc).1.roundedMantissa with hr
  have hnearest : nearest (y * 2 ^ e) = r * 2 ^ lastExponent (y * 2 ^ e) := by
    rw [nearest, ← hround, Int.cast_natCast, ulp]
  have hulp := ulp_pos (y * 2 ^ e)
  have hle : r ≤ 2 ^ 53 := by
    have hle := nearest_le_ulp (y * 2 ^ e)
    rw [hnearest, ← ulp] at hle
    exact_mod_cast le_of_mul_le_mul_right hle hulp
  have hfull : 2 ^ 52 ≤ r ∨ lastExponent (y * 2 ^ e) = -1074 := by
    rcases (le_max_right _ _ : -1074 ≤ lastExponent (y * 2 ^ e)).eq_or_lt with hlast | hlast
    · exact .inr hlast.symm
    · have hge := ulp_le_nearest hx hlast
      rw [hnearest, ← ulp] at hge
      exact .inl (by exact_mod_cast le_of_mul_le_mul_right hge hulp)
  have hsigned : round (factor s * (y * 2 ^ e)) =
      clip (factor s * (r * 2 ^ lastExponent (y * 2 ^ e))) := by
    rw [round, ← hnearest]
    cases s <;> simp [factor]
  rw [hsigned, roundWithAccuracy_eq, ← hr, hexponent]
  exact reads_pack_assemble s hle (le_max_right _ _) hfull

end PhasePortrait.Double
