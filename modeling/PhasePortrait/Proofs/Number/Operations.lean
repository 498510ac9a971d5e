import PhasePortrait.Proofs.Number.Unpacked

/-!
# Operations on unpacked doubles

On operands that are real numbers, every operation gives the double nearest to the exact result; the
comparison of two doubles is that of their values.

## Main definitions

* `Double.Packed u` — the unpacked double `u` is in the form that unpacking gives.
-/
namespace PhasePortrait.Double
open Float.Model Float.Model.UnpackedFloat

variable {u w : UnpackedFloat} {v v' : EReal} {x y : ℝ} {m : ℕ} {e : ℤ}

theorem Reads.unique (h : Reads u v) (h' : Reads u v') : v = v' := by
  cases h <;> cases h' <;> rfl

/-- As unpacked doubles are: finite ones have a normal mantissa in range. -/
def Packed (u : UnpackedFloat) : Prop := ∀ s m e h, u = .finite s m e h → Normal m e ∧ e ≤ 971

theorem packed_unpack (b : BitVec Format.binary64.numBits) : Packed (unpack .binary64 b) :=
  fun _ _ _ _ h => normal_of_unpack h

theorem Packed.neg (hu : Packed u) : Packed u.neg := by
  intro s m e h heq
  cases u with
  | finite s' m' e' h' =>
    cases heq
    exact hu _ _ _ _ rfl
  | notANumber | infinity | zero => cases heq

theorem Packed.abs (hu : Packed u) : Packed u.abs := by
  intro s m e h heq
  cases u with
  | finite s' m' e' h' =>
    cases heq
    exact hu _ _ _ _ rfl
  | notANumber | infinity | zero => cases heq

theorem reads_pack_zero (s : Sign) : Reads (unpack .binary64 (pack .binary64 (.zero s))) (0 : ℝ) := by
  cases s <;> exact .zero _

/-- Packing what has been unpacked changes nothing. -/
theorem Packed.reads_pack (hu : Packed u) (h : Reads u v) :
    Reads (unpack .binary64 (pack .binary64 u)) v := by
  cases h with
  | top => exact .top
  | bot => exact .bot
  | zero s => exact reads_pack_zero s
  | finite s m e hm =>
    obtain ⟨hnormal, hfits⟩ := hu s m e hm rfl
    rw [← clip_eq (hnormal.abs_lt_limit hfits s)]
    exact Double.reads_pack hnormal s hm

theorem Reads.neg (h : Reads u v) : Reads u.neg (-v) := by
  cases h with
  | top =>
    rw [EReal.neg_top]
    exact .bot
  | bot =>
    rw [EReal.neg_bot]
    exact .top
  | zero s =>
    have hzero : -((0 : ℝ) : EReal) = (0 : ℝ) := by simp
    rw [hzero]
    exact .zero _
  | finite s m e hm =>
    have hvalue : -(factor s * (m * 2 ^ e)) = factor (-s) * (m * 2 ^ e) := by simp
    rw [← EReal.coe_neg, hvalue]
    exact .finite _ _ _ _

theorem Reads.abs (h : Reads u x) : Reads u.abs (|x| : ℝ) := by
  generalize hv : (x : EReal) = v at h
  cases h with
  | top => exact absurd hv (EReal.coe_ne_top x)
  | bot => exact absurd hv (EReal.coe_ne_bot x)
  | zero s =>
    rw [EReal.coe_eq_coe_iff.mp hv, abs_zero]
    exact .zero _
  | finite s m e hm =>
    rw [EReal.coe_eq_coe_iff.mp hv, abs_mul, abs_factor, one_mul,
      abs_of_nonneg (mul_nonneg (Nat.cast_nonneg m) (zpow_pos two_pos e).le), ← one_mul (_ * _)]
    exact .finite .positive m e hm

/-- An unpacked double that is a real number is zero or has a mantissa. -/
theorem Reads.cases_real (h : Reads u x) :
    (∃ s, u = .zero s ∧ x = 0) ∨
      ∃ s m e, ∃ hm : 0 < m, u = .finite s m e hm ∧ x = factor s * (m * 2 ^ e) := by
  generalize hv : (x : EReal) = v at h
  cases h with
  | top => exact absurd hv (EReal.coe_ne_top x)
  | bot => exact absurd hv (EReal.coe_ne_bot x)
  | zero s => exact .inl ⟨s, rfl, EReal.coe_eq_coe_iff.mp hv⟩
  | finite s m e hm => exact .inr ⟨s, m, e, hm, rfl, EReal.coe_eq_coe_iff.mp hv⟩

theorem Reads.nearest_eq (hu : Packed u) (h : Reads u x) : nearest x = x ∧ |x| < limit := by
  obtain ⟨s, -, rfl⟩ | ⟨s, m, e, hm, rfl, rfl⟩ := h.cases_real
  · exact ⟨nearest_zero, by simpa using limit_pos⟩
  · obtain ⟨hnormal, hfits⟩ := hu s m e hm rfl
    refine ⟨?_, hnormal.abs_lt_limit hfits s⟩
    have hsize : |(m : ℤ)| ≤ 2 ^ 53 := by
      rw [Nat.abs_cast]
      exact_mod_cast hnormal.lt.le
    have hmagnitude := nearest_dyadic hsize hnormal.le
    rw [Int.cast_natCast] at hmagnitude
    cases s <;> simp [factor, hmagnitude]

theorem round_eq (hx : nearest x = x) (hlt : |x| < limit) : round x = x := by
  rw [round, hx, clip_eq hlt]

@[simp] theorem round_zero : round 0 = (0 : ℝ) :=
  round_eq nearest_zero (by simpa using limit_pos)

/-! ## Sums -/

theorem decreaseExponent_eq {t : ℤ} (h : t ≤ e) :
    (((decreaseExponent m e t).1 : ℕ) : ℝ) * 2 ^ t = m * 2 ^ e := by
  have hpower : (2 : ℝ) ^ e = 2 ^ (e - t).toNat * 2 ^ t := by
    rw [← zpow_natCast, ← zpow_add₀ two_ne_zero]
    congr 1
    omega
  rw [decreaseExponent, Nat.shiftLeft_eq, hpower]
  push_cast
  ring

theorem decreaseExponent_exponent (m : ℕ) (e t : ℤ) : (decreaseExponent m e t).2 = min e t := by
  simp only [decreaseExponent]
  omega

theorem log2_shiftLeft (hm : m ≠ 0) (n : ℕ) : (m <<< n).log2 = m.log2 + n := by
  rw [Nat.shiftLeft_eq, Nat.log2_eq_iff (Nat.mul_ne_zero hm (by positivity)), pow_add,
    Nat.add_right_comm, pow_add]
  exact ⟨Nat.mul_le_mul_right _ (Nat.log2_self_le hm),
    Nat.mul_lt_mul_of_pos_right Nat.lt_log2_self (by positivity)⟩

/-- Exact digits that are too few are filled up before they are rounded. -/
theorem reads_round (s : Sign) (hm : 0 < m) (e : ℤ) :
    Reads (unpack .binary64 (pack .binary64 (UnpackedFloat.round .binary64 s m e)))
      (round (factor s * (m * 2 ^ e))) := by
  rw [UnpackedFloat.round]
  set t := Format.binary64.targetExponent (totalExponent m e) with ht
  have htarget := targetExponent_eq m e
  rw [← ht] at htarget
  rcases le_total e t with hle | hge
  · have hsame : decreaseExponent m e t = (m, e) := by
      simp [decreaseExponent, Int.toNat_of_nonpos (sub_nonpos.mpr hle)]
    simp only [hsame]
    refine reads_roundWithAccuracy s (by exact_mod_cast hm) rfl ?_
    unfold Ample
    omega
  · have hvalue := decreaseExponent_eq (m := m) hge
    have hexponent : (decreaseExponent m e t).2 = t := by
      rw [decreaseExponent_exponent, min_eq_right hge]
    have hlog : ((decreaseExponent m e t).1).log2 = m.log2 + (e - t).toNat := by
      rw [decreaseExponent, log2_shiftLeft hm.ne']
    have hpos : (0 : ℝ) < ((decreaseExponent m e t).1 : ℕ) := by
      rw [decreaseExponent, Nat.shiftLeft_eq]
      positivity
    simp only [hexponent]
    rw [← hvalue]
    refine reads_roundWithAccuracy s hpos rfl ?_
    unfold Ample
    omega

theorem reads_normalize (n e : ℤ) (zeroSign : Sign) :
    Reads (unpack .binary64 (pack .binary64 (UnpackedFloat.normalize .binary64 n e zeroSign)))
      (round (n * 2 ^ e)) := by
  unfold UnpackedFloat.normalize
  rcases lt_trichotomy n 0 with hn | rfl | hn
  · rw [compare_lt_iff_lt.mpr hn]
    have h := reads_round .negative (m := (-n).toNat) (by omega) e
    have hcast : (((-n).toNat : ℕ) : ℝ) = -n := by
      exact_mod_cast Int.toNat_of_nonneg (by omega : 0 ≤ -n)
    rwa [factor, hcast, neg_one_mul, neg_mul, neg_neg] at h
  · rw [compare_eq_iff_eq.mpr rfl, Int.cast_zero, zero_mul, round_zero]
    exact reads_pack_zero zeroSign
  · rw [compare_gt_iff_gt.mpr hn]
    have h := reads_round .positive (m := n.toNat) (by omega) e
    have hcast : ((n.toNat : ℕ) : ℝ) = n := by
      exact_mod_cast Int.toNat_of_nonneg hn.le
    rwa [factor, hcast, one_mul] at h

theorem reads_add (hu : Packed u) (hw : Packed w) (hx : Reads u x) (hy : Reads w y) :
    Reads (unpack .binary64 (pack .binary64 (u.add .binary64 w))) (round (x + y)) := by
  obtain ⟨s, rfl, rfl⟩ | ⟨s, m, e, hm, rfl, rfl⟩ := hx.cases_real <;>
    obtain ⟨s', rfl, rfl⟩ | ⟨s', m', e', hm', rfl, rfl⟩ := hy.cases_real
  · rw [add_zero, round_zero]
    cases s <;> cases s' <;> exact .zero _
  · obtain ⟨hnearest, hlt⟩ := hy.nearest_eq hw
    rw [zero_add, round_eq hnearest hlt]
    exact hw.reads_pack hy
  · obtain ⟨hnearest, hlt⟩ := hx.nearest_eq hu
    rw [add_zero, round_eq hnearest hlt]
    exact hu.reads_pack hx
  · have hsum : (s.apply (decreaseExponent m e (min e e')).1
        + s'.apply (decreaseExponent m' e' (min e e')).1 : ℤ) * (2 : ℝ) ^ min e e'
          = factor s * (m * 2 ^ e) + factor s' * (m' * 2 ^ e') := by
      rw [← decreaseExponent_eq (m := m) (min_le_left e e'),
        ← decreaseExponent_eq (m := m') (min_le_right e e')]
      push_cast
      rw [apply_eq, apply_eq]
      push_cast
      ring
    rw [← hsum]
    exact reads_normalize _ _ _

theorem sub_eq_add (u w : UnpackedFloat) :
    u.sub .binary64 w = u.add .binary64 w.neg := by
  have hdouble : ∀ s : Sign, - -s = s := by
    intro s
    cases s <;> rfl
  have hneg : ∀ (s : Sign) (n : ℤ), (-s).apply n = -s.apply n := by
    intro s n
    cases s
    · exact (neg_neg n).symm
    · rfl
  cases u <;> cases w <;> try rfl
  rename_i s m e hm s' m' e' hm'
  simp only [UnpackedFloat.sub, UnpackedFloat.add, UnpackedFloat.neg, hneg, Int.sub_eq_add_neg]

/-! ## Products and quotients -/

theorem Normal.ample_mul {m' : ℕ} {e' : ℤ} (h : Normal m e) (h' : Normal m' e') (hm : 0 < m)
    (hm' : 0 < m') : Ample (m * m') (e + e') := by
  have hne : m * m' ≠ 0 := (Nat.mul_pos hm hm').ne'
  rcases h.full with hfull | he
  · exact .inl ((Nat.le_log2 hne).mpr (hfull.trans (Nat.le_mul_of_pos_right m hm')))
  · rcases h'.full with hfull | he'
    · exact .inl ((Nat.le_log2 hne).mpr (hfull.trans (Nat.le_mul_of_pos_left m' hm)))
    · exact .inr (by omega)

theorem reads_mul (hu : Packed u) (hw : Packed w) (hx : Reads u x) (hy : Reads w y) :
    Reads (unpack .binary64 (pack .binary64 (u.mul .binary64 w))) (round (x * y)) := by
  obtain ⟨s, rfl, rfl⟩ | ⟨s, m, e, hm, rfl, rfl⟩ := hx.cases_real <;>
    obtain ⟨s', rfl, rfl⟩ | ⟨s', m', e', hm', rfl, rfl⟩ := hy.cases_real
  · rw [mul_zero, round_zero]
    exact reads_pack_zero (s * s')
  · rw [zero_mul, round_zero]
    exact reads_pack_zero (s * s')
  · rw [mul_zero, round_zero]
    exact reads_pack_zero (s * s')
  · have hample := (hu s m e hm rfl).1.ample_mul (hw s' m' e' hm' rfl).1 hm hm'
    have hproduct : factor s * (m * 2 ^ e) * (factor s' * (m' * 2 ^ e')) =
        factor (s * s') * (((m * m' : ℕ) : ℝ) * 2 ^ (e + e')) := by
      rw [factor_mul, zpow_add₀ two_ne_zero]
      push_cast
      ring
    rw [hproduct]
    exact reads_roundWithAccuracy _ (by exact_mod_cast Nat.mul_pos hm hm') rfl hample

theorem locates_div (a : ℕ) {b : ℕ} (hb : 0 < b) :
    Locates (a / b) (accuracyOfFraction (a % b) b) ((a : ℝ) / b) := by
  have hbpos : (0 : ℝ) < b := by exact_mod_cast hb
  have hdiv : (a : ℝ) / b = (a / b : ℕ) + ((a % b : ℕ) : ℝ) / b := by
    have h : ((a % b : ℕ) : ℝ) + b * ((a / b : ℕ) : ℝ) = a := by exact_mod_cast Nat.mod_add_div a b
    rw [div_eq_iff hbpos.ne', add_mul, div_mul_cancel₀ _ hbpos.ne']
    linarith
  have hlt : ((a % b : ℕ) : ℝ) < b := by exact_mod_cast Nat.mod_lt a hb
  rw [accuracyOfFraction, hdiv]
  split
  · next h => simp [Locates, h]
  · next h =>
    have hpos : (0 : ℝ) < ((a % b : ℕ) : ℝ) / b :=
      div_pos (by exact_mod_cast Nat.pos_of_ne_zero h) hbpos
    have hless : ((a % b : ℕ) : ℝ) / b < 1 := (div_lt_one hbpos).mpr hlt
    rcases lt_trichotomy (2 * (a % b)) b with hhalf | hhalf | hhalf
    · rw [compare_lt_iff_lt.mpr hhalf]
      have hhalf : (2 : ℝ) * ((a % b : ℕ) : ℝ) < b := by exact_mod_cast hhalf
      have hbelow : ((a % b : ℕ) : ℝ) / b < 1 / 2 := by
        rw [div_lt_div_iff₀ hbpos two_pos]
        linarith
      constructor <;> linarith
    · rw [compare_eq_iff_eq.mpr hhalf]
      have hhalf : (2 : ℝ) * ((a % b : ℕ) : ℝ) = b := by exact_mod_cast hhalf
      have hat : ((a % b : ℕ) : ℝ) / b = 1 / 2 := by
        rw [div_eq_div_iff hbpos.ne' two_ne_zero]
        linarith
      rw [hat, Locates]
      linarith
    · rw [compare_gt_iff_gt.mpr hhalf]
      have hhalf : (b : ℝ) < 2 * ((a % b : ℕ) : ℝ) := by exact_mod_cast hhalf
      have habove : 1 / 2 < ((a % b : ℕ) : ℝ) / b := by
        rw [div_lt_div_iff₀ two_pos hbpos]
        linarith
      constructor <;> linarith

/-- Enough digits are asked of a quotient. -/
theorem ample_divCore {m' : ℕ} (e' : ℤ) (hm : 0 < m) (hm' : 0 < m') :
    Ample (divCore .binary64 m e m' e').1 (divCore .binary64 m e m' e').2.1 := by
  have htarget : Format.binary64.targetExponent (totalExponent m e - totalExponent m' e') =
      max (m.log2 + e - (m'.log2 + e') - 53) (-1074) := by
    simp only [Format.targetExponent, totalExponent, Format.mantissaBits, Format.minExponent]
    norm_num
    congr 1
    ring
  simp only [divCore, htarget, Ample]
  set t := min (e - e') (max ((m.log2 : ℤ) + e - (m'.log2 + e') - 53) (-1074)) with ht
  by_cases hlow : t ≤ -1074
  · exact .inr hlow
  · left
    have hshift : m'.log2 + 53 ≤ m.log2 + (e - e' - t).toNat := by omega
    have hnum : 2 ^ (m'.log2 + 53) ≤ m <<< (e - e' - t).toNat := by
      rw [Nat.shiftLeft_eq]
      calc 2 ^ (m'.log2 + 53) ≤ 2 ^ (m.log2 + (e - e' - t).toNat) :=
            Nat.pow_le_pow_right two_pos hshift
        _ = 2 ^ m.log2 * 2 ^ (e - e' - t).toNat := pow_add ..
        _ ≤ m * 2 ^ (e - e' - t).toNat := Nat.mul_le_mul_right _ (Nat.log2_self_le hm.ne')
    have hden : m' * 2 ^ 52 ≤ m <<< (e - e' - t).toNat := by
      refine le_trans ?_ hnum
      rw [show m'.log2 + 53 = (m'.log2 + 1) + 52 by ring, pow_add 2 (m'.log2 + 1)]
      exact Nat.mul_le_mul_right _ Nat.lt_log2_self.le
    have hquotient : 2 ^ 52 ≤ m <<< (e - e' - t).toNat / m' := by
      rw [Nat.le_div_iff_mul_le hm', mul_comm]
      exact hden
    exact (Nat.le_log2 (by omega)).mpr hquotient

theorem reads_div (hx : Reads u x) (hy : Reads w y) (hne : y ≠ 0) :
    Reads (unpack .binary64 (pack .binary64 (u.div .binary64 w))) (round (x / y)) := by
  obtain ⟨s', -, rfl⟩ | ⟨s', m', e', hm', rfl, rfl⟩ := hy.cases_real
  · exact absurd rfl hne
  obtain ⟨s, rfl, rfl⟩ | ⟨s, m, e, hm, rfl, rfl⟩ := hx.cases_real
  · rw [zero_div, round_zero]
    exact reads_pack_zero (s / s')
  · have hle : (divCore .binary64 m e m' e').2.1 ≤ e - e' := min_le_left _ _
    have hample := ample_divCore (e := e) e' hm hm'
    set t := (divCore .binary64 m e m' e').2.1 with ht
    have hpower : (2 : ℝ) ^ e = 2 ^ (e - e' - t).toNat * 2 ^ t * 2 ^ e' := by
      rw [← zpow_natCast, ← zpow_add₀ two_ne_zero, ← zpow_add₀ two_ne_zero]
      congr 1
      omega
    have hquotient : factor s * (m * 2 ^ e) / (factor s' * (m' * 2 ^ e')) =
        factor (s / s') * ((((m <<< (e - e' - t).toNat : ℕ) : ℝ) / m') * 2 ^ t) := by
      have hmcast : (m' : ℝ) ≠ 0 := by exact_mod_cast hm'.ne'
      have hfactor : factor s' ≠ 0 := by cases s' <;> norm_num [factor]
      rw [factor_div, hpower, Nat.shiftLeft_eq]
      push_cast
      field_simp
      rw [sq, factor_mul_self, mul_one]
    rw [hquotient]
    refine reads_roundWithAccuracy _ ?_ (locates_div _ hm') hample
    rw [Nat.shiftLeft_eq]
    positivity

/-! ## Comparison -/

theorem Normal.lt_of_exponent_lt {m' : ℕ} {e' : ℤ} (h : Normal m e) (h' : Normal m' e')
    (hlt : e < e') : (m : ℝ) * 2 ^ e < m' * 2 ^ e' := by
  have hfull : (2 : ℝ) ^ 52 ≤ m' := by exact_mod_cast h'.full.resolve_right (by linarith [h.le])
  have hless : (m : ℝ) < 2 ^ 53 := by exact_mod_cast h.lt
  calc (m : ℝ) * 2 ^ e < 2 ^ 53 * 2 ^ e := mul_lt_mul_of_pos_right hless (zpow_pos two_pos e)
    _ = 2 ^ 52 * 2 ^ (e + 1) := by
        rw [zpow_add_one₀ two_ne_zero]
        ring
    _ ≤ m' * 2 ^ e' :=
        mul_le_mul hfull (zpow_le_zpow_right₀ one_le_two hlt) (zpow_pos two_pos _).le
          (Nat.cast_nonneg m')

/-- Exponents decide first, then mantissas. -/
theorem Normal.compare_eq {m' : ℕ} {e' : ℤ} (h : Normal m e) (h' : Normal m' e') :
    (compare e e').then (compare m m') = compare ((m : ℝ) * 2 ^ e) (m' * 2 ^ e') := by
  rcases lt_trichotomy e e' with he | rfl | he
  · rw [compare_lt_iff_lt.mpr he, compare_lt_iff_lt.mpr (h.lt_of_exponent_lt h' he)]
    rfl
  · rw [compare_eq_iff_eq.mpr rfl]
    have hpower : (0 : ℝ) < 2 ^ e := zpow_pos two_pos e
    rcases lt_trichotomy m m' with hm | rfl | hm
    · have hcast : (m : ℝ) < m' := by exact_mod_cast hm
      rw [compare_lt_iff_lt.mpr hm, compare_lt_iff_lt.mpr (mul_lt_mul_of_pos_right hcast hpower)]
      rfl
    · rw [compare_eq_iff_eq.mpr rfl, compare_eq_iff_eq.mpr rfl]
      rfl
    · have hcast : (m' : ℝ) < m := by exact_mod_cast hm
      rw [compare_gt_iff_gt.mpr hm, compare_gt_iff_gt.mpr (mul_lt_mul_of_pos_right hcast hpower)]
      rfl
  · rw [compare_gt_iff_gt.mpr he, compare_gt_iff_gt.mpr (h'.lt_of_exponent_lt h he)]
    rfl

theorem compare_coe (x y : ℝ) : compare (x : EReal) y = compare x y := by
  rcases lt_trichotomy x y with h | rfl | h
  · rw [compare_lt_iff_lt.mpr h, compare_lt_iff_lt.mpr (EReal.coe_lt_coe_iff.mpr h)]
  · rw [compare_eq_iff_eq.mpr rfl, compare_eq_iff_eq.mpr rfl]
  · rw [compare_gt_iff_gt.mpr h, compare_gt_iff_gt.mpr (EReal.coe_lt_coe_iff.mpr h)]

theorem compare_neg (x y : ℝ) : compare (-x) (-y) = (compare x y).swap := by
  rcases lt_trichotomy x y with h | rfl | h
  · rw [compare_lt_iff_lt.mpr h, compare_gt_iff_gt.mpr (neg_lt_neg h)]
    rfl
  · rw [compare_eq_iff_eq.mpr rfl, compare_eq_iff_eq.mpr rfl]
    rfl
  · rw [compare_gt_iff_gt.mpr h, compare_lt_iff_lt.mpr (neg_lt_neg h)]
    rfl

theorem some_compare_of_lt (h : v < v') : some .lt = some (compare v v') :=
  congrArg some (compare_lt_iff_lt.mpr h).symm

theorem some_compare_of_gt (h : v' < v) : some .gt = some (compare v v') :=
  congrArg some (compare_gt_iff_gt.mpr h).symm

theorem some_compare_self (v : EReal) : some .eq = some (compare v v) :=
  congrArg some (compare_eq_iff_eq.mpr rfl).symm

theorem negative_lt_zero {m : ℕ} (e : ℤ) (hm : 0 < m) :
    ((factor .negative * (m * 2 ^ e) : ℝ) : EReal) < (0 : ℝ) := by
  have hcast : (0 : ℝ) < m := by exact_mod_cast hm
  rw [EReal.coe_lt_coe_iff, factor, neg_one_mul, neg_lt_zero]
  exact mul_pos hcast (zpow_pos two_pos e)

theorem zero_lt_positive {m : ℕ} (e : ℤ) (hm : 0 < m) :
    ((0 : ℝ) : EReal) < (factor .positive * (m * 2 ^ e) : ℝ) := by
  have hcast : (0 : ℝ) < m := by exact_mod_cast hm
  rw [EReal.coe_lt_coe_iff, factor, one_mul]
  exact mul_pos hcast (zpow_pos two_pos e)

/-- Doubles compare as their values do. -/
theorem Reads.compare_eq (hu : Packed u) (hw : Packed w) (h : Reads u v) (h' : Reads w v') :
    u.compare w = some (compare v v') := by
  cases h with
  | top =>
    cases h' with
    | top => exact some_compare_self ⊤
    | bot => exact some_compare_of_gt bot_lt_top
    | zero s => exact some_compare_of_gt (EReal.coe_lt_top _)
    | finite s m e hm => cases s <;> exact some_compare_of_gt (EReal.coe_lt_top _)
  | bot =>
    cases h' with
    | top => exact some_compare_of_lt bot_lt_top
    | bot => exact some_compare_self ⊥
    | zero s => exact some_compare_of_lt (EReal.bot_lt_coe _)
    | finite s m e hm => cases s <;> exact some_compare_of_lt (EReal.bot_lt_coe _)
  | zero s =>
    cases h' with
    | top => exact some_compare_of_lt (EReal.coe_lt_top _)
    | bot => exact some_compare_of_gt (EReal.bot_lt_coe _)
    | zero s' => exact some_compare_self _
    | finite s' m e hm =>
      cases s' with
      | negative => exact some_compare_of_gt (negative_lt_zero e hm)
      | positive => exact some_compare_of_lt (zero_lt_positive e hm)
  | finite s m e hm =>
    cases h' with
    | top => cases s <;> exact some_compare_of_lt (EReal.coe_lt_top _)
    | bot => cases s <;> exact some_compare_of_gt (EReal.bot_lt_coe _)
    | zero s' =>
      cases s with
      | negative => exact some_compare_of_lt (negative_lt_zero e hm)
      | positive => exact some_compare_of_gt (zero_lt_positive e hm)
    | finite s' m' e' hm' =>
      have hmagnitudes := (hu s m e hm rfl).1.compare_eq (hw s' m' e' hm' rfl).1
      cases s <;> cases s'
      · rw [compare_coe, factor, neg_one_mul, neg_one_mul, compare_neg, ← hmagnitudes]
        rfl
      · exact some_compare_of_lt ((negative_lt_zero e hm).trans (zero_lt_positive e' hm'))
      · exact some_compare_of_gt ((negative_lt_zero e' hm').trans (zero_lt_positive e hm))
      · rw [compare_coe, factor, one_mul, one_mul, ← hmagnitudes]
        rfl

end PhasePortrait.Double
