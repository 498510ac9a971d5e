import PhasePortrait.Proofs.Number.Reach

/-!
# Roots and signs of doubles

The square root of a double is the double nearest to the exact root, and never a negative number or
negative infinity. Sums and products of doubles that are not negative are not negative either, as far
as they are in range or overflow upwards; what exceeds every number stays so when a number is added.
-/
namespace PhasePortrait.Double
open Float.Model Float.Model.UnpackedFloat

variable {u : UnpackedFloat} {a b : Float} {v : EReal} {x y : ℝ} {m : ℕ} {e : ℤ}

/-! ## Square roots -/

/-- What a whole root leaves over places the exact root beside it: the middle of two whole numbers
has the square `r * r + r + 1 / 4`. -/
theorem locates_sqrt (n : ℕ) :
    Locates n.sqrt (if n - n.sqrt * n.sqrt = 0 then .exact
      else .inexact (if n - n.sqrt * n.sqrt ≤ n.sqrt then .lt else .gt)) √n := by
  have hle : n.sqrt * n.sqrt ≤ n := Nat.sqrt_le n
  have hlt : n < (n.sqrt + 1) * (n.sqrt + 1) := Nat.lt_succ_sqrt n
  set r := n.sqrt
  have hr : (0 : ℝ) ≤ r := Nat.cast_nonneg r
  split
  · next hexact =>
    have hsquare : (n : ℝ) = (r : ℝ) ^ 2 := by
      rw [sq]
      exact_mod_cast (by omega : n = r * r)
    rw [Locates, hsquare, Real.sqrt_sq hr]
  · next hrest =>
    split
    · next hbelow =>
      have habove : (r : ℝ) ^ 2 < n := by
        rw [sq]
        exact_mod_cast (by omega : r * r < n)
      have hhalf : (n : ℝ) < (r + 1 / 2 : ℝ) ^ 2 := by
        have hcast : (n : ℝ) ≤ r * r + r := by exact_mod_cast (by omega : n ≤ r * r + r)
        linarith
      have hroot := (Real.sqrt_lt' (by linarith)).mpr hhalf
      exact ⟨(Real.lt_sqrt hr).mpr habove, by linarith⟩
    · next hbeyond =>
      have hhalf : (r + 1 / 2 : ℝ) ^ 2 < n := by
        have hcast : (r * r + r + 1 : ℝ) ≤ n := by exact_mod_cast (by omega : r * r + r + 1 ≤ n)
        linarith
      have hbelow : (n : ℝ) < (r + 1 : ℝ) ^ 2 := by
        rw [sq]
        exact_mod_cast hlt
      have hroot := (Real.lt_sqrt (by linarith)).mpr hhalf
      exact ⟨by linarith, (Real.sqrt_lt' (by linarith)).mpr hbelow⟩

/-- Enough digits are asked of a root. -/
theorem ample_sqrtCore (e : ℤ) (hm : 0 < m) :
    2 * (sqrtCore .binary64 m e).2.1 ≤ e ∧
      Ample (sqrtCore .binary64 m e).1 (sqrtCore .binary64 m e).2.1 := by
  have htarget : Format.binary64.targetExponent ((totalExponent m e + 1).ediv 2) =
      max ((m.log2 + e + 2) / 2 - 53) (-1074) := by
    have htotal : totalExponent m e + 1 = m.log2 + e + 2 := by
      unfold totalExponent
      omega
    rw [htotal]
    rfl
  have hhalf : e.ediv 2 = e / 2 := rfl
  simp only [sqrtCore, htarget, hhalf, Ample]
  set t := min (e / 2) (max (((m.log2 : ℤ) + e + 2) / 2 - 53) (-1074)) with ht
  refine ⟨by omega, or_iff_not_imp_right.mpr fun hlow => ?_⟩
  -- the radicand has been shifted to at least 105 digits
  have hlog : (m <<< (e - 2 * t).toNat).log2 = m.log2 + (e - 2 * t).toNat :=
    log2_shiftLeft hm.ne' _
  have hshifted : m <<< (e - 2 * t).toNat ≠ 0 := by
    rw [Nat.shiftLeft_eq]
    positivity
  have hdigits : 2 ^ 52 * 2 ^ 52 ≤ m <<< (e - 2 * t).toNat := by
    rw [← pow_add]
    exact (Nat.le_log2 hshifted).mp (by omega)
  have hroot : 2 ^ 52 ≤ (m <<< (e - 2 * t).toNat).sqrt := Nat.le_sqrt.mpr hdigits
  exact (Nat.le_log2 (by omega)).mpr hroot

theorem reads_sqrt (hm : 0 < m) (e : ℤ) :
    Reads (unpack .binary64 (pack .binary64
        (UnpackedFloat.sqrt .binary64 (.finite .positive m e hm))))
      (round √(m * 2 ^ e)) := by
  obtain ⟨hle, hample⟩ := ample_sqrtCore e hm
  set t := (sqrtCore .binary64 m e).2.1 with ht
  have hvalue := decreaseExponent_eq (m := m) hle
  have hsquare : (2 : ℝ) ^ (2 * t) = (2 ^ t) ^ 2 := by
    rw [mul_comm, zpow_mul, zpow_ofNat]
  have hpos : (0 : ℝ) < (decreaseExponent m e (2 * t)).1 := by
    rw [decreaseExponent, Nat.shiftLeft_eq]
    positivity
  rw [← hvalue, hsquare, Real.sqrt_mul hpos.le, Real.sqrt_sq (zpow_pos two_pos t).le,
    ← one_mul (_ * _)]
  exact reads_roundWithAccuracy .positive (Real.sqrt_pos.mpr hpos) (locates_sqrt _) hample

theorem Is.sqrt (h : Is a x) (hx : 0 ≤ x) : Is a.sqrt (round √x) := by
  change Reads (unpack .binary64 (pack .binary64 (a.toModel.unpack.sqrt .binary64))) _
  obtain ⟨s, hu, rfl⟩ | ⟨s, m, e, hm, hu, rfl⟩ := h.cases_real
  · rw [hu, Real.sqrt_zero, round_zero]
    exact reads_pack_zero s
  · rw [hu]
    cases s with
    | negative => exact absurd (negative_lt_zero e hm) (EReal.coe_nonneg.mpr hx).not_gt
    | positive =>
      rw [factor, one_mul]
      exact reads_sqrt hm e

theorem not_reads_nan : ¬ Reads (unpack .binary64 (pack .binary64 .notANumber)) v := by
  have hnan : unpack .binary64 (pack .binary64 .notANumber) = .notANumber := rfl
  rw [hnan]
  exact nofun

/-- A root that is anything at all is not negative. -/
theorem nonneg_of_is_sqrt (h : Is a.sqrt v) : 0 ≤ v := by
  have hreads : Reads (unpack .binary64 (pack .binary64 (a.toModel.unpack.sqrt .binary64))) v := h
  cases hu : a.toModel.unpack with
  | notANumber =>
    rw [hu] at hreads
    exact absurd hreads not_reads_nan
  | infinity s =>
    rw [hu] at hreads
    cases s with
    | positive =>
      rw [hreads.unique .top]
      exact le_top
    | negative => exact absurd hreads not_reads_nan
  | zero s =>
    rw [hu] at hreads
    rw [hreads.unique (reads_pack_zero s)]
    exact le_rfl
  | finite s m e hm =>
    rw [hu] at hreads
    cases s with
    | positive =>
      rw [hreads.unique (reads_sqrt hm e), ← EReal.coe_zero, ← round_zero]
      exact round_mono (Real.sqrt_nonneg _)
    | negative => exact absurd hreads not_reads_nan

/-! ## Signs -/

theorem Is.round_eq (h : Is a x) : round x = x :=
  Double.round_eq h.nearest_eq (Reads.nearest_eq (packed a) h).2

/-- What lies between two numbers is a number. -/
theorem exists_real_of_between (hlow : x ≤ v) (hhigh : v ≤ y) : ∃ z : ℝ, v = z := by
  lift v to ℝ using ⟨(hhigh.trans_lt (EReal.coe_lt_top y)).ne,
    ((EReal.bot_lt_coe x).trans_le hlow).ne'⟩
  exact ⟨v, rfl⟩

theorem isFinite_of_between (h : Is a v) (hlow : x ≤ v) (hhigh : v ≤ y) : a.isFinite = true := by
  obtain ⟨z, rfl⟩ := exists_real_of_between hlow hhigh
  exact isFinite_iff.mpr ⟨z, h⟩

theorem zero_le_round (hx : 0 ≤ x) : 0 ≤ round x := by
  rw [← EReal.coe_zero, ← round_zero]
  exact round_mono hx

theorem Reads.eq_infinity (h : Reads u ⊤) : u = .infinity .positive := by
  generalize hv : (⊤ : EReal) = v at h
  cases h with
  | top => rfl
  | bot => cases hv
  | zero | finite => exact absurd hv.symm (EReal.coe_ne_top _)

theorem reads_pack_infinity :
    Reads (unpack .binary64 (pack .binary64 (.infinity .positive))) ⊤ := .top

/-- Infinity absorbs every number. -/
theorem Is.add_top (ha : Is a x) (hb : Is b ⊤) : Is (a + b) ⊤ := by
  change Reads (unpack .binary64 (pack .binary64
    (a.toModel.unpack.add .binary64 b.toModel.unpack))) ⊤
  rw [Reads.eq_infinity hb]
  obtain ⟨s, hu, -⟩ | ⟨s, m, e, hm, hu, -⟩ := ha.cases_real
  all_goals
    rw [hu]
    exact reads_pack_infinity

end PhasePortrait.Double
