import PhasePortrait.Number.Double
import PhasePortrait.Proofs.Number.Operations

/-!
# Arithmetic on doubles

A double is a real number, an infinity or no number at all. On real numbers each operation gives the
double nearest to the exact result, and comparisons are those of the values.

## Main definitions

* `Double.Is a v` — the double `a` is the number or infinity `v`.
-/
namespace PhasePortrait.Double
open Float.Model Float.Model.UnpackedFloat

variable {a b : Float} {v v' : EReal} {x y : ℝ}

/-- The double `a` is the number or infinity `v`. -/
def Is (a : Float) (v : EReal) : Prop := Reads a.toModel.unpack v

theorem Is.unique (h : Is a v) (h' : Is a v') : v = v' := Reads.unique h h'

theorem packed (a : Float) : Packed a.toModel.unpack := packed_unpack _

theorem Is.nearest_eq (h : Is a x) : nearest x = x := (Reads.nearest_eq (packed a) h).1

/-! ## Operations -/

theorem Is.abs (h : Is a x) : Is a.abs (|x| : ℝ) := (packed a).abs.reads_pack (Reads.abs h)

theorem Is.add (ha : Is a x) (hb : Is b y) : Is (a + b) (round (x + y)) :=
  reads_add (packed a) (packed b) ha hb

theorem Is.sub (ha : Is a x) (hb : Is b y) : Is (a - b) (round (x - y)) := by
  have hneg : Reads b.toModel.unpack.neg (-y : ℝ) := Reads.neg hb
  have h := reads_add (packed a) (packed b).neg ha hneg
  rw [← sub_eq_add, ← sub_eq_add_neg] at h
  exact h

theorem Is.mul (ha : Is a x) (hb : Is b y) : Is (a * b) (round (x * y)) :=
  reads_mul (packed a) (packed b) ha hb

theorem Is.div (ha : Is a x) (hb : Is b y) (hy : y ≠ 0) : Is (a / b) (round (x / y)) :=
  reads_div ha hb hy

/-! ## Comparison -/

theorem compare_eq (ha : Is a v) (hb : Is b v') :
    a.toModel.unpack.compare b.toModel.unpack = some (compare v v') :=
  Reads.compare_eq (packed a) (packed b) ha hb

theorem lt_iff_compare :
    a < b ↔ a.toModel.unpack.compare b.toModel.unpack = some .lt :=
  (decide_eq_true_iff (p := a.toModel < b.toModel)).trans beq_iff_eq

theorem le_iff_compare :
    a ≤ b ↔ ∃ o, a.toModel.unpack.compare b.toModel.unpack = some o ∧ o.isLE := by
  refine (decide_eq_true_iff (p := a.toModel ≤ b.toModel)).trans ?_
  change (a.toModel.unpack.compare b.toModel.unpack).any (·.isLE) = true ↔ _
  cases a.toModel.unpack.compare b.toModel.unpack <;> simp

theorem lt_iff (ha : Is a v) (hb : Is b v') : a < b ↔ v < v' := by
  rw [lt_iff_compare, compare_eq ha hb, Option.some_inj, compare_lt_iff_lt]

theorem le_iff (ha : Is a v) (hb : Is b v') : a ≤ b ↔ v ≤ v' := by
  simp only [le_iff_compare, compare_eq ha hb, Option.some_inj, exists_eq_left', ← compare_le_iff_le]
  cases compare v v' <;> decide

theorem isFinite_iff : a.isFinite = true ↔ ∃ x : ℝ, Is a x := by
  change a.toModel.unpack.isFinite = true ↔ ∃ x : ℝ, Reads a.toModel.unpack x
  constructor
  · intro h
    cases hu : a.toModel.unpack with
    | notANumber | infinity => rw [hu] at h; cases h
    | zero s => exact ⟨0, .zero s⟩
    | finite s m e hm => exact ⟨_, .finite s m e hm⟩
  · rintro ⟨x, h⟩
    obtain ⟨s, hu, -⟩ | ⟨s, m, e, hm, hu, -⟩ := h.cases_real <;> rw [hu] <;> rfl

/-- What compares with something is a number or an infinity. -/
theorem exists_is_of_compare {o : Ordering}
    (h : a.toModel.unpack.compare b.toModel.unpack = some o) : (∃ v, Is a v) ∧ ∃ v, Is b v := by
  have hreads : ∀ u : UnpackedFloat, u ≠ .notANumber → ∃ v, Reads u v := by
    intro u hu
    cases u with
    | notANumber => exact absurd rfl hu
    | infinity s => cases s <;> [exact ⟨_, .bot⟩; exact ⟨_, .top⟩]
    | zero s => exact ⟨_, .zero s⟩
    | finite s m e hm => exact ⟨_, .finite s m e hm⟩
  constructor
  · refine hreads _ fun hnan => ?_
    rw [hnan] at h
    cases h
  · refine hreads _ fun hnan => ?_
    rw [hnan] at h
    cases hu : a.toModel.unpack <;> rw [hu] at h <;> cases h

theorem exists_of_lt (h : a < b) : ∃ v v', Is a v ∧ Is b v' ∧ v < v' := by
  obtain ⟨⟨v, hv⟩, v', hv'⟩ := exists_is_of_compare (lt_iff_compare.mp h)
  exact ⟨v, v', hv, hv', (lt_iff hv hv').mp h⟩

theorem exists_of_le (h : a ≤ b) : ∃ v v', Is a v ∧ Is b v' ∧ v ≤ v' := by
  obtain ⟨o, hcompare, -⟩ := le_iff_compare.mp h
  obtain ⟨⟨v, hv⟩, v', hv'⟩ := exists_is_of_compare hcompare
  exact ⟨v, v', hv, hv', (le_iff hv hv').mp h⟩

theorem exists_of_beq (h : (a == b) = true) : ∃ v, Is a v ∧ Is b v := by
  have hcompare : a.toModel.unpack.compare b.toModel.unpack = some .eq := beq_iff_eq.mp h
  obtain ⟨⟨v, hv⟩, v', hv'⟩ := exists_is_of_compare hcompare
  rw [compare_eq hv hv', Option.some_inj, compare_eq_iff_eq] at hcompare
  exact ⟨v, hv, hcompare ▸ hv'⟩

protected theorem lt_of_le_of_lt {c : Float} (h : a ≤ b) (h' : b < c) : a < c := by
  obtain ⟨v, w, hv, hw, hle⟩ := exists_of_le h
  obtain ⟨w', z, hw', hz, hlt⟩ := exists_of_lt h'
  rw [hw'.unique hw] at hlt
  exact (lt_iff hv hz).mpr (hle.trans_lt hlt)

protected theorem lt_of_lt_of_le {c : Float} (h : a < b) (h' : b ≤ c) : a < c := by
  obtain ⟨v, w, hv, hw, hlt⟩ := exists_of_lt h
  obtain ⟨w', z, hw', hz, hle⟩ := exists_of_le h'
  rw [hw'.unique hw] at hle
  exact (lt_iff hv hz).mpr (hlt.trans_le hle)

protected theorem le_of_lt (h : a < b) : a ≤ b := by
  obtain ⟨v, w, hv, hw, hlt⟩ := exists_of_lt h
  exact (le_iff hv hw).mpr hlt.le

protected theorem not_le_of_lt (h : a < b) : ¬ b ≤ a := by
  obtain ⟨v, w, hv, hw, hlt⟩ := exists_of_lt h
  rw [le_iff hw hv]
  exact hlt.not_ge

/-- Only numbers have an absolute value below another double. -/
theorem isFinite_of_abs_lt (h : a.abs < b) : a.isFinite = true := by
  change a.toModel.unpack.isFinite = true
  have habs : a.abs.toModel.unpack = unpack .binary64 (pack .binary64 a.toModel.unpack.abs) := rfl
  obtain ⟨v, w, hv, -, hlt⟩ := exists_of_lt h
  rw [Is, habs] at hv
  cases hu : a.toModel.unpack with
  | notANumber =>
    have hnan : unpack .binary64 (pack .binary64 UnpackedFloat.notANumber.abs) = .notANumber := rfl
    rw [hu, hnan] at hv
    cases hv
  | infinity s =>
    have hinf : unpack .binary64 (pack .binary64 (infinity .positive)) = .infinity .positive := rfl
    rw [hu, show (infinity s).abs = infinity .positive from rfl, hinf] at hv
    rw [hv.unique .top] at hlt
    exact absurd hlt not_top_lt
  | zero s => rfl
  | finite s m e hm => rfl

theorem isFinite_of_unpack_pack {u : UnpackedFloat}
    (h : (unpack .binary64 (pack .binary64 u)).isFinite = true) : u.isFinite = true := by
  cases u with
  | notANumber => cases h
  | infinity s => cases s <;> cases h
  | zero s => rfl
  | finite s m e hm => rfl

/-- Only numbers add up to a number. -/
theorem isFinite_of_add (h : (a + b).isFinite = true) : a.isFinite = true ∧ b.isFinite = true := by
  have hsum : (add .binary64 a.toModel.unpack b.toModel.unpack).isFinite = true :=
    isFinite_of_unpack_pack h
  change a.toModel.unpack.isFinite = true ∧ b.toModel.unpack.isFinite = true
  cases hu : a.toModel.unpack with
  | notANumber =>
    rw [hu] at hsum
    cases hsum
  | infinity s =>
    rw [hu] at hsum
    cases hw : b.toModel.unpack with
    | infinity s' => rw [hw] at hsum; cases s <;> cases s' <;> cases hsum
    | notANumber | zero | finite => rw [hw] at hsum; cases hsum
  | zero | finite =>
    refine ⟨rfl, ?_⟩
    cases hw : b.toModel.unpack with
    | zero | finite => rfl
    | notANumber | infinity => rw [hu, hw] at hsum; cases hsum

/-- Only numbers multiply to a number. -/
theorem isFinite_of_mul (h : (a * b).isFinite = true) : a.isFinite = true ∧ b.isFinite = true := by
  have hproduct : (mul .binary64 a.toModel.unpack b.toModel.unpack).isFinite = true :=
    isFinite_of_unpack_pack h
  change a.toModel.unpack.isFinite = true ∧ b.toModel.unpack.isFinite = true
  generalize a.toModel.unpack = u at *
  generalize b.toModel.unpack = w at *
  cases u with
  | notANumber => cases hproduct
  | infinity => cases w <;> cases hproduct
  | zero | finite =>
    refine ⟨rfl, ?_⟩
    cases w with
    | zero | finite => rfl
    | notANumber | infinity => cases hproduct

/-- What is divided into a number is a number. -/
theorem isFinite_of_div (h : (a / b).isFinite = true) : a.isFinite = true := by
  have hquotient : (div .binary64 a.toModel.unpack b.toModel.unpack).isFinite = true :=
    isFinite_of_unpack_pack h
  change a.toModel.unpack.isFinite = true
  generalize a.toModel.unpack = u at *
  cases u with
  | zero | finite => rfl
  | notANumber => cases hquotient
  | infinity => cases hw : b.toModel.unpack <;> rw [hw] at hquotient <;> cases hquotient

/-! ## Values -/

open Classical in
/-- The real number that a double is, if it is one. -/
noncomputable def real (a : Float) : ℝ := if h : ∃ x : ℝ, Is a x then h.choose else 0

theorem Is.real_eq (h : Is a x) : real a = x := by
  have hreal : ∃ x : ℝ, Is a x := ⟨x, h⟩
  rw [real, dif_pos hreal]
  exact EReal.coe_eq_coe_iff.mp (hreal.choose_spec.unique h)

/-! ## Literals -/

theorem is_of_unpack {s : Sign} {m : ℕ} {e : ℤ} {hm : 0 < m}
    (h : a.toModel.unpack = .finite s m e hm) : Is a (factor s * (m * 2 ^ e) : ℝ) := by
  rw [Is, h]
  exact .finite s m e hm

theorem is_zero : Is (0.0 : Float) (0 : ℝ) := by
  have hunpack : (0.0 : Float).toModel.unpack = .zero .positive := rfl
  rw [Is, hunpack]
  exact .zero _

/-- A positive literal, by its mantissa and exponent. -/
theorem is_of_unpack_positive {m : ℕ} {e : ℤ} {hm : 0 < m}
    (h : a.toModel.unpack = .finite .positive m e hm) (hx : m * 2 ^ e = x) : Is a x := by
  rw [← hx, ← one_mul (_ * _)]
  exact is_of_unpack h

theorem is_half : Is (0.5 : Float) (1 / 2 : ℝ) := by
  have hunpack : (0.5 : Float).toModel.unpack = .finite .positive (2 ^ 52) (-53) (by decide) := rfl
  exact is_of_unpack_positive hunpack (by norm_num)

/-! ## Natural numbers -/

theorem nearest_natCast {n : ℕ} (h : n < 2 ^ 53) : nearest n = n := by
  have hsize : |(n : ℤ)| ≤ 2 ^ 53 := by
    rw [Nat.abs_cast]
    exact_mod_cast h.le
  have hdyadic := nearest_dyadic (e := 0) hsize (by norm_num)
  rwa [zpow_zero, mul_one, Int.cast_natCast] at hdyadic

/-- Natural numbers that are exact. -/
theorem is_toFloat {n : ℕ} (h : n < 2 ^ 53) : Is n.toUInt64.toFloat n := by
  have hnat : n.toUInt64.toNat = n := by
    rw [UInt64.toNat_ofNat']
    exact Nat.mod_eq_of_lt (h.trans (by norm_num))
  have hreads := reads_normalize n 0 .positive
  have hlt : |(n : ℝ)| < limit := by
    have hpow : (2 : ℝ) ^ 53 ≤ limit := by
      rw [limit]
      exact pow_le_pow_right₀ one_le_two (by norm_num)
    rw [Nat.abs_cast]
    exact lt_of_lt_of_le (by exact_mod_cast h) hpow
  rw [zpow_zero, mul_one, Int.cast_natCast, Double.round_eq (nearest_natCast h) hlt] at hreads
  have hmodel : n.toUInt64.toFloat.toModel =
      Float.Model.pack (UnpackedFloat.normalize .binary64 n 0 .positive) := by
    change Float.Model.pack (UnpackedFloat.normalize .binary64 (n.toUInt64.toNat : ℕ) 0 .positive) = _
    rw [hnat]
  rw [Is, hmodel]
  exact hreads

theorem is_ofNat (n : ℕ) : Is (Float.ofNat n) (round n) := by
  rw [Float.ofNat]
  change Is (Float.ofScientific n false 0) _
  unfold Float.ofScientific
  by_cases hsmall : n < 2 ^ 53
  · rw [dif_pos ⟨hsmall, by norm_num⟩]
    have hone : Is (Float.ofBits 0x3FF0000000000000) (1 : ℝ) := by
      have hunpack : (Float.ofBits 0x3FF0000000000000).toModel.unpack =
          .finite .positive (2 ^ 52) (-52) (by decide) := rfl
      exact is_of_unpack_positive hunpack (by norm_num)
    have h := (is_toFloat hsmall).mul hone
    rw [mul_one] at h
    exact h
  · rw [dif_neg (fun h => hsmall h.1)]
    have hpos : 0 < n := by omega
    have hlog : 52 ≤ (n <<< 53 * 10 ^ 0).log2 := by
      rw [pow_zero, mul_one, log2_shiftLeft hpos.ne']
      omega
    have hcast : (0 : ℝ) < ((n <<< 53 * 10 ^ 0 : ℕ) : ℝ) := by
      rw [Nat.shiftLeft_eq]
      positivity
    have hexact : Locates (n <<< 53 * 10 ^ 0) .exact ((n <<< 53 * 10 ^ 0 : ℕ) : ℝ) := rfl
    have h := reads_roundWithAccuracy (e := -53 + 0) .positive hcast hexact (.inl hlog)
    have hvalue : factor .positive * (((n <<< 53 * 10 ^ 0 : ℕ) : ℝ) * 2 ^ (-53 + 0 : ℤ)) = n := by
      rw [Nat.shiftLeft_eq, factor]
      push_cast
      norm_num [mul_assoc]
    rw [hvalue] at h
    have hmodel : UnpackedFloat.ofScientific .binary64 n 0 =
        roundWithAccuracy .binary64 .positive (n <<< 53 * 10 ^ 0) (-53 + 0) .exact := by
      rw [UnpackedFloat.ofScientific, dif_neg hpos.ne', if_neg (by norm_num),
        if_neg (by norm_num), if_pos le_rfl]
      rfl
    rw [← hmodel] at h
    exact h

/-! ## Scalars -/

open Scalar

theorem isFinite_eq_true_iff : Scalar.isFinite a = true ↔ ∃ x : ℝ, Is a x := isFinite_iff

theorem isZero_iff : isZero a = true ↔ Is a (0 : ℝ) := by
  rw [isZero, same, Bool.and_eq_true, decide_eq_true_iff, decide_eq_true_iff]
  constructor
  · rintro ⟨hle, hge⟩
    obtain ⟨v, z, hv, hz, hle⟩ := exists_of_le hle
    obtain ⟨z', v', hz', hv', hge⟩ := exists_of_le hge
    rw [hz.unique is_zero] at hle
    rw [hz'.unique is_zero, hv'.unique hv] at hge
    rwa [le_antisymm hle hge] at hv
  · intro h
    exact ⟨(le_iff h is_zero).mpr le_rfl, (le_iff is_zero h).mpr le_rfl⟩

/-- Factors of a negative product lie on different sides of zero. -/
theorem side_ne_of_mul_neg (ha : Scalar.isFinite a = true) (hb : Scalar.isFinite b = true)
    (h : a * b < 0.0) : decide (a < 0.0) ≠ decide (b < 0.0) := by
  obtain ⟨x, hx⟩ := isFinite_eq_true_iff.mp ha
  obtain ⟨y, hy⟩ := isFinite_eq_true_iff.mp hb
  have hproduct : round (x * y) < round 0 := by
    rw [round_zero]
    exact (lt_iff (hx.mul hy) is_zero).mp h
  have hneg : x * y < 0 := lt_of_not_ge fun hge => (round_mono hge).not_gt hproduct
  have hxlt : a < 0.0 ↔ x < 0 := (lt_iff hx is_zero).trans EReal.coe_lt_coe_iff
  have hylt : b < 0.0 ↔ y < 0 := (lt_iff hy is_zero).trans EReal.coe_lt_coe_iff
  intro hside
  rw [decide_eq_decide, hxlt, hylt] at hside
  rcases mul_neg_iff.mp hneg with ⟨hpos, hneg⟩ | ⟨hneg, hpos⟩
  · exact hpos.not_gt (hside.mpr hneg)
  · exact hpos.not_gt (hside.mp hneg)

end PhasePortrait.Double
