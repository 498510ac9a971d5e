import Mathlib.Algebra.Order.Ring.Nat
import Mathlib.Tactic.Ring
import PhasePortrait.Formula.Coefficient

/-!
# Numbers that are rounded already

The number of a text is a whole number below a power of two, its precision, and odd unless it is zero.
Rounding it to its precision once more changes nothing, and so it is one times itself.

## Main definitions

* `Approx.Settled x` — the mantissa of `x` is positive, odd and within the precision.
-/
namespace PhasePortrait

namespace Rounding

variable {num den : Nat}

theorem le_nearest (num den : Nat) : num / den ≤ nearest num den := by
  simp only [nearest]
  split
  · exact le_rfl
  · split
    · exact Nat.le_succ _
    · exact Nat.le_add_right _ _

theorem nearest_le (num den : Nat) : nearest num den ≤ num / den + 1 := by
  simp only [nearest]
  split
  · exact Nat.le_succ _
  · split
    · exact le_rfl
    · have := Nat.mod_lt (num / den) (Nat.zero_lt_two)
      omega

@[simp] theorem nearest_one_right (n : Nat) : nearest n 1 = n := by
  simp [nearest, Nat.mod_one]

/-- A quotient is below the power of two after its leading one, here multiplied out. -/
theorem lt_of_leadingBit (num : Nat) (hden : 0 < den) {a b : Nat} (h : a + leadingBit num den + 1 ≤ b) :
    num * 2 ^ a < den * 2 ^ b := by
  simp only [leadingBit, twoTo, Nat.pow_eq] at h
  set guess : Int := (Nat.log2 num : Int) - Nat.log2 den with hguess
  have hpow : ∀ {i j : Nat}, i ≤ j → 2 ^ i ≤ 2 ^ j := fun hij => Nat.pow_le_pow_right Nat.two_pos hij
  -- the guess is never too low
  have hlow : a + guess + 1 ≤ b → num * 2 ^ a < den * 2 ^ b := fun hb => by
    have hden : 2 ^ Nat.log2 den ≤ den := Nat.log2_self_le hden.ne'
    calc num * 2 ^ a < 2 ^ (Nat.log2 num + 1) * 2 ^ a :=
          Nat.mul_lt_mul_of_pos_right Nat.lt_log2_self (Nat.two_pow_pos a)
      _ = 2 ^ (Nat.log2 num + 1 + a) := (pow_add _ _ _).symm
      _ ≤ 2 ^ (Nat.log2 den + b) := hpow (by omega)
      _ = 2 ^ Nat.log2 den * 2 ^ b := pow_add _ _ _
      _ ≤ den * 2 ^ b := Nat.mul_le_mul_right _ hden
  by_cases hsign : 0 ≤ guess
  · simp only [hsign, if_true] at h
    split at h
    · exact hlow h
    · next hfits =>
      calc num * 2 ^ a < den * 2 ^ guess.toNat * 2 ^ a :=
            Nat.mul_lt_mul_of_pos_right (not_le.mp hfits) (Nat.two_pow_pos a)
        _ = den * 2 ^ (guess.toNat + a) := by rw [pow_add, mul_assoc]
        _ ≤ den * 2 ^ b := Nat.mul_le_mul_left _ (hpow (by omega))
  · simp only [hsign, if_false] at h
    split at h
    · exact hlow h
    · next hfits =>
      calc num * 2 ^ a ≤ num * 2 ^ ((-guess).toNat + b) := Nat.mul_le_mul_left _ (hpow (by omega))
        _ = num * 2 ^ (-guess).toNat * 2 ^ b := by rw [pow_add, mul_assoc]
        _ < den * 2 ^ b := Nat.mul_lt_mul_of_pos_right (not_le.mp hfits) (Nat.two_pow_pos b)

/-- A quotient that is scaled to so many digits does not have more of them. -/
theorem lt_of_shift (num : Nat) (hden : 0 < den) {digits : Nat} (hdigits : 0 < digits) {power : Int}
    (hpower : power = -(leadingBit num den - (digits - 1 : Nat))) :
    0 < (shift num den power).2 ∧
      (shift num den power).1 < (shift num den power).2 * 2 ^ digits := by
  simp only [shift, twoTo, Nat.pow_eq]
  split
  · exact ⟨hden, lt_of_leadingBit num hden (by omega)⟩
  · refine ⟨Nat.mul_pos hden (Nat.two_pow_pos _), ?_⟩
    rw [mul_assoc, ← pow_add]
    simpa using lt_of_leadingBit num (a := 0) hden (by omega)

theorem leadingBit_one_right {n : Nat} (hn : n ≠ 0) : leadingBit n 1 = Nat.log2 n := by
  have hlog : Nat.log2 1 = 0 := by decide
  simp [leadingBit, hlog, twoTo, Nat.log2_self_le hn]

end Rounding

namespace Approx
open Rounding

/-- The mantissa of a number as it comes out of a rounding to its precision. -/
structure Settled (x : Approx) : Prop where
  pos : 0 < x.mantissa
  odd : x.mantissa % 2 = 1
  lt : x.mantissa < 2 ^ x.precision

theorem settled_natCast {m precision : Nat} (hodd : m % 2 = 1) (hlt : m < 2 ^ precision)
    (e : Int) : Settled ⟨m, e, precision⟩ where
  pos := show 0 < (m : Int) by omega
  odd := show (m : Int) % 2 = 1 by omega
  lt := show (m : Int) < 2 ^ precision by exact_mod_cast hlt

/-! ## Factors of two -/

theorem shed_le (fuel m : Nat) (e : Int) : (shed fuel m e).1 ≤ m := by
  induction fuel generalizing m e with
  | zero => exact le_rfl
  | succ fuel ih =>
    rw [shed]
    split
    · exact (ih _ _).trans (Nat.div_le_self m 2)
    · exact le_rfl

/-- With a step for each digit but one, all factors of two are gone. -/
theorem odd_shed {fuel m : Nat} (hm : 0 < m) (h : m < 2 ^ (fuel + 1)) (e : Int) :
    (shed fuel m e).1 % 2 = 1 := by
  induction fuel generalizing m e with
  | zero =>
    obtain rfl : m = 1 := by omega
    rfl
  | succ fuel ih =>
    rw [shed]
    split
    · exact ih (by omega) (by rw [pow_succ] at h; omega) _
    · omega

theorem shed_twoTo {m : Nat} (hodd : m % 2 = 1) {k fuel : Nat} (hk : k ≤ fuel) (e : Int) :
    shed fuel (m * 2 ^ k) e = (m, e + k) := by
  induction fuel generalizing k e with
  | zero =>
    obtain rfl := Nat.le_zero.mp hk
    simp [shed]
  | succ fuel ih =>
    cases k with
    | zero => simp [shed, hodd]
    | succ k =>
      have heven : m * 2 ^ (k + 1) = m * 2 ^ k * 2 := by rw [pow_succ, mul_assoc]
      rw [shed, heven, if_pos (Nat.mul_mod_left _ _), Nat.mul_div_cancel _ Nat.two_pos,
        ih (Nat.le_of_succ_le_succ hk)]
      exact Prod.ext rfl (by push_cast; ring)

/-! ## Rounding -/

theorem settled_ofQuotient {precision num den : Nat} (hprecision : 0 < precision)
    (h : (ofQuotient precision false num den).mantissa ≠ 0) :
    (ofQuotient precision false num den).Settled := by
  unfold ofQuotient at h ⊢
  split at h
  · exact absurd rfl h
  · next hzero =>
    rw [if_neg hzero]
    obtain ⟨-, hden⟩ := not_or.mp hzero
    obtain ⟨hd, hlt⟩ := lt_of_shift num (Nat.pos_of_ne_zero hden) hprecision rfl
    simp only [Bool.false_eq_true, if_false, ne_eq, Nat.cast_eq_zero] at h ⊢
    generalize leadingBit num den - (precision - 1 : Nat) = e at h hd hlt ⊢
    generalize hn : nearest (shift num den (-e)).1 (shift num den (-e)).2 = n at h ⊢
    have hle : n ≤ 2 ^ precision := by
      rw [← hn]
      exact (nearest_le _ _).trans (Nat.succ_le_of_lt ((Nat.div_lt_iff_lt_mul hd).mpr
        (by rwa [mul_comm])))
    have hshed := shed_le precision n e
    have hodd := odd_shed (by omega)
      (hle.trans_lt (Nat.pow_lt_pow_right Nat.one_lt_two precision.lt_succ_self)) e
    have heven : 2 ^ precision % 2 = 0 := Nat.mod_eq_zero_of_dvd (dvd_pow_self 2 hprecision.ne')
    have hlt : (shed precision n e).1 < 2 ^ precision := by omega
    exact settled_natCast hodd hlt _

/-- A whole number within the precision needs no rounding. -/
theorem ofQuotient_natCast (m precision : Nat) (hodd : m % 2 = 1) (hlt : m < 2 ^ precision) :
    ofQuotient precision false m 1 = ⟨m, 0, precision⟩ := by
  have hpos : m ≠ 0 := by omega
  obtain ⟨k, hk⟩ := Nat.exists_eq_add_of_lt ((Nat.log2_lt hpos).mpr hlt)
  have hexponent : leadingBit m 1 - (precision - 1 : Nat) = -(k : Int) := by
    rw [leadingBit_one_right hpos]
    omega
  have hshed := shed_twoTo hodd (show k ≤ precision by omega) (-(k : Int))
  simp only [ofQuotient, hpos, one_ne_zero, or_self, if_false, hexponent, neg_neg, shift,
    Int.natCast_nonneg, if_true, Int.toNat_natCast, twoTo, Nat.pow_eq, nearest_one_right, hshed,
    Bool.false_eq_true, neg_add_cancel]

/-- A number is rounded to itself. -/
theorem ofScaled_self {x : Approx} (hx : x.Settled) :
    ofScaled x.precision x.mantissa x.exponent = x := by
  obtain ⟨mantissa, e, precision⟩ := x
  obtain ⟨m, rfl⟩ := Int.eq_ofNat_of_zero_le hx.pos.le
  have hodd : (m : Int) % 2 = 1 := hx.odd
  have hlt : (m : Int) < 2 ^ precision := hx.lt
  have hsign : decide ((m : Int) < 0) = false := by simp
  simp only [ofScaled, hsign, Int.natAbs_natCast,
    ofQuotient_natCast m precision (by omega) (by exact_mod_cast hlt), zero_add]
  rw [if_neg hx.pos.ne']

/-- One times a number is the number. -/
theorem one_mul_of_settled {x : Approx} (hx : x.Settled) :
    Coefficient.one.mul (.approx x) = .approx x := by
  have hprecision : x.precision ≠ 0 := fun h => by
    have hlt := hx.lt
    rw [h] at hlt
    exact absurd hx.pos (by omega)
  have hone : Coefficient.one.toApprox x.precision = ⟨1, 0, x.precision⟩ :=
    ofQuotient_natCast 1 x.precision rfl (Nat.one_lt_two_pow hprecision)
  have hmul : x.mul ⟨1, 0, x.precision⟩ = x := by
    rw [mul, max_self, mul_one, add_zero, ofScaled_self hx]
  show Coefficient.settled (x.mul (Coefficient.one.toApprox x.precision)) = .approx x
  rw [hone, hmul, Coefficient.settled, if_neg hx.pos.ne']

/-! ## Texts -/

theorem ofQuotient_nonneg (precision num den : Nat) :
    0 ≤ (ofQuotient precision false num den).mantissa := by
  unfold ofQuotient
  split
  · exact le_rfl
  · exact Int.natCast_nonneg _

theorem ofText_nonneg (text : String) : 0 ≤ (ofText text).mantissa := by
  unfold ofText
  split
  · exact ofQuotient_nonneg _ _ _
  · exact le_refl (0 : Int)

theorem bitsOfDigits_pos (digits : Nat) : 0 < bitsOfDigits digits := by
  have hnearest : ∀ a b c : Nat, 0 < b → b ≤ c → 0 < nearest ((a + 1) * c) b := fun a b c hb hle =>
    (Nat.div_pos (hle.trans (Nat.le_mul_of_pos_left c a.succ_pos)) hb).trans_le (le_nearest _ _)
  exact hnearest digits (tenTo 16) _ (by decide) (by decide)

theorem settled_ofText {text : String} (h : (ofText text).mantissa ≠ 0) : (ofText text).Settled := by
  unfold ofText at h ⊢
  split at h
  · next d hd =>
    have hprecision := bitsOfDigits_pos (max leastDigits (digitsGiven text d))
    generalize bitsOfDigits (max leastDigits (digitsGiven text d)) = precision at h hprecision ⊢
    exact settled_ofQuotient hprecision h
  · exact absurd rfl h

end Approx

end PhasePortrait
