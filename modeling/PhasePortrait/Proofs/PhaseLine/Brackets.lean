import PhasePortrait.Proofs.PhaseLine.Inquiry

/-!
# Brackets

In exact arithmetic the search over a change of sign keeps it: the middle of a range with values of
different signs at its ends is on the other side of one of the two, unless it is a zero or the function is
not finite there. So each step goes on with a half that has a change of sign of its own, and a search that
is stopped by neither ends in the middle of the last half.

## Main definitions

* `PhaseLine.ChangesSign f a b` — `f` is finite at `a` and `b`, and of different signs.
* `PhaseLine.Bracket f a b k u v` — a part with a change of sign of the range from `a` to `b`, halved `k`
  times.
-/
namespace PhasePortrait.PhaseLine
open Scalar Exact

variable {α : Type} [Scalar α] [Exact α] {f : α → α} {a b u v : ℝ} {j k : ℕ} {p q : α × α}

/-- The values at both ends are real numbers, one of them positive and one negative. -/
def ChangesSign (f : α → α) (a b : ℝ) : Prop :=
  ∃ s t : ℝ, f (ofReal a) = ofReal s ∧ f (ofReal b) = ofReal t ∧ s * t < 0

structure Bracket (f : α → α) (a b : ℝ) (k : ℕ) (u v : ℝ) : Prop where
  low : a ≤ u
  high : v ≤ b
  width : v - u = (b - a) / 2 ^ k
  changes : ChangesSign f u v

theorem isNegative_ofReal_iff (s : ℝ) : decide ((ofReal s : α) < 0.0) = decide (s < 0) := by
  rw [zero_eq_ofReal]
  exact decide_eq_decide.mpr (ofReal_lt s 0)

/-- A value that is finite and not zero is a real number of one of the two signs. -/
theorem exists_ofReal_of_regular {x : α} (hfinite : isFinite x = true) (hzero : isZero x = false) :
    ∃ s : ℝ, x = ofReal s ∧ s ≠ 0 := by
  obtain ⟨s, rfl⟩ := (isFinite_iff x).mp hfinite
  refine ⟨s, rfl, fun hs => ?_⟩
  rw [(isZero_ofReal_iff s).mpr hs] at hzero
  cases hzero

/-- What is on the side of the one end is not on the side of the other one. -/
theorem mul_neg_of_side_eq {s t m : ℝ} (hst : s * t < 0) (hm : m ≠ 0)
    (hside : decide (s < 0) = decide (m < 0)) : m * t < 0 := by
  rw [decide_eq_decide] at hside
  obtain ⟨hs, ht⟩ | ⟨hs, ht⟩ := mul_neg_iff.mp hst
  · exact mul_neg_of_pos_of_neg ((not_lt.mp (mt hside.mpr hs.not_gt)).lt_of_ne' hm) ht
  · exact mul_neg_of_neg_of_pos (hside.mp hs) ht

theorem mul_neg_of_side_ne {s m : ℝ} (hs : s ≠ 0) (hm : m ≠ 0)
    (hside : decide (s < 0) ≠ decide (m < 0)) : s * m < 0 := by
  rw [ne_eq, decide_eq_decide] at hside
  obtain hs | hs := hs.lt_or_gt
  · obtain hm | hm := hm.lt_or_gt
    · exact absurd (iff_of_true hs hm) hside
    · exact mul_neg_of_neg_of_pos hs hm
  · obtain hm | hm := hm.lt_or_gt
    · exact mul_neg_of_pos_of_neg hs hm
    · exact absurd (iff_of_false hs.not_gt hm.not_gt) hside

/-! ## Steps -/

/-- One more step, to the half with a change of sign. -/
theorem Bracket.step (hab : a ≤ b) (h : Bracket f a b k u v)
    (hstep : Halving f (ofReal u, ofReal v) q) :
    ∃ u' v', q = (ofReal u', ofReal v') ∧ Bracket f a b (k + 1) u' v' := by
  obtain ⟨hlow, hhigh, hwidth, s, t, hs, ht, hst⟩ := h
  have hle : 0 ≤ v - u := hwidth ▸ div_nonneg (sub_nonneg.mpr hab) (by positivity)
  have hhalf : (b - a) / 2 ^ (k + 1) = (v - u) / 2 := by rw [hwidth, pow_succ, div_div]
  cases hstep with
  | upper hfinite hzero hside =>
    rw [middle_ofReal] at hfinite hzero hside ⊢
    obtain ⟨m, hm, hm0⟩ := exists_ofReal_of_regular hfinite hzero
    rw [hs, hm, isNegative_ofReal_iff, isNegative_ofReal_iff] at hside
    exact ⟨_, _, rfl, by linarith, hhigh, by rw [hhalf]; ring,
      m, t, hm, ht, mul_neg_of_side_eq hst hm0 hside⟩
  | lower hfinite hzero hside =>
    rw [middle_ofReal] at hfinite hzero hside ⊢
    obtain ⟨m, hm, hm0⟩ := exists_ofReal_of_regular hfinite hzero
    rw [hs, hm, isNegative_ofReal_iff, isNegative_ofReal_iff] at hside
    exact ⟨_, _, rfl, hlow, by linarith, by rw [hhalf]; ring,
      s, m, hs, hm, mul_neg_of_side_ne (left_ne_zero_of_mul hst.ne) hm0 hside⟩

theorem Bracket.steps (hab : a ≤ b) (h : Bracket f a b j u v)
    (hsteps : Halvings f k (ofReal u, ofReal v) q) :
    ∃ u' v', q = (ofReal u', ofReal v') ∧ Bracket f a b (j + k) u' v' := by
  generalize hp : ((ofReal u, ofReal v) : α × α) = p at hsteps
  induction hsteps generalizing j u v with
  | refl => exact ⟨u, v, hp.symm, h⟩
  | @step k _ _ _ hstep _ ih =>
    subst hp
    obtain ⟨u', v', rfl, hbracket⟩ := h.step hab hstep
    obtain ⟨u'', v'', hq, hlast⟩ := ih hbracket rfl
    exact ⟨u'', v'', hq, by rwa [Nat.add_assoc, Nat.add_comm 1 k] at hlast⟩

theorem ChangesSign.bracket (h : ChangesSign f a b) : Bracket f a b 0 a b :=
  ⟨le_rfl, le_rfl, by simp, h⟩

/-! ## The whole search -/

/-- **Bisection keeps a change of sign.** In exact arithmetic, between two numbers where `f` is finite and
of different signs, the search arrives at a number of the range. If `f` is finite at every point that it
asks about, this number is a zero of `f`, or the middle of a part of the range with a change of sign, which
is `2 ^ 60` times shorter. -/
theorem bisect_brackets {α : Type} [Scalar α] [Exact α] {f : α → α} {a b : ℝ} (hab : a < b)
    (hchange : ChangesSign f a b) :
    ∃ x ∈ Set.Icc a b, bisect f (ofReal a) (ofReal b) (f (ofReal a)) = ofReal x ∧
      (bisection refinements (ofReal a) (ofReal b) (f (ofReal a))).run f = ofReal x ∧
      ((∀ y ∈ (bisection refinements (ofReal a) (ofReal b) (f (ofReal a))).asked f,
          isFinite (f y) = true) →
        f (ofReal x) = ofReal 0 ∨ ∃ u v, Bracket f a b 60 u v ∧ x = (u + v) / 2) := by
  obtain ⟨k, p, q, hk, hsteps, harrive, hstop⟩ :=
    bisectFrom_eq f refinements (ofReal a) (ofReal b)
  obtain ⟨u, v, hpq, hbracket⟩ := hchange.bracket.steps hab.le hsteps
  cases hpq
  rw [Nat.zero_add] at hbracket
  have hle : 0 ≤ v - u := hbracket.width ▸ div_nonneg (sub_nonneg.mpr hab.le) (by positivity)
  have hlow := hbracket.low
  have hhigh := hbracket.high
  rw [middle_ofReal] at harrive hstop
  refine ⟨(u + v) / 2, ⟨by linarith, by linarith⟩, harrive, (run_bisection _ _ _ _ _).trans harrive,
    fun hfinite => ?_⟩
  obtain rfl | hlt := hk.eq_or_lt
  · exact .inr ⟨u, v, hbracket, rfl⟩
  · -- stopped before its last step, where it has asked
    have hmiddle := hfinite _ (mem_asked_bisection hsteps hlt)
    rw [middle_ofReal] at hmiddle
    obtain hlast | hnot | hzero := hstop
    · exact absurd hlast hlt.ne
    · rw [hmiddle] at hnot
      cases hnot
    · obtain ⟨s, hs⟩ := (isFinite_iff _).mp hmiddle
      rw [hs, isZero_ofReal_iff] at hzero
      exact .inl (hzero ▸ hs)

/-- The square root of two, between one and two. -/
theorem bisect_brackets_root :
    let f : PartialReal → PartialReal := fun y => y * y - .real 2
    (1 : ℝ) < 2 ∧ ChangesSign f 1 2 ∧
      (∀ y ∈ (bisection refinements (.real 1) (.real 2) (f (.real 1))).asked f, isFinite (f y) = true) ∧
      ∃ x ∈ Set.Icc (1 : ℝ) 2, bisect f (.real 1) (.real 2) (f (.real 1)) = .real x ∧
        (f (.real x) = .real 0 ∨ ∃ u v, Bracket f 1 2 60 u v ∧ x = (u + v) / 2) := by
  intro f
  have hchange : ChangesSign f 1 2 :=
    ⟨1 * 1 - 2, 2 * 2 - 2, rfl, rfl, by norm_num⟩
  have hends : Inside 1 2 (PartialReal.real 1) ∧ Inside 1 2 (PartialReal.real 2) :=
    ⟨⟨1, by norm_num, rfl⟩, ⟨2, by norm_num, rfl⟩⟩
  have hfinite : ∀ y ∈ (bisection refinements (.real 1) (.real 2) (f (.real 1))).asked f,
      isFinite (f y) = true := by
    intro y hy
    obtain ⟨r, -, rfl⟩ := inside_of_mem_asked_bisection hends.1 hends.2 hy
    rfl
  obtain ⟨x, hx, harrive, -, hend⟩ := bisect_brackets one_lt_two hchange
  exact ⟨one_lt_two, hchange, hfinite, x, hx, harrive, hend hfinite⟩

end PhasePortrait.PhaseLine
