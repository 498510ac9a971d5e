import PhasePortrait.Proofs.Flow.Doubling
import PhasePortrait.Proofs.Flow.Prefixes
import PhasePortrait.Proofs.Flow.Termination
import PhasePortrait.Proofs.Number.Roots
import PhasePortrait.Proofs.PhaseLine.SignChanges

/-!
# What stays finite in a computation

States are held to being finite where they are reached, but times, lengths of steps and positions on a
grid are not. A counted time is finite if the last one is, or if it comes right after a time before a
horizon that is not too far off. Step doubling does not go backwards, so the length of an attempt is
never more than the time that is left, whatever the length has grown to. Points of a grid, and what a
search finds between them, are finite on a range of moderate size.

## Main definitions

* `Integrator.Forward p` — the run at `p` has not gone backwards.
* `Integrator.Measured tEnd s` — what is finite in the sample `s` of a run to `tEnd`.
-/
namespace PhasePortrait
open Scalar Double PhaseLine

variable {d e : ℝ}

/-! ## Counted times -/

namespace Trajectory

variable {dt horizon : Float} {count j k : Nat}

theorem cast_twoTo (n : ℕ) : ((Rounding.twoTo n : ℕ) : ℝ) = 2 ^ (n : ℤ) := by
  rw [zpow_natCast]
  exact Nat.cast_pow 2 n

theorem cast_lastCount : (lastCount : ℝ) = largest := by
  have hone : 1 ≤ Rounding.twoTo 53 := Nat.pos_of_ne_zero (by decide +kernel)
  have hdigits : ((Rounding.twoTo 53 : ℕ) : ℝ) = 2 ^ 53 := (cast_twoTo 53).trans (zpow_natCast 2 53)
  have hunit : ((Rounding.twoTo 971 : ℕ) : ℝ) = 2 ^ (971 : ℤ) := cast_twoTo 971
  unfold lastCount largest
  push_cast [hone]
  rw [hdigits, hunit]

/-- A double for every count up to the last one. -/
theorem is_natCast (h : j ≤ lastCount) : Is (j : Float) (nearest j : ℝ) := by
  refine is_natCast_of_cast_le ?_
  rw [← cast_lastCount]
  exact_mod_cast h

theorem is_timeAt {t : ℝ} (hcount : Is (j : Float) t) (hj : 0 < j) (hdt : Is dt d) :
    Is (timeAt dt j) (Double.round (t * d)) := by
  obtain ⟨i, rfl⟩ : ∃ i, j = i + 1 := ⟨j - 1, by omega⟩
  exact hcount.mul hdt

/-- Times before a finite one are finite. -/
theorem isFinite_timeAt_of_le (hdt : Is dt d) (hd : 0 ≤ d) (hcount : count ≤ 2 ^ 65)
    (hlast : isFinite (timeAt dt count) = true) (hj : j ≤ count) :
    isFinite (timeAt dt j) = true := by
  rcases Nat.eq_zero_or_pos j with rfl | hpos
  · exact isFinite_eq_true_iff.mpr ⟨0, is_zero⟩
  · have hthis := is_timeAt (is_natCast_of_le (hj.trans hcount)) hpos hdt
    have hlater := is_timeAt (is_natCast_of_le hcount) (hpos.trans_le hj) hdt
    obtain ⟨t, ht⟩ := isFinite_eq_true_iff.mp hlast
    have hle : nearest j ≤ nearest count := nearest_mono (by exact_mod_cast hj)
    refine isFinite_of_between hthis (x := 0) (y := t) ?_ ?_
    · exact zero_le_round (mul_nonneg (nearest_nonneg (Nat.cast_nonneg j)) hd)
    · exact hlater.unique ht ▸ round_mono (mul_le_mul_of_nonneg_right hle hd)

/-- After a time before the horizon comes one that is finite, for it is the step or not much more than
twice the time before it. -/
theorem isFinite_timeAt_succ (hdt : Is dt d) (hd : 0 ≤ d) (hhorizon : Is horizon e) (he : e ≤ reach)
    (hk : k + 1 ≤ lastCount) (hbefore : timeAt dt k < horizon) :
    isFinite (timeAt dt (k + 1)) = true := by
  have hnext := is_timeAt (is_natCast hk) k.succ_pos hdt
  rcases Nat.eq_zero_or_pos k with rfl | hpos
  · rw [zero_add, Nat.cast_one, nearest_one, one_mul] at hnext
    exact isFinite_eq_true_iff.mpr ⟨d, hdt.round_eq ▸ hnext⟩
  · have hthis := is_timeAt (is_natCast (by omega)) hpos hdt
    have hless := (lt_iff hthis hhorizon).mp hbefore
    have htime : nearest k * d ≤ e := by
      refine le_of_not_gt fun hlt => ?_
      have hround := round_mono hlt.le
      rw [hhorizon.round_eq] at hround
      exact hround.not_gt hless
    have hbelow := abs_le.mp (abs_nearest_natCast_sub_le hpos)
    have habove := abs_le.mp (abs_nearest_natCast_sub_le k.succ_pos)
    have hcast : (1 : ℝ) ≤ k := by exact_mod_cast hpos
    have hratio : nearest (k + 1 : ℕ) ≤ 2.001 * nearest k := by
      norm_num at hbelow habove ⊢
      linarith
    have hproduct : nearest (k + 1 : ℕ) * d ≤ largest := by
      have hlargest := one_le_largest
      calc nearest (k + 1 : ℕ) * d ≤ 2.001 * nearest k * d := mul_le_mul_of_nonneg_right hratio hd
        _ = 2.001 * (nearest k * d) := by ring
        _ ≤ 2.001 * reach := by linarith
        _ ≤ largest := by
            rw [reach]
            linarith
    have hnonneg : 0 ≤ nearest (k + 1 : ℕ) * d := mul_nonneg (nearest_nonneg (Nat.cast_nonneg _)) hd
    rw [round_eq_nearest (by rwa [abs_of_nonneg hnonneg])] at hnext
    exact isFinite_eq_true_iff.mpr ⟨_, hnext⟩

/-- The entries of a counted trajectory: the start, and finite states up to the count. -/
theorem of_mem_ofCount {σ : Type} {step : σ → σ} {isFinite : σ → Bool} {s s' : σ}
    (h : (j, s') ∈ ofCount step isFinite count s) :
    j ≤ count ∧ (s' = s ∨ isFinite s' = true) := by
  have hmem : (j, s') ∈ upTo step isFinite s count :=
    toList_ofCount step isFinite count s ▸ Array.mem_toList_iff.mpr h
  rcases of_mem_upTo hmem with hstart | ⟨hfinite, k, rfl, hk⟩
  · cases hstart
    exact ⟨Nat.zero_le _, .inl rfl⟩
  · exact ⟨hk, .inr hfinite⟩

/-- The entries up to a horizon: the start, and finite states one step after a time before it. -/
theorem of_mem_untilTime {σ : Type} {step : σ → σ} {isFinite : σ → Bool} {s s' : σ}
    (h : (j, s') ∈ untilTime step isFinite dt horizon s) :
    (j, s') = (0, s) ∨
      isFinite s' = true ∧ ∃ k, j = k + 1 ∧ timeAt dt k < horizon ∧ k + 1 ≤ lastCount := by
  obtain ⟨last, hlast⟩ := exists_ends dt horizon
  have hmem : (j, s') ∈ upTo step isFinite s last :=
    toList_untilTime step isFinite s hlast ▸ Array.mem_toList_iff.mpr h
  rcases of_mem_upTo hmem with hstart | ⟨hfinite, k, rfl, hk⟩
  · exact .inl hstart
  · exact .inr ⟨hfinite, k, rfl, hlast.before hk, hk.trans_le hlast.le_lastCount⟩

end Trajectory

/-! ## Step doubling -/

namespace Integrator

variable {n : Nat} {f : Rhs Float n} {c : Control Float} {p next : Progress Float n}
  {s : AdaptiveSample Float n}

/-- A run that does not go backwards: time and length are numbers that are not negative, or have
overflowed. -/
structure Forward (p : Progress Float n) : Prop where
  time : ∃ v, Is p.t v ∧ 0 ≤ v
  length : ∃ v, Is p.h v ∧ 0 ≤ v

/-- Settings that keep a run going forward. -/
structure Control.Forward (c : Control Float) (tEnd : ℝ) : Prop where
  tEnd : Is c.tEnd tEnd
  maxH : ∃ v, Is c.maxH v ∧ 0 ≤ v

/-- An attempt before the end has a finite length, and comes to a finite time if the end is not too far
off: it is clipped, or its own sum does not pass the end. -/
theorem Forward.exists_clip (hp : Forward p) (hc : c.Forward e) (hend : p.t < c.tEnd) :
    ∃ t h : ℝ, Is p.t t ∧ 0 ≤ t ∧ Is (c.clip p) h ∧ 0 ≤ h ∧
      (e ≤ reach → isFinite (p.t + c.clip p) = true) := by
  obtain ⟨v, hv, hv0⟩ := hp.time
  have hlt := (lt_iff hv hc.tEnd).mp hend
  obtain ⟨t, rfl⟩ := exists_real_of_between hv0 hlt.le
  have ht0 : 0 ≤ t := EReal.coe_nonneg.mp hv0
  have hte : t < e := EReal.coe_lt_coe_iff.mp hlt
  rw [Control.clip]
  split
  · have hhigh : Double.round (e - t) ≤ e := by
      rw [← hc.tEnd.round_eq]
      exact round_mono (by linarith)
    have hlow : 0 ≤ Double.round (e - t) := zero_le_round (by linarith)
    have hclip := hc.tEnd.sub hv
    obtain ⟨h, hh⟩ := exists_real_of_between hlow hhigh
    rw [hh] at hlow hhigh hclip
    refine ⟨t, h, hv, ht0, hclip, EReal.coe_nonneg.mp hlow, fun he => ?_⟩
    have hsum : |t + h| ≤ largest := by
      have hhe := EReal.coe_le_coe_iff.mp hhigh
      rw [abs_of_nonneg (add_nonneg ht0 (EReal.coe_nonneg.mp hlow))]
      rw [reach] at he
      linarith [one_le_largest]
    exact isFinite_eq_true_iff.mpr ⟨_, hv.add_of_abs_le hclip hsum⟩
  · next hfits =>
    obtain ⟨w, hw, hw0⟩ := hp.length
    have htop : w ≠ ⊤ := by
      rintro rfl
      exact hfits ((lt_iff hc.tEnd (hv.add_top hw)).mpr (EReal.coe_lt_top e))
    lift w to ℝ using ⟨htop, (EReal.bot_lt_zero.trans_le hw0).ne'⟩
    have hsum := hv.add hw
    rw [lt_iff hc.tEnd hsum, not_lt] at hfits
    have hw0 : 0 ≤ w := EReal.coe_nonneg.mp hw0
    exact ⟨t, w, hv, ht0, hw, hw0, fun _ =>
      isFinite_of_between hsum (zero_le_round (add_nonneg ht0 hw0)) hfits⟩

theorem is_growth : Is (growth : Float) (3 / 2 : ℝ) := by
  have hunpack : (growth : Float).toModel.unpack =
      .finite .positive (3 * 2 ^ 51) (-52) (by decide) := rfl
  exact is_of_unpack_positive hunpack (by norm_num)

theorem is_maxGrowth : Is (maxGrowth : Float) (4 : ℝ) := by
  have hunpack : (maxGrowth : Float).toModel.unpack =
      .finite .positive (2 ^ 52) (-50) (by decide) := rfl
  exact is_of_unpack_positive hunpack (by norm_num)

theorem is_shrinkage : Is (shrinkage : Float) (1 / 2 : ℝ) := is_half

theorem exists_nonneg_mul {a b : Float} {x y : ℝ} (ha : Is a x) (hb : Is b y) (hx : 0 ≤ x)
    (hy : 0 ≤ y) : ∃ v, Is (a * b) v ∧ 0 ≤ v :=
  ⟨_, ha.mul hb, zero_le_round (mul_nonneg hx hy)⟩

theorem Control.Forward.grow (hc : c.Forward e) {h error : Float} {x : ℝ} (hh : Is h x)
    (hx : 0 ≤ x) : ∃ v, Is (c.grow h error) v ∧ 0 ≤ v := by
  rw [Control.grow]
  split
  · split
    · exact hc.maxH
    · exact exists_nonneg_mul hh is_growth hx (by norm_num)
  · exact ⟨x, hh, EReal.coe_nonneg.mpr hx⟩

theorem Forward.accepted (hp : Forward p) (hc : c.Forward e) (hend : p.t < c.tEnd)
    (h : attempt f c p = .accepted s next) : Forward next := by
  obtain ⟨t, x, ht, ht0, hx, hx0, -⟩ := hp.exists_clip hc hend
  obtain ⟨htime, hlength⟩ := of_accepted h
  constructor
  · rw [htime]
    exact ⟨_, ht.add hx, zero_le_round (add_nonneg ht0 hx0)⟩
  · rw [hlength]
    exact hc.grow hx hx0

theorem Forward.rejected (hp : Forward p) (hc : c.Forward e) (hend : p.t < c.tEnd)
    (h : attempt f c p = .rejected next) : Forward next := by
  obtain ⟨t, x, ht, ht0, hx, hx0, -⟩ := hp.exists_clip hc hend
  obtain ⟨-, htime, hlength⟩ := of_rejected h
  constructor
  · rw [htime]
    exact ⟨t, ht, EReal.coe_nonneg.mpr ht0⟩
  · rw [hlength]
    exact exists_nonneg_mul hx is_shrinkage hx0 (by norm_num)

/-- What is finite in a sample of a run to the time `tEnd`. The error of a step that was taken for its
shortness may be anything. -/
structure Measured (tEnd : ℝ) (s : AdaptiveSample Float n) : Prop where
  time : tEnd ≤ reach → isFinite s.t = true
  state : ∀ (i : Nat) (h : i < n), isFinite s.y[i] = true
  length : isFinite s.h = true
  error : isFinite s.error = true ∨ s.h < minStep

/-- An error below the tolerance is finite, since it is a root. -/
theorem Follows.error_finite {a : Sample Float n} (h : Follows f c a s) :
    isFinite s.error = true ∨ s.h < minStep := by
  refine h.accepted.imp_left fun hbelow => ?_
  obtain ⟨v, w, hv, -, hlt⟩ := exists_of_lt hbelow
  have hroot : 0 ≤ v := by
    rw [h.error, norm] at hv
    exact nonneg_of_is_sqrt hv
  lift v to ℝ using ⟨(hlt.trans_le le_top).ne, (EReal.bot_lt_zero.trans_le hroot).ne'⟩
  exact isFinite_eq_true_iff.mpr ⟨v, hv⟩

theorem Forward.measured (hp : Forward p) (hc : c.Forward e) (hend : p.t < c.tEnd)
    (h : attempt f c p = .accepted s next) : Measured e s := by
  obtain ⟨t, x, ht, ht0, hx, hx0, htime⟩ := hp.exists_clip hc hend
  obtain ⟨hfollows, -⟩ := follows_of_attempt hend h
  have hlength := length_of_accepted h
  have hsum : s.t = p.t + c.clip p := hlength ▸ hfollows.time
  exact ⟨hsum ▸ htime, hfollows.finite, hlength ▸ isFinite_eq_true_iff.mpr ⟨x, hx⟩,
    hfollows.error_finite⟩

/-- A run that goes forward adds samples of finite numbers. -/
theorem Forward.measured_of_mem_runAttempts (hc : c.Forward e) (limit : Nat) (hp : Forward p)
    {samples : Array (AdaptiveSample Float n)} (h : ∀ s ∈ samples, Measured e s) :
    ∀ s ∈ runAttempts f c limit p samples, Measured e s := by
  induction limit generalizing p samples with
  | zero => exact h
  | succ limit ih =>
    rw [runAttempts]
    split
    · next hend =>
      split
      · next s next hattempt =>
        refine ih (hp.accepted hc hend hattempt) fun r hr => ?_
        rcases Array.mem_push.mp hr with hr | rfl
        · exact h r hr
        · exact hp.measured hc hend hattempt
      · next hattempt => exact ih (hp.rejected hc hend hattempt) h
      · exact h
      · exact h
    · exact h

/-- The samples of a run from time zero between doubles. -/
theorem measured_of_mem_adaptive {y₀ : Vector Float n} {tEnd h₀ tolerance : Float}
    {maxSteps : Option Nat} {samples : Array (AdaptiveSample Float n)} (htEnd : Is tEnd e)
    (hh₀ : Is h₀ d) (hd : 0 ≤ d) (hy₀ : ∀ (i : Nat) (h : i < n), isFinite y₀[i] = true)
    (h : adaptive f 0.0 y₀ tEnd h₀ tolerance maxSteps = .ok samples) (hs : s ∈ samples) :
    Measured e s := by
  have hzero : isFinite (0.0 : Float) = true := isFinite_eq_true_iff.mpr ⟨0, is_zero⟩
  have hc : Control.Forward ⟨tEnd, tolerance, h₀ * maxGrowth⟩ e :=
    ⟨htEnd, exists_nonneg_mul hh₀ is_maxGrowth hd (by norm_num)⟩
  have hp : Forward ⟨0.0, y₀, h₀⟩ := ⟨⟨0, is_zero, le_rfl⟩, d, hh₀, EReal.coe_nonneg.mpr hd⟩
  have hstart : ∀ s ∈ #[(⟨⟨0.0, y₀⟩, 0.0, 0.0⟩ : AdaptiveSample Float n)], Measured e s := by
    intro r hr
    rw [Array.mem_singleton.mp hr]
    exact ⟨fun _ => hzero, hy₀, hzero, .inl hzero⟩
  unfold adaptive at h
  split at h
  · cases h
  split at h
  · cases h
  have hsamples := Except.ok.inj h
  rw [← hsamples] at hs
  exact hp.measured_of_mem_runAttempts hc _ hstart s hs

end Integrator

/-! ## Grids -/

namespace PhaseLine

variable {f : Float → Float} {xMin xMax tolerance x : Float} {count : Nat}

theorem Moderate.isFinite_of_mem_points (h : Moderate xMin xMax count)
    (hx : x ∈ Grid.points xMin xMax count) : isFinite x = true := by
  obtain ⟨y, hy, -⟩ := h.within (f := id) (List.mem_map_of_mem hx)
  exact isFinite_eq_true_iff.mpr ⟨y, hy⟩

theorem Moderate.isFinite_of_mem_equilibria (h : Moderate xMin xMax count) {p : PhaseLinePoint Float}
    (hp : p ∈ (ofFunction f xMin xMax count tolerance).equilibria) : isFinite p.x = true := by
  obtain ⟨c, hc, rfl⟩ := List.mem_map.mp hp
  exact h.isFinite_of_mem_candidates (List.mem_mergeSort.mp (mem_of_mem_select hc))

theorem Moderate.isFinite_of_mem_degenerate (h : Moderate xMin xMax count) {i : Interval Float}
    (hi : i ∈ (ofFunction f xMin xMax count tolerance).degenerate) :
    isFinite i.low = true ∧ isFinite i.high = true := by
  have hpoint : ∀ x ∈ (((gridValues f xMin xMax count).map fun s => (s.x, s.zero)).map Prod.fst),
      isFinite x = true := by
    intro x hx
    rw [List.map_map] at hx
    obtain ⟨s, hs, rfl⟩ := List.mem_map.mp hx
    obtain ⟨y, hy, -⟩ := h.within hs
    exact isFinite_eq_true_iff.mpr ⟨y, hy⟩
  obtain ⟨hlow, hhigh⟩ := ends_of_mem_runsFrom hi
  exact ⟨hpoint _ hlow, hpoint _ hhigh⟩

end PhaseLine

namespace Field

variable {f : Rhs Float 2} {xLow xHigh yLow yHigh tolerance gap : Float} {size : Nat} {p : Point Float}

theorem mem_of_mem_foldl_keep {points : List (Point Float)} {kept : Array (Point Float)}
    (h : p ∈ points.foldl (keep gap) kept) : p ∈ kept ∨ p ∈ points := by
  induction points generalizing kept with
  | nil => exact .inl h
  | cons q points ih =>
    rcases ih h with hkept | hlater
    · rw [keep] at hkept
      split at hkept
      · rcases Array.mem_push.mp hkept with hkept | rfl
        · exact .inl hkept
        · exact .inr List.mem_cons_self
      · exact .inl hkept
    · exact .inr (List.mem_cons_of_mem _ hlater)

/-- Equilibria are points of the grid. -/
theorem mem_points_of_mem_equilibria {points : Array (Point Float)}
    (h : equilibria f xLow xHigh yLow yHigh tolerance size = .ok points) (hp : p ∈ points) :
    p.x ∈ Grid.points xLow xHigh size ∧ p.y ∈ Grid.points yLow yHigh size := by
  unfold equilibria at h
  split at h
  · cases h
  · rw [← Except.ok.inj h] at hp
    have hgrid := (mem_of_mem_foldl_keep hp).resolve_left (Array.not_mem_empty p)
    obtain ⟨x, hx, hp⟩ := List.mem_flatMap.mp (List.mem_of_mem_filter hgrid)
    obtain ⟨y, hy, rfl⟩ := List.mem_map.mp hp
    exact ⟨hx, hy⟩

end Field

end PhasePortrait
