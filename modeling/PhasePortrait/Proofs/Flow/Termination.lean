import Mathlib.Tactic.Linarith
import PhasePortrait.Proofs.Flow.Doubling
import PhasePortrait.Proofs.Number.Exact

/-!
# Step doubling ends

A run of step doubling makes rounds: each is an attempt after which it goes on, from a later time or
with a shorter length. No single quantity falls with every round, for an accepted attempt may
lengthen the next one. In exact arithmetic the length of an attempt stays above a least step, unless
the attempt is clipped at the end, because attempts below `minStep` are never rejected. So the time
that is left, in least steps, bounds the accepted attempts, and each accepted attempt lengthens the
next one less than a rejected one shortens it.

Nothing is said about rounding: between doubles the time that is left may overflow.

## Main definitions

* `Rounds f c k p q` — `k` rounds lead from `p` to `q`.
* `Stands least t h p` — `p` is at the time `t` with the length `h`, which is not less than `least`.
* `Paced f c least tEnd t h p` — moreover, what the next attempt of a run at `p` may come to.
-/
namespace PhasePortrait.Integrator
open Scalar Exact

/-! ## Rounds -/

section
variable {α : Type} [Scalar α] {n : Nat} {f : Rhs α n} {c : Control α}

/-- An attempt before the end after which the run goes on. -/
inductive Round (f : Rhs α n) (c : Control α) (p next : Progress α n) : Prop where
  | accepted (s : AdaptiveSample α n) (hend : p.t < c.tEnd) (h : attempt f c p = .accepted s next)
  | rejected (hend : p.t < c.tEnd) (h : attempt f c p = .rejected next)

/-- A number of rounds in a row. -/
inductive Rounds (f : Rhs α n) (c : Control α) : Nat → Progress α n → Progress α n → Prop where
  | none (p : Progress α n) : Rounds f c 0 p p
  | next {k : Nat} {p q r : Progress α n} (h : Round f c p q) (rest : Rounds f c k q r) :
      Rounds f c (k + 1) p r

theorem Rounds.single {p q : Progress α n} (h : Round f c p q) : Rounds f c 1 p q := .next h (.none q)

theorem Round.before_end {p q : Progress α n} (h : Round f c p q) : p.t < c.tEnd := by
  cases h with
  | accepted _ hend _ => exact hend
  | rejected hend _ => exact hend

theorem Round.unique {p q r : Progress α n} (hq : Round f c p q) (hr : Round f c p r) : q = r := by
  obtain ⟨s, -, hq⟩ | ⟨-, hq⟩ := hq <;> obtain ⟨s', -, hr⟩ | ⟨-, hr⟩ := hr
  · exact (Attempt.accepted.inj (hq.symm.trans hr)).2
  · exact nomatch hq.symm.trans hr
  · exact nomatch hq.symm.trans hr
  · exact Attempt.rejected.inj (hq.symm.trans hr)

/-- Series of rounds that are never longer than a bound have a longest one, which cannot go on. -/
theorem exists_last {bound : Nat} {p : Progress α n} (h : ∀ j q, Rounds f c j p q → j ≤ bound) :
    ∃ k last, k ≤ bound ∧ Rounds f c k p last ∧ (∀ q, ¬ Round f c last q) ∧
      ∀ j q, Rounds f c j p q → j ≤ k := by
  induction bound generalizing p with
  | zero =>
      refine ⟨0, p, le_rfl, .none p, fun q hq => ?_, h⟩
      exact absurd (h 1 q (.single hq)) (Nat.not_succ_le_zero 0)
  | succ bound ih =>
      by_cases hgoes : ∃ q, Round f c p q
      · obtain ⟨q, hq⟩ := hgoes
        obtain ⟨k, last, hk, hlast, hstop, hmax⟩ :=
          ih fun j r hr => Nat.le_of_succ_le_succ (h (j + 1) r (.next hq hr))
        refine ⟨k + 1, last, Nat.succ_le_succ hk, .next hq hlast, hstop, fun j r hr => ?_⟩
        cases hr with
        | none => exact Nat.zero_le _
        | next hq' rest =>
            cases hq.unique hq'
            exact Nat.succ_le_succ (hmax _ _ rest)
      · refine ⟨0, p, Nat.zero_le _, .none p, fun q hq => hgoes ⟨q, hq⟩, fun j r hr => ?_⟩
        cases hr with
        | none => exact le_rfl
        | next hq _ => exact absurd ⟨_, hq⟩ hgoes

theorem runAttempts_of_end {p : Progress α n} (hend : ¬ p.t < c.tEnd) (limit : Nat)
    (samples : Array (AdaptiveSample α n)) : runAttempts f c limit p samples = samples := by
  cases limit with
  | zero => rfl
  | succ limit => rw [runAttempts, if_neg hend]

/-- Attempts beyond the longest possible series of rounds change nothing. -/
theorem runAttempts_eq_of_le {k limit : Nat} {p : Progress α n}
    (h : ∀ j q, Rounds f c j p q → j ≤ k) (hk : k ≤ limit) (samples : Array (AdaptiveSample α n)) :
    runAttempts f c limit p samples = runAttempts f c k p samples := by
  induction k generalizing limit p samples with
  | zero =>
      have hlast : ∀ q, ¬ Round f c p q := fun q hq =>
        absurd (h 1 q (.single hq)) (Nat.not_succ_le_zero 0)
      cases limit with
      | zero => rfl
      | succ limit =>
          rw [runAttempts, runAttempts]
          split
          · next hend =>
            cases hattempt : attempt f c p with
            | accepted s next => exact absurd (.accepted s hend hattempt) (hlast next)
            | rejected next => exact absurd (.rejected hend hattempt) (hlast next)
            | diverged => rfl
            | stalled => rfl
          · rfl
  | succ k ih =>
      obtain ⟨limit, rfl⟩ : ∃ m, limit = m + 1 := ⟨limit - 1, by omega⟩
      have hnext : ∀ {q}, Round f c p q → ∀ j r, Rounds f c j q r → j ≤ k := fun hq j r hr =>
        Nat.le_of_succ_le_succ (h (j + 1) r (.next hq hr))
      rw [runAttempts, runAttempts]
      split
      · next hend =>
        cases hattempt : attempt f c p with
        | accepted s next =>
            exact ih (hnext (.accepted s hend hattempt)) (Nat.le_of_succ_le_succ hk) _
        | rejected next =>
            exact ih (hnext (.rejected hend hattempt)) (Nat.le_of_succ_le_succ hk) _
        | diverged => rfl
        | stalled => rfl
      · rfl

end

/-! ## The pace of a run in exact arithmetic -/

section
variable {α : Type} [Scalar α] {n : Nat} {f : Rhs α n} {c : Control α} {p next : Progress α n}

theorem of_rejected (h : attempt f c p = .rejected next) :
    ¬ c.clip p < minStep ∧ next.t = p.t ∧ next.h = c.clip p * shrinkage := by
  cases attempted_of_eq h with
  | rejected hreject => exact ⟨fun hshort => hreject (.inr hshort), rfl, rfl⟩

theorem of_accepted {s : AdaptiveSample α n} (h : attempt f c p = .accepted s next) :
    next.t = p.t + c.clip p ∧ next.h = c.grow (c.clip p) s.error := by
  cases attempted_of_eq h
  exact ⟨rfl, rfl⟩

theorem length_of_accepted {s : AdaptiveSample α n} (h : attempt f c p = .accepted s next) :
    s.h = c.clip p := by
  cases attempted_of_eq h
  rfl

end

variable {α : Type} [Scalar α] [Exact α] {n : Nat} {f : Rhs α n} {c : Control α}
  {p q : Progress α n} {tEnd h₀ t h : ℝ}

@[simp] theorem minStep_eq : (minStep : α) = ofReal 1e-10 := ofScientific_eq ..
@[simp] theorem growth_eq : (growth : α) = ofReal 1.5 := ofScientific_eq ..
@[simp] theorem shrinkage_eq : (shrinkage : α) = ofReal 0.5 := ofScientific_eq ..
@[simp] theorem maxGrowth_eq : (maxGrowth : α) = ofReal 4.0 := ofScientific_eq ..

/-- Settings in real numbers, for a run with the first length `h₀`. -/
structure Control.InReals (c : Control α) (tEnd h₀ : ℝ) : Prop where
  tEnd : c.tEnd = ofReal tEnd
  maxH : c.maxH = ofReal (h₀ * 4)
  pos : 0 < h₀

/-- The length of an attempt that is not clipped is never less than this. -/
noncomputable def leastStep (h₀ : ℝ) : ℝ := min h₀ (1e-10 / 2.0)

theorem leastStep_pos (hpos : 0 < h₀) : 0 < leastStep h₀ := lt_min hpos (by norm_num)

/-- Where a run stands, in real numbers. -/
structure Stands (least t h : ℝ) (p : Progress α n) : Prop where
  time : p.t = ofReal t
  length : p.h = ofReal h
  least_le : least ≤ h

theorem clip_eq_min (hc : c.InReals tEnd h₀) (htime : p.t = ofReal t) (hlength : p.h = ofReal h) :
    c.clip p = ofReal (min h (tEnd - t)) := by
  simp only [Control.clip, hc.tEnd, htime, hlength, ofReal_add, ofReal_lt, ofReal_sub]
  split
  · next hover => rw [min_eq_right (by linarith)]
  · next hover => rw [min_eq_left (by linarith)]

theorem Stands.clip_eq {least : ℝ} (hp : Stands least t h p) (hc : c.InReals tEnd h₀) :
    c.clip p = ofReal (min h (tEnd - t)) :=
  clip_eq_min hc hp.time hp.length

theorem grow_eq_ite (hc : c.InReals tEnd h₀) (s : ℝ) (error : α) :
    c.grow (ofReal s) error =
      if error < c.tolerance / 10.0 then ofReal (min (s * 1.5) (h₀ * 4)) else ofReal s := by
  simp only [Control.grow, hc.maxH, growth_eq, ofReal_mul, ofReal_lt]
  congr 1
  split
  · next hcap => rw [min_eq_right hcap.le]
  · next hcap => rw [min_eq_left (not_lt.mp hcap)]

/-- The length after a step stays as it is or grows, up to the longest that is allowed. -/
theorem grow_eq_or (hc : c.InReals tEnd h₀) (s : ℝ) (error : α) :
    c.grow (ofReal s) error = ofReal s ∨
      c.grow (ofReal s) error = ofReal (min (s * 1.5) (h₀ * 4)) := by
  rw [grow_eq_ite hc]
  split
  · exact .inr rfl
  · exact .inl rfl

theorem exists_grow_eq (hc : c.InReals tEnd h₀) {s : ℝ} (hs : leastStep h₀ ≤ s) (error : α) :
    ∃ h', c.grow (ofReal s) error = ofReal h' ∧ leastStep h₀ ≤ h' ∧ h' ≤ 2 * s := by
  have hpos := leastStep_pos hc.pos
  have hfirst : leastStep h₀ ≤ h₀ := min_le_left _ _
  obtain hgrow | hgrow := grow_eq_or hc s error
  · exact ⟨s, hgrow, hs, by linarith⟩
  · refine ⟨_, hgrow, le_min (by linarith) (by linarith [hc.pos]), ?_⟩
    linarith [min_le_left (s * 1.5) (h₀ * 4)]

/-- What a round comes to: the end, a later time, or a shorter length. -/
theorem Stands.round (hp : Stands (leastStep h₀) t h p) (hc : c.InReals tEnd h₀)
    (hround : Round f c p q) :
    t < tEnd ∧ (¬ q.t < c.tEnd ∨
      (∃ h', Stands (leastStep h₀) (t + h) h' q ∧ h' ≤ 2 * h) ∨
      ∃ h', Stands (leastStep h₀) t h' q ∧ 2 * h' ≤ h) := by
  have hclip := hp.clip_eq hc
  have hbefore : t < tEnd := by
    obtain ⟨s, hend, -⟩ | ⟨hend, -⟩ := hround <;>
      rwa [hp.time, hc.tEnd, ofReal_lt] at hend
  refine ⟨hbefore, ?_⟩
  obtain ⟨s, -, hattempt⟩ | ⟨-, hattempt⟩ := hround
  · obtain ⟨htime, hlength⟩ := of_accepted hattempt
    rw [hclip, hp.time, ofReal_add] at htime
    rw [hclip] at hlength
    obtain hclipped | hfull := le_total (tEnd - t) h
    · -- a clipped step ends the run, exactly
      left
      rw [htime, min_eq_right hclipped, hc.tEnd, ofReal_lt]
      linarith
    · right; left
      rw [min_eq_left hfull] at htime hlength
      obtain ⟨h', hgrow, hleast, hle⟩ := exists_grow_eq hc hp.least_le s.error
      exact ⟨h', ⟨htime, hlength.trans hgrow, hleast⟩, hle⟩
  · right; right
    obtain ⟨hshort, htime, hlength⟩ := of_rejected hattempt
    rw [hclip, minStep_eq, ofReal_lt, not_lt] at hshort
    rw [hclip, shrinkage_eq, ofReal_mul] at hlength
    have hhalf : leastStep h₀ ≤ 1e-10 / 2.0 := min_le_right _ _
    have hle : min h (tEnd - t) ≤ h := min_le_left _ _
    refine ⟨_, ⟨htime.trans hp.time, hlength, ?_⟩, ?_⟩
    · linarith
    · linarith

/-- **The rounds of a run are bounded**, by twice the least steps that the time left has room for
and the doublings from the least step to the length of the next attempt. -/
theorem Stands.rounds_le (hc : c.InReals tEnd h₀) {k : Nat} (hrounds : Rounds f c k p q) :
    ∀ {t h : ℝ} (room doublings : Nat), Stands (leastStep h₀) t h p →
      tEnd - t ≤ room * leastStep h₀ → h ≤ 2 ^ doublings * leastStep h₀ →
      k ≤ 2 * room + doublings := by
  have hpos := leastStep_pos hc.pos
  induction hrounds with
  | none p => intros; exact Nat.zero_le _
  | @next k p q r hround rest ih =>
      intro t h room doublings hp hroom hdoublings
      obtain ⟨hbefore, hq⟩ := hp.round hc hround
      -- there is room for the attempt, as the end lies ahead
      obtain ⟨room, rfl⟩ : ∃ m, room = m + 1 := by
        refine ⟨room - 1, (Nat.succ_pred_eq_of_ne_zero ?_).symm⟩
        rintro rfl
        simp only [Nat.cast_zero, zero_mul] at hroom
        linarith
      push_cast at hroom
      obtain hended | ⟨h', hq, hle⟩ | ⟨h', hq, hle⟩ := hq
      · cases rest with
        | none => omega
        | next hround' _ => exact absurd hround'.before_end hended
      · have hk := ih room (doublings + 1) hq (by linarith [hp.least_le])
          (by rw [pow_succ]; linarith)
        omega
      · obtain ⟨doublings, rfl⟩ : ∃ m, doublings = m + 1 := by
          refine ⟨doublings - 1, (Nat.succ_pred_eq_of_ne_zero ?_).symm⟩
          rintro rfl
          linarith [hq.least_le]
        have hk := ih (room + 1) doublings hq (by push_cast; linarith)
          (by rw [pow_succ] at hdoublings; linarith)
        omega

theorem Stands.of_rounds (hc : c.InReals tEnd h₀) {k : Nat} (hrounds : Rounds f c k p q) :
    ∀ {t h : ℝ}, Stands (leastStep h₀) t h p → q.t < c.tEnd →
      ∃ t' h', Stands (leastStep h₀) t' h' q := by
  induction hrounds with
  | none p => exact fun hp _ => ⟨_, _, hp⟩
  | next hround rest ih =>
      intro t h hp hend
      obtain ⟨-, hended | ⟨h', hq, -⟩ | ⟨h', hq, -⟩⟩ := hp.round hc hround
      · cases rest with
        | none => exact absurd hend hended
        | next hround' _ => exact absurd hround'.before_end hended
      · exact ih hq hend
      · exact ih hq hend

/-! ## The whole run -/

/-- Where a run stands and what its next attempt may come to: it is `h` long, unless clipped to the
time that is left; if it is rejected, it was not shorter than `minStep`, and is repeated at half its
length; if it is accepted and does not reach the end, it takes the time on by `least` or more. -/
structure Paced (f : Rhs α n) (c : Control α) (least tEnd t h : ℝ) (p : Progress α n) : Prop
    extends Stands least t h p where
  clip : c.clip p = ofReal (min h (tEnd - t))
  rejected : ∀ next, attempt f c p = .rejected next →
    1e-10 ≤ min h (tEnd - t) ∧ next.t = p.t ∧ next.h = ofReal (min h (tEnd - t) / 2)
  accepted : ∀ s next, attempt f c p = .accepted s next → next.t < c.tEnd →
    ∃ t', next.t = ofReal t' ∧ t + least ≤ t'

theorem Stands.paced (hp : Stands (leastStep h₀) t h p) (hc : c.InReals tEnd h₀) :
    Paced f c (leastStep h₀) tEnd t h p where
  toStands := hp
  clip := hp.clip_eq hc
  rejected next hattempt := by
    obtain ⟨hshort, htime, hlength⟩ := of_rejected hattempt
    rw [hp.clip_eq hc, minStep_eq, ofReal_lt, not_lt] at hshort
    rw [hp.clip_eq hc, shrinkage_eq, ofReal_mul] at hlength
    refine ⟨hshort, htime, hlength.trans (congrArg _ ?_)⟩
    ring
  accepted s next hattempt hend := by
    have htime := (of_accepted hattempt).1
    rw [hp.clip_eq hc, hp.time, ofReal_add] at htime
    rw [htime, hc.tEnd, ofReal_lt] at hend
    have hfull : min h (tEnd - t) = h := by
      refine min_eq_left ?_
      by_contra hclipped
      rw [min_eq_right (by linarith)] at hend
      linarith
    exact ⟨_, htime, by linarith [hp.least_le]⟩

theorem le_ceilNat_mul (x : ℝ) {l : ℝ} (hl : 0 < l) :
    x ≤ ceilNat (ofReal x / ofReal l : α) * l := by
  obtain hx | hx := le_or_gt x 0
  · exact hx.trans (mul_nonneg (Nat.cast_nonneg _) hl.le)
  · rw [ofReal_div _ _ hl.ne']
    exact (div_le_iff₀ hl).mp (le_ceilNat _ (div_pos hx hl))

theorem attemptBound_eq (t₀ tEnd h₀ : ℝ) :
    attemptBound (ofReal t₀ : α) (ofReal tEnd) (ofReal h₀) =
      4 * (ceilNat (ofReal (tEnd - t₀) / ofReal (leastStep h₀) : α) + 2)
        + ceilNat (ofReal h₀ / ofReal (leastStep h₀) : α) := by
  have hhalf : (minStep / 2.0 : α) = ofReal (1e-10 / 2.0) := by
    rw [minStep_eq, ofScientific_eq, ofReal_div _ _ (by norm_num)]
  have hleast : (if (ofReal h₀ : α) < minStep / 2.0 then ofReal h₀ else minStep / 2.0)
      = (ofReal (leastStep h₀) : α) := by
    rw [hhalf, leastStep]
    simp only [ofReal_lt]
    split
    · next hlt => rw [min_eq_left hlt.le]
    · next hlt => rw [min_eq_right (not_lt.mp hlt)]
  simp only [attemptBound, hleast, ofReal_sub]

/-- The settings of a run given in real numbers. -/
def controlOf (tEnd h₀ tolerance : ℝ) : Control α :=
  ⟨ofReal tEnd, ofReal tolerance, ofReal h₀ * maxGrowth⟩

/-- Where such a run begins. -/
def startAt (t₀ : ℝ) (y₀ : Vector α n) (h₀ : ℝ) : Progress α n := ⟨ofReal t₀, y₀, ofReal h₀⟩

theorem controlOf_inReals (hh₀ : 0 < h₀) (tolerance : ℝ) :
    (controlOf tEnd h₀ tolerance : Control α).InReals tEnd h₀ where
  tEnd := rfl
  maxH := by
    rw [controlOf, maxGrowth_eq, ofReal_mul]
    norm_num
  pos := hh₀

theorem stands_startAt (t₀ : ℝ) (y₀ : Vector α n) (h₀ : ℝ) :
    Stands (leastStep h₀) t₀ h₀ (startAt t₀ y₀ h₀) :=
  ⟨rfl, rfl, min_le_left _ _⟩

/-- The bound is not tight: there is an attempt left for a run to find that it is done. -/
theorem rounds_lt_attemptBound {t₀ : ℝ} {y₀ : Vector α n} {tolerance : ℝ} (hh₀ : 0 < h₀) {k : Nat}
    (h : Rounds f (controlOf tEnd h₀ tolerance) k (startAt t₀ y₀ h₀) p) :
    k < attemptBound (ofReal t₀ : α) (ofReal tEnd) (ofReal h₀) := by
  have hpos := leastStep_pos hh₀
  have hroom := le_ceilNat_mul (α := α) (tEnd - t₀) hpos
  have hdoublings : h₀ ≤ 2 ^ ceilNat (ofReal h₀ / ofReal (leastStep h₀) : α) * leastStep h₀ := by
    refine (le_ceilNat_mul (α := α) h₀ hpos).trans (mul_le_mul_of_nonneg_right ?_ hpos.le)
    exact_mod_cast Nat.lt_two_pow_self.le
  have hk := (stands_startAt t₀ y₀ h₀).rounds_le (controlOf_inReals hh₀ tolerance) h _ _ hroom
    hdoublings
  rw [attemptBound_eq]
  omega

theorem rounds_le_attemptBound {t₀ : ℝ} {y₀ : Vector α n} {tolerance : ℝ} (hh₀ : 0 < h₀) {k : Nat}
    (h : Rounds f (controlOf tEnd h₀ tolerance) k (startAt t₀ y₀ h₀) p) :
    k ≤ attemptBound (ofReal t₀ : α) (ofReal tEnd) (ofReal h₀) :=
  (rounds_lt_attemptBound hh₀ h).le

theorem adaptive_eq_ok (f : Rhs α n) (t₀ tEnd : ℝ) (y₀ : Vector α n) {tolerance : ℝ} (hh₀ : 0 < h₀)
    (htolerance : 0 < tolerance) (maxSteps : Option Nat) :
    adaptive f (ofReal t₀) y₀ (ofReal tEnd) (ofReal h₀) (ofReal tolerance) maxSteps =
      .ok (runAttempts f (controlOf tEnd h₀ tolerance)
        (maxSteps.getD (attemptBound (ofReal t₀ : α) (ofReal tEnd) (ofReal h₀))) (startAt t₀ y₀ h₀)
        #[⟨⟨ofReal t₀, y₀⟩, 0.0, 0.0⟩]) := by
  have hpositive : ∀ x : ℝ, 0 < x → ¬ (ofReal x : α) ≤ 0.0 := by
    intro x hx
    rw [ofScientific_eq, ofReal_le]
    norm_num
    exact hx
  rw [adaptive, if_neg (hpositive _ hh₀), if_neg (hpositive _ htolerance)]
  rfl

/-- **A run without a limit ends.** In exact arithmetic it makes at most `attemptBound` rounds,
whatever the right-hand side does, and then cannot go on; every limit from there on gives its
samples. All the way it keeps its pace. -/
theorem adaptive_terminates (f : Rhs α n) (t₀ tEnd : ℝ) (y₀ : Vector α n) {h₀ tolerance : ℝ}
    (hh₀ : 0 < h₀) (htolerance : 0 < tolerance) :
    (∃ k last, k ≤ attemptBound (ofReal t₀ : α) (ofReal tEnd) (ofReal h₀) ∧
      Rounds f (controlOf tEnd h₀ tolerance) k (startAt t₀ y₀ h₀) last ∧
      (∀ p, ¬ Round f (controlOf tEnd h₀ tolerance) last p) ∧
      ∀ j p, Rounds f (controlOf tEnd h₀ tolerance) j (startAt t₀ y₀ h₀) p → j ≤ k) ∧
    (∃ samples,
      adaptive f (ofReal t₀) y₀ (ofReal tEnd) (ofReal h₀) (ofReal tolerance) none = .ok samples ∧
      ∀ limit, attemptBound (ofReal t₀ : α) (ofReal tEnd) (ofReal h₀) ≤ limit →
        adaptive f (ofReal t₀) y₀ (ofReal tEnd) (ofReal h₀) (ofReal tolerance) (some limit)
          = .ok samples) ∧
    ∀ k p, Rounds f (controlOf tEnd h₀ tolerance) k (startAt t₀ y₀ h₀) p → p.t < ofReal tEnd →
      ∃ t h, Paced f (controlOf tEnd h₀ tolerance) (leastStep h₀) tEnd t h p := by
  refine ⟨exists_last fun _ _ => rounds_le_attemptBound hh₀,
    ⟨_, adaptive_eq_ok f t₀ tEnd y₀ hh₀ htolerance none, fun limit hlimit => ?_⟩,
    fun k p hrounds hend => ?_⟩
  · rw [adaptive_eq_ok f t₀ tEnd y₀ hh₀ htolerance]
    exact congrArg _ (runAttempts_eq_of_le (fun _ _ => rounds_le_attemptBound hh₀) hlimit _)
  · have hc : (controlOf tEnd h₀ tolerance : Control α).InReals tEnd h₀ :=
      controlOf_inReals hh₀ tolerance
    obtain ⟨t, h, hp⟩ := (stands_startAt t₀ y₀ h₀).of_rounds hc hrounds hend
    exact ⟨t, h, hp.paced hc⟩

/-- A right-hand side without any value: the length is halved until a step is taken for its
shortness, which finds that the new state is no number. -/
theorem adaptive_terminates_undefined :
    (0 : ℝ) < 1 ∧
    (∃ k last, k ≤ attemptBound (ofReal 0 : PartialReal) (ofReal 1) (ofReal 1) ∧
      Rounds (fun _ _ => #v[.undefined]) (controlOf 1 1 1) k
        (startAt 0 #v[PartialReal.real 1] 1) last ∧
      (∀ p, ¬ Round (fun _ _ => #v[.undefined]) (controlOf 1 1 1) last p) ∧
      ∀ j p, Rounds (fun _ _ => #v[.undefined]) (controlOf 1 1 1) j
        (startAt 0 #v[PartialReal.real 1] 1) p → j ≤ k) ∧
    (∃ samples,
      adaptive (fun _ _ => #v[.undefined]) (ofReal 0) #v[PartialReal.real 1] (ofReal 1) (ofReal 1)
        (ofReal 1) none = .ok samples ∧
      ∀ limit, attemptBound (ofReal 0 : PartialReal) (ofReal 1) (ofReal 1) ≤ limit →
        adaptive (fun _ _ => #v[.undefined]) (ofReal 0) #v[PartialReal.real 1] (ofReal 1) (ofReal 1)
          (ofReal 1) (some limit) = .ok samples) ∧
    ∀ k p, Rounds (fun _ _ => #v[.undefined]) (controlOf 1 1 1) k
        (startAt 0 #v[PartialReal.real 1] 1) p → p.t < ofReal 1 →
      ∃ t h, Paced (fun _ _ => #v[.undefined]) (controlOf 1 1 1) (leastStep 1) 1 t h p :=
  ⟨one_pos, adaptive_terminates _ 0 1 _ one_pos one_pos⟩

end PhasePortrait.Integrator
