import PhasePortrait.Proofs.Flow.Errors

/-!
# Step doubling covers its interval

In exact arithmetic the samples of a run lie one recorded step apart, from the start on. A step is
neither longer than four times the first one nor than the time that is left, whatever became of the
length before: growth is capped, and a rejected attempt is repeated at half of its clipped length.
So the run neither leaves the interval nor stalls, and unless it is cut short it comes to the end
exactly. Where real coordinates have real derivatives, only a limit cuts a run short.

## Main definitions

* `Leads longest t samples t'` — the samples lead from the time `t` to the time `t'`.
* `Inside h₀ tEnd t h p` — the run stands at `p` with time and length in their bounds.
* `StoppedEarly f c start maxSteps` — the limit is used up, or an accepted state is not finite,
  before the end.

## Main results

* `adaptive_covers` — the steps and the times of a run, and where it ends.
* `AtReals.not_stoppedEarly` — a run between real coordinates without a limit is not stopped early.
-/
namespace PhasePortrait.Integrator
open Scalar Exact

variable {α : Type} [Scalar α] {n : Nat} {f : Rhs α n} {c : Control α} {p next last : Progress α n}

theorem of_stalled (h : attempt f c p = .stalled) : same (p.t + c.clip p) p.t = true := by
  cases attempted_of_eq h with
  | stalled _ hstill => exact hstill

/-- The run stops before the end: all attempts of its limit are made, or the state of an attempt
that is accepted is not finite. -/
inductive StoppedEarly (f : Rhs α n) (c : Control α) (start : Progress α n) :
    Option Nat → Prop where
  | limit {k : Nat} {p : Progress α n} (hrounds : Rounds f c k start p) (hend : p.t < c.tEnd) :
      StoppedEarly f c start (some k)
  | diverged {k : Nat} {p : Progress α n} {maxSteps : Option Nat} (hrounds : Rounds f c k start p)
      (hend : p.t < c.tEnd) (hmax : ∀ limit, maxSteps = some limit → k < limit)
      (haccept : c.Accepts (c.clip p) (errorOf f p (c.clip p)))
      (hstate : ∃ (i : Nat) (h : i < n), isFinite (doubleStep f p.t p.y (c.clip p))[i] = false) :
      StoppedEarly f c start maxSteps

namespace StoppedEarly

/-- A run stops early if it does so one round later. -/
theorem of_round {limit : Nat} (hround : Round f c p next) (h : StoppedEarly f c next (some limit)) :
    StoppedEarly f c p (some (limit + 1)) := by
  cases h with
  | limit hrounds hend => exact .limit (.next hround hrounds) hend
  | diverged hrounds hend hmax haccept hstate =>
    refine .diverged (.next hround hrounds) hend (fun m hm => ?_) haccept hstate
    obtain rfl := Option.some.inj hm
    exact Nat.succ_lt_succ (hmax limit rfl)

/-- A limit that no series of rounds uses up does not stop a run. -/
theorem of_bound {bound : Nat} (hbound : ∀ k q, Rounds f c k p q → k < bound)
    (h : StoppedEarly f c p (some bound)) : StoppedEarly f c p none := by
  cases h with
  | limit hrounds _ => exact absurd (hbound _ _ hrounds) (lt_irrefl _)
  | diverged hrounds hend _ haccept hstate =>
    exact .diverged hrounds hend (fun _ h => nomatch h) haccept hstate

/-- A run stops early where an attempt diverges. -/
theorem of_diverged {limit : Nat} (hend : p.t < c.tEnd) (h : attempt f c p = .diverged) :
    StoppedEarly f c p (some (limit + 1)) := by
  cases attempted_of_eq h with
  | diverged haccept hstate =>
    refine .diverged (.none p) hend (fun m hm => ?_) haccept hstate
    obtain rfl := Option.some.inj hm
    exact Nat.succ_pos _

end StoppedEarly

variable [Exact α] {samples : List (AdaptiveSample α n)} {s : AdaptiveSample α n}
  {tEnd h₀ t t' h longest : ℝ}

/-! ## Samples one step apart -/

/-- Samples after the time `t`, each a step of a positive length up to `longest` after the one
before it, the last one at the time `t'`. -/
inductive Leads (longest : ℝ) : ℝ → List (AdaptiveSample α n) → ℝ → Prop where
  | none (t : ℝ) : Leads longest t [] t
  | next {t t' h : ℝ} {s : AdaptiveSample α n} {samples : List (AdaptiveSample α n)}
      (htime : s.t = ofReal (t + h)) (hlength : s.h = ofReal h) (hpos : 0 < h) (hle : h ≤ longest)
      (rest : Leads longest (t + h) samples t') : Leads longest t (s :: samples) t'

namespace Leads

theorem le (h : Leads longest t samples t') : t ≤ t' := by
  induction h with
  | none t => exact le_rfl
  | next _ _ hpos _ _ ih => linarith

theorem exists_length (h : Leads longest t samples t') (hs : s ∈ samples) :
    ∃ l, s.h = ofReal l ∧ 0 < l ∧ l ≤ longest := by
  induction h with
  | none t => exact absurd hs List.not_mem_nil
  | next _ hlength hpos hle _ ih =>
    rcases List.mem_cons.mp hs with rfl | hs
    · exact ⟨_, hlength, hpos, hle⟩
    · exact ih hs

theorem exists_time (h : Leads longest t samples t') (hs : s ∈ samples) :
    ∃ u, s.t = ofReal u ∧ t < u ∧ u ≤ t' := by
  induction h with
  | none t => exact absurd hs List.not_mem_nil
  | next htime _ hpos _ rest ih =>
    rcases List.mem_cons.mp hs with rfl | hs
    · exact ⟨_, htime, by linarith, rest.le⟩
    · obtain ⟨u, hu, hlt, hle⟩ := ih hs
      exact ⟨u, hu, by linarith, hle⟩

/-- The times increase, from a first sample at the time `t`. -/
theorem pairwise (h : Leads longest t samples t') (hs : s.t = ofReal t) :
    (s :: samples).Pairwise fun a b => a.t < b.t := by
  induction h generalizing s with
  | none t => exact List.pairwise_singleton _ _
  | next htime hlength hpos hle rest ih =>
    refine List.pairwise_cons.mpr ⟨fun b hb => ?_, ih htime⟩
    obtain ⟨u, hu, hlt, -⟩ := (next htime hlength hpos hle rest).exists_time hb
    rwa [hs, hu, ofReal_lt]

theorem exists_last (h : Leads longest t samples t') (hs : s.t = ofReal t) :
    ∃ last, (s :: samples).getLast? = some last ∧ last.t = ofReal t' := by
  induction h generalizing s with
  | none t => exact ⟨s, rfl, hs⟩
  | next htime _ _ _ _ ih => exact ih htime

/-- The lengths add up to the time between. -/
theorem foldl_add (h : Leads longest t samples t') (x : ℝ) :
    (samples.map AdaptiveSample.h).foldl (· + ·) (ofReal x) = (ofReal (x + (t' - t)) : α) := by
  induction h generalizing x with
  | none t => rw [sub_self, add_zero, List.map_nil, List.foldl_nil]
  | @next t t' h s samples _ hlength _ _ _ ih =>
    rw [List.map_cons, List.foldl_cons, hlength, ofReal_add, ih]
    congr 1
    ring

end Leads

/-! ## Attempts within the bounds -/

/-- The run stands at the time `t`, not after the end, and the length of its next attempt is
positive and at most four times the first one. -/
structure Inside (h₀ tEnd t h : ℝ) (p : Progress α n) : Prop where
  time : p.t = ofReal t
  length : p.h = ofReal h
  pos : 0 < h
  le_cap : h ≤ h₀ * 4
  le_end : t ≤ tEnd

namespace Inside

variable (hc : c.InReals tEnd h₀)
include hc

theorem lt_end (hp : Inside h₀ tEnd t h p) (hend : p.t < c.tEnd) : t < tEnd := by
  rwa [hp.time, hc.tEnd, ofReal_lt] at hend

theorem clip_pos (hp : Inside h₀ tEnd t h p) (hend : p.t < c.tEnd) : 0 < min h (tEnd - t) :=
  lt_min hp.pos (sub_pos.mpr (hp.lt_end hc hend))

theorem not_stalled (hp : Inside h₀ tEnd t h p) (hend : p.t < c.tEnd) :
    attempt f c p ≠ .stalled := by
  intro hattempt
  have hsame := of_stalled hattempt
  rw [clip_eq_min hc hp.time hp.length, hp.time, ofReal_add, same, Bool.and_eq_true,
    decide_eq_true_iff, ofReal_le] at hsame
  linarith [hsame.1, hp.clip_pos hc hend]

/-- A rejected attempt leaves the time and halves the length that it was clipped to. -/
theorem rejected (hp : Inside h₀ tEnd t h p) (hend : p.t < c.tEnd)
    (hattempt : attempt f c p = .rejected next) :
    Inside h₀ tEnd t (min h (tEnd - t) * 0.5) next := by
  obtain ⟨-, htime, hlength⟩ := of_rejected hattempt
  have hpos := hp.clip_pos hc hend
  have hle : min h (tEnd - t) ≤ h := min_le_left _ _
  rw [clip_eq_min hc hp.time hp.length, shrinkage_eq, ofReal_mul] at hlength
  exact ⟨htime.trans hp.time, hlength, by linarith, by linarith [hp.le_cap], hp.le_end⟩

/-- An accepted attempt takes the time on by the length that it was clipped to. -/
theorem accepted (hp : Inside h₀ tEnd t h p) (hend : p.t < c.tEnd)
    (hattempt : attempt f c p = .accepted s next) :
    s.t = ofReal (t + min h (tEnd - t)) ∧ s.h = ofReal (min h (tEnd - t)) ∧
      ∃ h', Inside h₀ tEnd (t + min h (tEnd - t)) h' next := by
  have hclip := clip_eq_min hc hp.time hp.length
  have hlength : s.h = ofReal (min h (tEnd - t)) := (length_of_accepted hattempt).trans hclip
  have hpos := hp.clip_pos hc hend
  have hcap : min h (tEnd - t) ≤ h₀ * 4 := (min_le_left _ _).trans hp.le_cap
  have hover : t + min h (tEnd - t) ≤ tEnd := by linarith [min_le_right h (tEnd - t)]
  obtain ⟨htime, hgrow⟩ := of_accepted hattempt
  rw [hclip, hp.time, ofReal_add] at htime
  rw [hclip] at hgrow
  refine ⟨?_, hlength, ?_⟩
  · rw [(follows_of_attempt hend hattempt).1.time, hlength]
    exact (congrArg (· + _) hp.time).trans (ofReal_add _ _)
  · -- the length grows from the clipped one, so the cap holds for it whatever was clipped
    obtain hsame | hlonger := grow_eq_or hc (min h (tEnd - t)) s.error
    · exact ⟨_, htime, hgrow.trans hsame, hpos, hcap, hover⟩
    · refine ⟨_, htime, hgrow.trans hlonger, lt_min (by linarith) ?_, min_le_right _ _, hover⟩
      linarith [hc.pos]

/-- A run leads on, up to the end if nothing stops it. -/
theorem run (limit : Nat) (hp : Inside h₀ tEnd t h p) (samples : Array (AdaptiveSample α n)) :
    ∃ further t', (runAttempts f c limit p samples).toList = samples.toList ++ further ∧
      Leads (h₀ * 4) t further t' ∧ t' ≤ tEnd ∧
      (StoppedEarly f c p (some limit) ∨ t' = tEnd) := by
  -- on the attempts that are left; each keeps the bounds, and an accepted one is the next sample
  induction limit generalizing p t h samples with
  | zero =>
    refine ⟨[], t, by rw [runAttempts, List.append_nil], .none t, hp.le_end, ?_⟩
    rcases hp.le_end.lt_or_eq with hlt | hend
    · refine .inl (.limit (.none p) ?_)
      rwa [hp.time, hc.tEnd, ofReal_lt]
    · exact .inr hend
  | succ limit ih =>
    rw [runAttempts]
    split
    · next hend =>
      cases hattempt : attempt f c p with
      | accepted s next =>
        obtain ⟨htime, hlength, h', hnext⟩ := hp.accepted hc hend hattempt
        obtain ⟨further, t', hfurther, hleads, hle, hstop⟩ := ih hnext (samples.push s)
        refine ⟨s :: further, t', ?_, .next htime hlength (hp.clip_pos hc hend)
          ((min_le_left _ _).trans hp.le_cap) hleads, hle,
          hstop.imp_left (.of_round (.accepted s hend hattempt))⟩
        rw [hfurther, Array.toList_push, List.append_assoc, List.singleton_append]
      | rejected next =>
        obtain ⟨further, t', hfurther, hleads, hle, hstop⟩ :=
          ih (hp.rejected hc hend hattempt) samples
        exact ⟨further, t', hfurther, hleads, hle,
          hstop.imp_left (.of_round (.rejected hend hattempt))⟩
      | diverged =>
        exact ⟨[], t, (List.append_nil _).symm, .none t, hp.le_end,
          .inl (.of_diverged hend hattempt)⟩
      | stalled => exact absurd hattempt (hp.not_stalled hc hend)
    · next hend =>
      refine ⟨[], t, (List.append_nil _).symm, .none t, hp.le_end, .inr ?_⟩
      rw [hp.time, hc.tEnd, ofReal_lt] at hend
      exact le_antisymm hp.le_end (not_lt.mp hend)

end Inside

/-! ## Runs between real coordinates -/

/-- Where real coordinates have real derivatives, only a limit stops a run early. -/
theorem AtReals.not_stoppedEarly {g : ℝ → (Fin n → ℝ) → Fin n → ℝ}
    (hf : ∀ t y, f (ofReal t) (coordinates y) = coordinates (g t y)) (hc : c.InReals tEnd h₀)
    (hp : AtReals p) : ¬StoppedEarly f c p none := by
  rintro (_ | ⟨hrounds, -, -, -, i, hi, hinfinite⟩)
  obtain ⟨w, hw⟩ := (hp.rounds hf hc hrounds).exists_state hf hc
  simp [hw, coordinates] at hinfinite

/-! ## The whole run -/

theorem inside_startAt {t₀ : ℝ} (y₀ : Vector α n) (hh₀ : 0 < h₀) (hle : t₀ ≤ tEnd) :
    Inside h₀ tEnd t₀ h₀ (startAt t₀ y₀ h₀ : Progress α n) :=
  ⟨rfl, rfl, hh₀, by linarith, hle⟩

/-- A run is not stopped by the bound that stands for no limit. -/
theorem StoppedEarly.of_getD {t₀ tolerance : ℝ} {y₀ : Vector α n} {maxSteps : Option Nat}
    (hh₀ : 0 < h₀)
    (h : StoppedEarly f (controlOf tEnd h₀ tolerance) (startAt t₀ y₀ h₀)
      (some (maxSteps.getD (attemptBound (ofReal t₀ : α) (ofReal tEnd) (ofReal h₀))))) :
    StoppedEarly f (controlOf tEnd h₀ tolerance) (startAt t₀ y₀ h₀) maxSteps := by
  cases maxSteps with
  | some limit => exact h
  | none => exact h.of_bound fun _ _ => rounds_lt_attemptBound hh₀

/-- **A run covers exactly its interval.** In exact arithmetic every recorded step is positive and
at most four times the first length, and the times of the samples increase within the interval.
Unless the run stops early, the last sample is at the end, and the recorded steps add up to the
interval. -/
theorem adaptive_covers (f : Rhs α n) (y₀ : Vector α n) (maxSteps : Option Nat)
    {t₀ tEnd h₀ tolerance : ℝ} (hlt : t₀ < tEnd) (hh₀ : 0 < h₀) (htolerance : 0 < tolerance) :
    ∃ samples steps,
      adaptive f (ofReal t₀) y₀ (ofReal tEnd) (ofReal h₀) (ofReal tolerance) maxSteps = .ok samples ∧
      samples.toList = ⟨⟨ofReal t₀, y₀⟩, 0.0, 0.0⟩ :: steps ∧
      (∀ s ∈ steps, ∃ h, s.h = ofReal h ∧ 0 < h ∧ h ≤ 4 * h₀) ∧
      (∀ s ∈ samples.toList, ∃ t, s.t = ofReal t ∧ t₀ ≤ t ∧ t ≤ tEnd) ∧
      samples.toList.Pairwise (fun a b => a.t < b.t) ∧
      (StoppedEarly f (controlOf tEnd h₀ tolerance) (startAt t₀ y₀ h₀) maxSteps ∨
        (∃ last, samples.toList.getLast? = some last ∧ last.t = ofReal tEnd) ∧
          (steps.map AdaptiveSample.h).foldl (· + ·) 0.0 = ofReal (tEnd - t₀)) := by
  obtain ⟨steps, t', hsamples, hleads, hle, hstop⟩ :=
    (inside_startAt y₀ hh₀ hlt.le).run (f := f) (controlOf_inReals hh₀ tolerance)
      (maxSteps.getD (attemptBound (ofReal t₀ : α) (ofReal tEnd) (ofReal h₀)))
      #[⟨⟨ofReal t₀, y₀⟩, 0.0, 0.0⟩]
  refine ⟨_, steps, adaptive_eq_ok f t₀ tEnd y₀ hh₀ htolerance maxSteps, hsamples, fun s hs => ?_, ?_,
    hsamples ▸ hleads.pairwise rfl, ?_⟩
  · obtain ⟨h, hlength, hpos, hcap⟩ := hleads.exists_length hs
    exact ⟨h, hlength, hpos, by linarith⟩
  · rw [hsamples]
    refine List.forall_mem_cons.mpr ⟨⟨t₀, rfl, le_rfl, hlt.le⟩, fun s hs => ?_⟩
    obtain ⟨t, htime, hbefore, hafter⟩ := hleads.exists_time hs
    exact ⟨t, htime, hbefore.le, hafter.trans hle⟩
  · refine hstop.imp (.of_getD hh₀) ?_
    rintro rfl
    have hzero : (0.0 : α) = ofReal 0 := by
      rw [ofScientific_eq]
      norm_num
    refine ⟨hsamples ▸ hleads.exists_last rfl, ?_⟩
    rw [hzero, hleads.foldl_add, zero_add]

/-- Exponential decay over the unit interval, with a first step that does not divide it. Nothing
stops this run before the end. -/
theorem adaptive_covers_decay :
    (0 : ℝ) < 1 ∧ (0 : ℝ) < 0.3 ∧ ∃ samples steps,
      adaptive (fun _ y => y.map (- ·)) (ofReal 0) #v[PartialReal.real 1] (ofReal 1) (ofReal 0.3)
        (ofReal 1) none = .ok samples ∧
      samples.toList = ⟨⟨ofReal 0, #v[PartialReal.real 1]⟩, 0.0, 0.0⟩ :: steps ∧
      (∀ s ∈ steps, ∃ h, s.h = ofReal h ∧ 0 < h ∧ h ≤ 4 * 0.3) ∧
      (∀ s ∈ samples.toList, ∃ t, s.t = ofReal t ∧ 0 ≤ t ∧ t ≤ 1) ∧
      samples.toList.Pairwise (fun a b => a.t < b.t) ∧
      (∃ last, samples.toList.getLast? = some last ∧ last.t = ofReal 1) ∧
      (steps.map AdaptiveSample.h).foldl (· + ·) 0.0 = ofReal (1 - 0) := by
  have hdecay (t : ℝ) (y : Fin 1 → ℝ) :
      (coordinates y : Vector PartialReal 1).map (- ·) = coordinates (-y) := by
    ext i hi
    simp [coordinates]
  obtain ⟨samples, steps, hrun, hstart, hsteps, htimes, hincrease, hend⟩ :=
    adaptive_covers (fun _ y => y.map (- ·)) #v[PartialReal.real 1] none one_pos
      (show (0 : ℝ) < 0.3 by norm_num) one_pos
  have hgoes : ¬StoppedEarly (fun _ y => y.map (- ·)) (controlOf 1 0.3 1)
      (startAt 0 (coordinates ![1] : Vector PartialReal 1) 0.3) none :=
    AtReals.not_stoppedEarly hdecay (controlOf_inReals (by norm_num) 1) ⟨0, 0.3, ![1], rfl⟩
  exact ⟨one_pos, by norm_num, samples, steps, hrun, hstart, hsteps, htimes, hincrease,
    hend.resolve_left hgoes⟩

end PhasePortrait.Integrator
