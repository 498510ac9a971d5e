import Mathlib.Data.List.Chain
import PhasePortrait.Flow.Integrator
import PhasePortrait.Number.Double

/-!
# The samples of step doubling

A run of step doubling keeps the state that it reached last and the length of the next attempt. A
rejected attempt only shortens the length, so each sample is reached from the one before it by a
single accepted attempt, however many were rejected in between. What such an attempt guarantees is
`Follows`; nothing is said about rounding, and comparisons are those of the scalars.

## Main definitions

* `Follows f c a b` — the sample `b` is what one accepted attempt makes of the state `a`.
* `Attempted f c p a` — the attempt at `p` may come to `a`.
* `Recorded f c p samples` — the samples of a run that has come to `p`.
-/
namespace PhasePortrait.Integrator
open Scalar
variable {α : Type} [Scalar α] {n : Nat} {f : Rhs α n} {c : Control α}

/-- One sample after another: two half steps, accepted for their distance from the full step or for
their length. -/
structure Follows (f : Rhs α n) (c : Control α) (a : Sample α n) (b : AdaptiveSample α n) :
    Prop where
  before_end : a.t < c.tEnd
  time : b.t = a.t + b.h
  moved : same b.t a.t = false
  state : b.y = rk4Step f (a.t + b.h / 2.0) (rk4Step f a.t a.y (b.h / 2.0)) (b.h / 2.0)
  error : b.error = norm (b.y - rk4Step f a.t a.y b.h)
  finite : ∀ (i : Nat) (h : i < n), isFinite b.y[i]
  accepted : b.error < c.tolerance ∨ b.h < minStep

/-! ## One attempt -/

/-- The distance between the outcomes of two half steps and of a step of length `h`. -/
def errorOf (f : Rhs α n) (p : Progress α n) (h : α) : α :=
  norm (doubleStep f p.t p.y h - rk4Step f p.t p.y h)

/-- An attempt is accepted for its error or for its length. -/
def Control.Accepts (c : Control α) (h error : α) : Prop := error < c.tolerance ∨ h < minStep

/-- All that an attempt may come to, and when it does. -/
inductive Attempted (f : Rhs α n) (c : Control α) (p : Progress α n) : Attempt α n → Prop where
  | accepted (haccept : c.Accepts (c.clip p) (errorOf f p (c.clip p)))
      (hfinite : ∀ (i : Nat) (h : i < n), isFinite (doubleStep f p.t p.y (c.clip p))[i])
      (hmoved : same (p.t + c.clip p) p.t = false) :
      Attempted f c p (.accepted
        ⟨⟨p.t + c.clip p, doubleStep f p.t p.y (c.clip p)⟩, c.clip p, errorOf f p (c.clip p)⟩
        ⟨p.t + c.clip p, doubleStep f p.t p.y (c.clip p),
          c.grow (c.clip p) (errorOf f p (c.clip p))⟩)
  | rejected (hreject : ¬ c.Accepts (c.clip p) (errorOf f p (c.clip p))) :
      Attempted f c p (.rejected ⟨p.t, p.y, c.clip p * shrinkage⟩)
  | diverged (haccept : c.Accepts (c.clip p) (errorOf f p (c.clip p)))
      (hfinite : ∃ (i : Nat) (h : i < n), isFinite (doubleStep f p.t p.y (c.clip p))[i] = false) :
      Attempted f c p .diverged
  | stalled (haccept : c.Accepts (c.clip p) (errorOf f p (c.clip p)))
      (hstill : same (p.t + c.clip p) p.t = true) : Attempted f c p .stalled

theorem attempted_of_eq {p : Progress α n} {a : Attempt α n} (h : attempt f c p = a) :
    Attempted f c p a := by
  subst h
  simp only [attempt]
  split
  · next haccept =>
    have haccept : c.Accepts (c.clip p) (errorOf f p (c.clip p)) := by
      simpa [Control.Accepts, errorOf] using haccept
    split
    · next hfinite => exact .diverged haccept (by simpa using hfinite)
    · next hfinite =>
      split
      · next hstill => exact .stalled haccept hstill
      · next hmoved => exact .accepted haccept (by simpa using hfinite) (by simpa using hmoved)
  · next hreject => exact .rejected (by simpa [Control.Accepts, errorOf] using hreject)

/-- The state that a run stands at. -/
def Progress.sample (p : Progress α n) : Sample α n := ⟨p.t, p.y⟩

theorem follows_of_attempt {p next : Progress α n} {s : AdaptiveSample α n} (hend : p.t < c.tEnd)
    (h : attempt f c p = .accepted s next) : Follows f c p.sample s ∧ next.sample = s.toSample := by
  cases attempted_of_eq h with
  | accepted haccept hfinite hmoved =>
    exact ⟨⟨hend, rfl, hmoved, rfl, rfl, hfinite, haccept⟩, rfl⟩

theorem sample_of_attempt {p next : Progress α n} (h : attempt f c p = .rejected next) :
    next.sample = p.sample := by
  cases attempted_of_eq h
  rfl

/-! ## A whole run -/

/-- Each sample follows the one before it, and the run stands at the last of them. -/
structure Recorded (f : Rhs α n) (c : Control α) (p : Progress α n)
    (samples : Array (AdaptiveSample α n)) : Prop where
  chain : samples.toList.IsChain fun a b => Follows f c a.toSample b
  last : ∃ s, samples.toList.getLast? = some s ∧ s.toSample = p.sample

namespace Recorded
variable {p next : Progress α n} {samples : Array (AdaptiveSample α n)}

theorem push (h : Recorded f c p samples) {s : AdaptiveSample α n} (hs : Follows f c p.sample s)
    (hnext : next.sample = s.toSample) : Recorded f c next (samples.push s) where
  chain := by
    rw [Array.toList_push]
    refine List.isChain_append.mpr ⟨h.chain, .singleton s, ?_⟩
    rintro a ha _ ⟨⟩
    obtain ⟨b, hb, hsample⟩ := h.last
    obtain rfl : b = a := Option.some.inj (hb.symm.trans ha)
    rwa [hsample]
  last := ⟨s, by rw [Array.toList_push, List.getLast?_concat], hnext.symm⟩

theorem retry (h : Recorded f c p samples) (hnext : next.sample = p.sample) :
    Recorded f c next samples :=
  ⟨h.chain, hnext ▸ h.last⟩

end Recorded

/-- A run adds to the samples, one for each attempt at most, and each follows the one before it. -/
theorem runAttempts_spec (limit : Nat) {p : Progress α n} {samples : Array (AdaptiveSample α n)}
    (h : Recorded f c p samples) :
    (∃ further, (runAttempts f c limit p samples).toList = samples.toList ++ further ∧
      further.length ≤ limit) ∧
    (runAttempts f c limit p samples).toList.IsChain fun a b => Follows f c a.toSample b := by
  induction limit generalizing p samples with
  | zero => exact ⟨⟨[], by simp [runAttempts]⟩, h.chain⟩
  | succ limit ih =>
      have hstop : (∃ further, samples.toList = samples.toList ++ further ∧
          further.length ≤ limit + 1) ∧
          samples.toList.IsChain fun a b => Follows f c a.toSample b :=
        ⟨⟨[], by simp⟩, h.chain⟩
      rw [runAttempts]
      split
      · next hend =>
        split
        · next s next hattempt =>
          obtain ⟨hfollows, hnext⟩ := follows_of_attempt hend hattempt
          obtain ⟨⟨further, hfurther, hlength⟩, hchain⟩ := ih (h.push hfollows hnext)
          refine ⟨⟨s :: further, ?_, Nat.succ_le_succ hlength⟩, hchain⟩
          rw [hfurther, Array.toList_push, List.append_assoc, List.singleton_append]
        · next next hattempt =>
          obtain ⟨⟨further, hfurther, hlength⟩, hchain⟩ := ih (h.retry (sample_of_attempt hattempt))
          exact ⟨⟨further, hfurther, Nat.le_succ_of_le hlength⟩, hchain⟩
        · exact hstop
        · exact hstop
      · exact hstop

theorem isChain_of_adaptive {t₀ tEnd h₀ tolerance : α} {y₀ : Vector α n} {maxSteps : Option Nat}
    {samples : Array (AdaptiveSample α n)}
    (h : adaptive f t₀ y₀ tEnd h₀ tolerance maxSteps = .ok samples) :
    samples.toList.IsChain fun a b => Follows f ⟨tEnd, tolerance, h₀ * maxGrowth⟩ a.toSample b := by
  unfold adaptive at h
  split at h
  · cases h
  split at h
  · cases h
  rw [← Except.ok.inj h]
  exact (runAttempts_spec _ ⟨.singleton _, _, rfl, rfl⟩).2

/-- **Every sample is one accepted attempt after the one before it.** A run starts with the given
state, the samples follow one another, there is at most one for each attempt beside the start, and
an attempt that is rejected leaves the state as it is. -/
theorem adaptive_follows (f : Rhs α n) (t₀ : α) (y₀ : Vector α n) (tEnd h₀ tolerance : α)
    (maxSteps : Option Nat) {samples : Array (AdaptiveSample α n)}
    (h : adaptive f t₀ y₀ tEnd h₀ tolerance maxSteps = .ok samples) :
    samples[0]? = some ⟨⟨t₀, y₀⟩, 0.0, 0.0⟩ ∧
    (∀ i a b, samples[i]? = some a → samples[i + 1]? = some b →
      Follows f ⟨tEnd, tolerance, h₀ * maxGrowth⟩ a.toSample b) ∧
    (∀ limit, maxSteps = some limit → samples.size ≤ limit + 1) ∧
    (∀ p next, attempt f ⟨tEnd, tolerance, h₀ * maxGrowth⟩ p = .rejected next →
      next.t = p.t ∧ next.y = p.y) := by
  unfold adaptive at h
  split at h
  · cases h
  split at h
  · cases h
  have hsamples := Except.ok.inj h
  have hstart : Recorded f ⟨tEnd, tolerance, h₀ * maxGrowth⟩ ⟨t₀, y₀, h₀⟩
      #[⟨⟨t₀, y₀⟩, 0.0, 0.0⟩] := ⟨.singleton _, _, rfl, rfl⟩
  obtain ⟨⟨further, hfurther, hlength⟩, hchain⟩ := runAttempts_spec (maxSteps.getD _) hstart
  rw [hsamples] at hfurther hchain
  refine ⟨?_, fun i a b ha hb => ?_, ?_, fun p next hattempt => ?_⟩
  · rw [← Array.getElem?_toList, hfurther]
    rfl
  · rw [← Array.getElem?_toList] at ha hb
    obtain ⟨-, rfl⟩ := List.getElem?_eq_some_iff.mp ha
    obtain ⟨hi, rfl⟩ := List.getElem?_eq_some_iff.mp hb
    exact List.isChain_iff_getElem.mp hchain i hi
  · rintro limit rfl
    have hsize : samples.size = 1 + further.length := by
      rw [← Array.length_toList, hfurther, List.length_append]
      rfl
    have hlength : further.length ≤ limit := hlength
    omega
  · have hsample := sample_of_attempt hattempt
    exact ⟨congrArg Sample.t hsample, congrArg Sample.y hsample⟩

/-- Exponential decay, with a first step that is too long. -/
theorem adaptive_follows_decay :
    ∃ samples : Array (AdaptiveSample Float 1),
      adaptive (fun _ y => y.map (- ·)) 0.0 #v[1.0] 1.0 1.0 1e-3 (some 3) = .ok samples ∧
      samples.size = 3 ∧
      samples[0]? = some ⟨⟨0.0, #v[1.0]⟩, 0.0, 0.0⟩ ∧
      (∀ i a b, samples[i]? = some a → samples[i + 1]? = some b →
        Follows (fun _ y => y.map (- ·)) ⟨1.0, 1e-3, 1.0 * maxGrowth⟩ a.toSample b) ∧
      (∀ limit, some 3 = some limit → samples.size ≤ limit + 1) ∧
      (∀ p next : Progress Float 1,
        attempt (fun _ y => y.map (- ·)) ⟨1.0, 1e-3, 1.0 * maxGrowth⟩ p = .rejected next →
        next.t = p.t ∧ next.y = p.y) := by
  have hsize : (adaptive (fun _ y => y.map (- ·)) (0.0 : Float) #v[1.0] 1.0 1.0 1e-3 (some 3)).map
      Array.size = .ok 3 := by decide +kernel
  cases hrun : adaptive (fun _ y => y.map (- ·)) (0.0 : Float) #v[1.0] 1.0 1.0 1e-3 (some 3) with
  | error _ =>
      rw [hrun] at hsize
      cases hsize
  | ok samples =>
      rw [hrun] at hsize
      exact ⟨samples, rfl, Except.ok.inj hsize, adaptive_follows _ _ _ _ _ _ _ hrun⟩

end PhasePortrait.Integrator
