import Mathlib.Logic.Function.Iterate
import Mathlib.Order.Bounds.Basic
import PhasePortrait.Flow.System
import PhasePortrait.Proofs.Number.Arithmetic

/-!
# Trajectories as prefixes of iterations

However a trajectory is counted, it lists the states of one iteration from the start on, up to an index
and before the first state that is not finite. For a number of steps the index is that number; up to a
horizon it is the first one whose time reaches the horizon. So a longer trajectory has the entries of a
shorter one, and further ones after them.

Between doubles a horizon may be so far off, or infinite, that no count of steps reaches it. Such a
trajectory can only end at a state that is not finite or at the largest double as a count.

## Main definitions

* `Trajectory.upTo step isFinite s count` — the states of an iteration up to an index, cut before the
  first one that is not finite.
-/
namespace PhasePortrait

/-! ## The prefix up to an index -/

namespace Trajectory
open Double

section
variable {σ : Type} {step : σ → σ} {isFinite : σ → Bool} {goOn : Nat → Bool} {s : σ}

/-- The start, whatever it is, and the states after it up to an index, by their indices, cut before the
first one that is not finite. -/
def upTo (step : σ → σ) (isFinite : σ → Bool) (s : σ) (count : Nat) : List (Nat × σ) :=
  (0, s) :: ((List.range count).takeWhile fun k => isFinite (step^[k + 1] s)).map fun k =>
    (k + 1, step^[k + 1] s)

/-- Further entries go on as long as the indices ask for more. -/
theorem toList_extend {fuel count i : Nat} {entries : Array (Nat × σ)} (hcount : count ≤ fuel)
    (hbefore : ∀ k < count, goOn (i + k) = true)
    (hstop : count < fuel → goOn (i + count) = false) :
    (extend step isFinite goOn fuel i s entries).toList = entries.toList ++
      ((List.range count).takeWhile fun k => isFinite (step^[k + 1] s)).map fun k =>
        (i + k + 1, step^[k + 1] s) := by
  induction fuel generalizing count i s entries with
  | zero =>
    obtain rfl := Nat.le_zero.mp hcount
    simp [extend]
  | succ fuel ih =>
    rw [extend]
    cases count with
    | zero =>
      rw [if_neg (by simpa using hstop (Nat.succ_pos fuel))]
      simp
    | succ count =>
      -- the first entry is the next state; those after it are the prefix from there, one index on
      have hgo : goOn i = true := hbefore 0 (Nat.succ_pos count)
      rw [if_pos hgo, List.range_succ_eq_map, List.takeWhile_cons]
      dsimp only
      cases hfinite : isFinite (step s) with
      | false => simp [hfinite]
      | true =>
        have hnext : ∀ k < count, goOn (i + 1 + k) = true := fun k hk => by
          rw [Nat.add_assoc, Nat.add_comm 1 k]
          exact hbefore (k + 1) (by omega)
        have hlast : count < fuel → goOn (i + 1 + count) = false := fun h => by
          rw [Nat.add_assoc, Nat.add_comm 1 count]
          exact hstop (by omega)
        rw [if_pos rfl, ih (Nat.le_of_succ_le_succ hcount) hnext hlast]
        simp [hfinite, List.takeWhile_map, Function.comp_def, Function.iterate_succ_apply,
          Nat.add_assoc, Nat.add_comm 1]

theorem toList_ofCount (step : σ → σ) (isFinite : σ → Bool) (count : Nat) (s : σ) :
    (ofCount step isFinite count s).toList = upTo step isFinite s count := by
  rw [ofCount, toList_extend le_rfl (fun _ _ => rfl) (fun h => absurd h (lt_irrefl _))]
  simp [upTo]

/-- A prefix up to a later index goes on from the one up to an earlier index. -/
theorem upTo_prefix {count further : Nat} (h : count ≤ further) :
    upTo step isFinite s count <+: upTo step isFinite s further := by
  obtain ⟨more, rfl⟩ := Nat.exists_eq_add_of_le h
  refine List.cons_prefix_cons.mpr ⟨rfl, List.IsPrefix.map _ ?_⟩
  rw [List.range_add, List.takeWhile_append]
  -- the longer prefix goes on only if nothing was cut off the shorter one
  split
  · next hall =>
    rw [(List.takeWhile_prefix _).eq_of_length hall]
    exact List.prefix_append _ _
  · exact List.prefix_rfl

/-- The entries are the start, and finite states up to the index. -/
theorem of_mem_upTo {count j : Nat} {s' : σ} (h : (j, s') ∈ upTo step isFinite s count) :
    (j, s') = (0, s) ∨ isFinite s' = true ∧ ∃ k, j = k + 1 ∧ k < count := by
  rcases List.mem_cons.mp h with hstart | hlater
  · exact .inl hstart
  · obtain ⟨k, hk, heq⟩ := List.mem_map.mp hlater
    cases heq
    have hfinite := List.mem_takeWhile_imp (p := fun k => isFinite (step^[k + 1] s)) hk
    have hrange : k ∈ List.range count := (List.takeWhile_prefix _).subset hk
    exact .inr ⟨hfinite, k, rfl, List.mem_range.mp hrange⟩

end

/-! ## Up to a horizon -/

section
variable {σ : Type} {step : σ → σ} {isFinite : σ → Bool} {s : σ} {dt horizon horizon' : Float}
  {count count' : Nat}

/-- Between doubles the counts run out before the steps that are allowed. -/
theorem max_ceilNat_lastCount (x : Float) : max (Scalar.ceilNat x + 2) lastCount = lastCount := by
  have hfuel : Scalar.ceilNat x < 2 ^ 64 := UInt64.toNat_lt _
  have hlast : 2 ^ 65 ≤ lastCount := by decide +kernel
  exact max_eq_right (by omega)

/-- Where a trajectory up to a horizon ends at the latest: at the first count whose time reaches the
horizon, or at the last count if there is none. -/
def Ends (dt horizon : Float) (count : Nat) : Prop :=
  IsLeast {k | ¬ timeAt dt k < horizon ∨ k = lastCount} count

theorem exists_ends (dt horizon : Float) : ∃ count, Ends dt horizon count := by
  classical
  have h : ∃ k, ¬ timeAt dt k < horizon ∨ k = lastCount := ⟨lastCount, .inr rfl⟩
  exact ⟨Nat.find h, Nat.find_spec h, fun _ hk => Nat.find_min' h hk⟩

theorem Ends.le_lastCount (h : Ends dt horizon count) : count ≤ lastCount := h.2 (.inr rfl)

theorem Ends.before (h : Ends dt horizon count) {k : Nat} (hk : k < count) : timeAt dt k < horizon :=
  not_not.mp fun hreached => hk.not_ge (h.2 (.inl hreached))

theorem toList_untilTime (step : σ → σ) (isFinite : σ → Bool) (s : σ) (h : Ends dt horizon count) :
    (untilTime step isFinite dt horizon s).toList = upTo step isFinite s count := by
  rw [untilTime, max_ceilNat_lastCount, toList_extend h.le_lastCount]
  · simp [upTo]
  · intro k hk
    rw [Nat.zero_add, decide_eq_true_iff]
    exact h.before hk
  · intro hlt
    rw [Nat.zero_add, decide_eq_false_iff_not]
    exact h.1.resolve_right hlt.ne

/-- A later horizon is reached later. -/
theorem Ends.mono (h : Ends dt horizon count) (h' : Ends dt horizon' count')
    (hle : horizon ≤ horizon') : count ≤ count' := by
  refine h.2 (h'.1.imp_left fun hreached hbefore => hreached ?_)
  exact Double.lt_of_lt_of_le hbefore hle

end

end Trajectory

/-! ## Trajectories of systems -/

open Scalar Trajectory

namespace PlanarSystem

variable (s : PlanarSystem Float) (dt : Float) (start : Point Float) {steps further : Nat}

theorem toList_trajectory (steps : Nat) :
    (s.trajectory dt steps start).toList = upTo (s.step dt) Point.isFinite start steps :=
  toList_ofCount _ _ _ _

/-- More steps only append entries. -/
theorem trajectory_prefix (hle : steps ≤ further) :
    (s.trajectory dt steps start).toList <+: (s.trajectory dt further start).toList := by
  rw [s.toList_trajectory, s.toList_trajectory]
  exact upTo_prefix hle

end PlanarSystem

namespace LineSystem

variable {s : LineSystem Float} {params : ParameterValues Float} {x₀ dt horizon horizon' : Float}
  {count : Nat}

theorem toList_trajectory (step : Float → Float) (x₀ : Float) (h : Ends dt horizon count) :
    (trajectory step dt horizon x₀).toList = upTo step isFinite x₀ count :=
  toList_untilTime _ _ _ h

/-- A later horizon only appends entries. -/
theorem trajectory_prefix (step : Float → Float) (x₀ : Float) (hle : horizon ≤ horizon') :
    (trajectory step dt horizon x₀).toList <+: (trajectory step dt horizon' x₀).toList := by
  obtain ⟨count, hcount⟩ := exists_ends dt horizon
  obtain ⟨further, hfurther⟩ := exists_ends dt horizon'
  rw [toList_trajectory step x₀ hcount, toList_trajectory step x₀ hfurther]
  exact upTo_prefix (hcount.mono hfurther hle)

theorem series_eq_ok (hvalid : s.isValid = true) (hdt : 0.0 < dt) :
    s.series params x₀ horizon dt = .ok ((trajectory (s.rk4Step params dt) dt horizon x₀).map
      fun e => ⟨timeAt dt e.1, e.2⟩) := by
  rw [series, if_neg (Double.not_le_of_lt hdt), if_pos hvalid]

end LineSystem

end PhasePortrait
