import PhasePortrait.Proofs.PhaseLine.Shape

/-!
# Runs of zeros

The degenerate intervals of a phase line are the maximal runs of at least three zeros. The search passes
over the places once, with the run that is open before the next place: this run is always as long as it can
be to both sides so far. So when it is closed, at a place that is no zero or behind the last one, it is a
maximal run, and a maximal run is closed nowhere else.

## Main definitions

* `PhaseLine.IsRun zero i j` — the places from `i` to `j` are zeros, and their neighbours are none.
* `PhaseLine.MaximalRun zero i j` — the same of a list of flags, which ends at its length.
* `OpenRun.ReachesBack zero k run` — the run open before `k` goes back as far as there are zeros.
-/
namespace PhasePortrait.PhaseLine

/-- A run of places that are zeros, between two that are not. -/
structure IsRun (zero : Nat → Bool) (i j : Nat) : Prop where
  le : i ≤ j
  zeros : ∀ p, i ≤ p → p ≤ j → zero p = true
  before : ∀ p, p + 1 = i → zero p = false
  behind : zero (j + 1) = false

/-- A run of flags that are set, which cannot be extended to either side. -/
structure MaximalRun (zero : List Bool) (i j : Nat) : Prop where
  le : i ≤ j
  zeros : ∀ p, i ≤ p → p ≤ j → zero[p]? = some true
  before : ∀ p, p + 1 = i → zero[p]? ≠ some true
  behind : zero[j + 1]? ≠ some true

namespace OpenRun
variable {zero : Nat → Bool} {k i j : Nat} {run : Option (OpenRun Nat)}

/-- All places since the start of the run are zeros, and the one before it is none. -/
structure ReachesBack (zero : Nat → Bool) (k : Nat) (run : Option (OpenRun Nat)) : Prop where
  zeros : ∀ p, start k run ≤ p → p < k → zero p = true
  before : ∀ p, p + 1 = start k run → zero p = false

theorem ReachesBack.push (h : ReachesBack zero k run) (hk : zero k = true) :
    ReachesBack zero (k + 1) (some (push k run)) where
  zeros p hp hlt := by
    rw [start_push] at hp
    obtain rfl | hlt := Nat.eq_or_lt_of_le (Nat.le_of_lt_succ hlt)
    · exact hk
    · exact h.zeros p hp hlt
  before p hp := h.before p (by rwa [start_push] at hp)

/-- Behind a place that is no zero no run is open. -/
theorem ReachesBack.none (hk : zero k = false) : ReachesBack zero (k + 1) none where
  zeros _ hp hlt := absurd hlt (Nat.not_lt.mpr hp)
  before _ hp := Nat.succ.inj hp ▸ hk

/-- A run that is closed is the one run that ends there, if it is long enough. -/
theorem mem_close_iff (h : ∀ r ∈ run, EndsBefore k r) (hback : ReachesBack zero k run)
    (hk : zero k = false) :
    ⟨i, j⟩ ∈ close run ↔ start k run ≤ i ∧ j < k ∧ IsRun zero i j ∧ i + minRun ≤ j + 1 := by
  cases run with
  | none =>
    refine iff_of_false List.not_mem_nil fun ⟨hi, hj, hrun, _⟩ => ?_
    exact (hi.trans hrun.le).not_gt hj
  | some run =>
    obtain ⟨hlast, hlength⟩ := h run rfl
    have hmem : ⟨i, j⟩ ∈ close (some run) ↔ minRun ≤ run.length ∧ i = run.first ∧ j = run.last := by
      rw [close]
      split <;> simp [*]
    rw [hmem]
    constructor
    · rintro ⟨hlong, rfl, rfl⟩
      rw [minRun] at hlong ⊢
      refine ⟨le_rfl, by omega, ⟨by omega, fun p hp hle => hback.zeros p hp (by omega), hback.before, ?_⟩,
        by omega⟩
      rwa [hlast]
    · rintro ⟨hi, hj, hrun, hlong⟩
      -- a run that starts later has a zero before it, one that ends sooner a zero behind it
      have hfirst : i = run.first := by
        obtain heq | hlt := Nat.eq_or_lt_of_le hi
        · exact heq.symm
        · have hzero := hback.zeros (i - 1) (Nat.le_sub_one_of_lt hlt) (by have := hrun.le; omega)
          rw [hrun.before (i - 1) (by omega)] at hzero
          cases hzero
      have hlast' : j = run.last := by
        obtain heq | hlt := Nat.eq_or_lt_of_le (Nat.succ_le_of_lt hj)
        · omega
        · have hzero := hback.zeros (j + 1) (hi.trans (hrun.le.trans j.le_succ)) hlt
          rw [hrun.behind] at hzero
          cases hzero
      exact ⟨by omega, hfirst, hlast'⟩

end OpenRun

variable {zero : Nat → Bool} {k i j : Nat}

/-- The search from one place on finds the long runs that start with the open one or later. -/
theorem mem_runsFrom_iff (m : Nat) (run : Option (OpenRun Nat)) (h : ∀ r ∈ run, OpenRun.EndsBefore k r)
    (hback : OpenRun.ReachesBack zero k run) (hend : zero (k + m) = false) :
    ⟨i, j⟩ ∈ runsFrom run ((List.range' k m).map fun p => (p, zero p)) ↔
      OpenRun.start k run ≤ i ∧ j < k + m ∧ IsRun zero i j ∧ i + minRun ≤ j + 1 := by
  induction m generalizing k run with
  | zero => exact OpenRun.mem_close_iff h hback hend
  | succ m ih =>
    rw [List.range'_succ, List.map_cons]
    rw [Nat.add_comm m 1, ← Nat.add_assoc] at hend ⊢
    cases hk : zero k with
    | true =>
      have hpush : ∀ r ∈ some (OpenRun.push k run), OpenRun.EndsBefore (k + 1) r := by
        rintro r ⟨⟩
        exact .push h
      rw [← OpenRun.start_push]
      exact ih _ hpush (hback.push hk) hend
    | false =>
      have hclose := OpenRun.mem_close_iff (i := i) (j := j) h hback hk
      have hrest := ih none (by simp) (.none hk) hend
      rw [runsFrom, List.mem_append, hclose, hrest]
      have hstart : OpenRun.start k run ≤ k := OpenRun.start_le h
      constructor
      · rintro (⟨hi, hj, hrun⟩ | ⟨hi, hj, hrun⟩)
        · exact ⟨hi, by omega, hrun⟩
        · exact ⟨hstart.trans (k.le_succ.trans hi), hj, hrun⟩
      · -- no run goes over this place
        rintro ⟨hi, hj, hrun, hlong⟩
        obtain hlt | hge := Nat.lt_or_ge j k
        · exact .inl ⟨hi, hlt, hrun, hlong⟩
        · refine .inr ⟨Nat.lt_of_not_le fun hle => ?_, hj, hrun, hlong⟩
          rw [hrun.zeros k hle hge] at hk
          cases hk

/-- Where the flags of a list are set. -/
def isSet (zero : List Bool) (p : Nat) : Bool := zero[p]? == some true

theorem isRun_isSet_iff {zero : List Bool} : IsRun (isSet zero) i j ↔ MaximalRun zero i j := by
  have hset (p : Nat) : isSet zero p = true ↔ zero[p]? = some true := by
    rw [isSet, beq_iff_eq]
  have hnot (p : Nat) : isSet zero p = false ↔ zero[p]? ≠ some true := by
    rw [ne_eq, ← hset, Bool.not_eq_true]
  constructor
  · rintro ⟨hle, hzeros, hbefore, hbehind⟩
    exact ⟨hle, fun p hi hj => (hset p).mp (hzeros p hi hj), fun p hp => (hnot p).mp (hbefore p hp),
      (hnot _).mp hbehind⟩
  · rintro ⟨hle, hzeros, hbefore, hbehind⟩
    exact ⟨hle, fun p hi hj => (hset p).mpr (hzeros p hi hj), fun p hp => (hnot p).mpr (hbefore p hp),
      (hnot _).mpr hbehind⟩

theorem MaximalRun.lt_length {zero : List Bool} (h : MaximalRun zero i j) : j < zero.length := by
  have hlast := h.zeros j h.le le_rfl
  exact (List.getElem?_eq_some_iff.mp hlast).1

/-- The intervals of places are the long runs. -/
theorem mem_degenerateIntervals_iff {zero : List Bool} :
    ⟨i, j⟩ ∈ degenerateIntervals ((List.range zero.length).map fun p => (p, isSet zero p)) ↔
      MaximalRun zero i j ∧ i + minRun ≤ j + 1 := by
  have hback : OpenRun.ReachesBack (isSet zero) 0 none :=
    ⟨fun p _ hlt => absurd hlt p.not_lt_zero, fun p hp => absurd hp p.succ_ne_zero⟩
  have hend : isSet zero (0 + zero.length) = false := by simp [isSet]
  rw [degenerateIntervals, List.range_eq_range', mem_runsFrom_iff _ none (by simp) hback hend,
    isRun_isSet_iff]
  exact ⟨fun h => h.2.2, fun h => ⟨Nat.zero_le i, by simpa using h.1.lt_length, h⟩⟩

/-- **Degenerate intervals are the maximal runs.** For positions and flags of the same length, the
intervals are the positions of the first and the last place of the maximal runs of at least three flags
that are set: each of these once, in order, and nothing else. -/
theorem degenerateIntervals_eq_runs {α : Type} (xs : List α) (zero : List Bool)
    (hlength : xs.length = zero.length) :
    ∃ runs : List (Interval Nat),
      (degenerateIntervals (xs.zip zero)).map (Interval.map some) =
        runs.map (Interval.map fun p => xs[p]?) ∧
      runs.Pairwise (fun r s => r.high < s.low) ∧
      ∀ i j, ⟨i, j⟩ ∈ runs ↔ MaximalRun zero i j ∧ 3 ≤ j - i + 1 := by
  refine ⟨degenerateIntervals ((List.range zero.length).map fun p => (p, isSet zero p)), ?_,
    (inOrder_degenerateIntervals (isSet zero) zero.length).apart, fun i j => ?_⟩
  · -- the positions as they are found at the places
    have hflags : (xs.zip zero).map (Prod.map some id) =
        ((List.range zero.length).map fun p => (p, isSet zero p)).map
          (Prod.map (fun p => xs[p]?) id) := by
      refine List.ext_getElem (by simp [hlength]) fun p hp _ => ?_
      have hxs : p < xs.length := by simp at hp; omega
      have hzero : p < zero.length := hlength ▸ hxs
      simp [isSet, hxs, hzero]
    have hleft := runsFrom_map some none (xs.zip zero)
    have hright := runsFrom_map (fun p => xs[p]?) none
      ((List.range zero.length).map fun p => (p, isSet zero p))
    rw [degenerateIntervals, degenerateIntervals, ← hleft, ← hright, hflags]
    rfl
  · rw [mem_degenerateIntervals_iff, minRun]
    refine and_congr_right fun hrun => ?_
    have hle := hrun.le
    omega

/-- Two zeros are too few, a run at the end is long enough. -/
theorem degenerateIntervals_eq_runs_last :
    ["a", "b", "c", "d", "e", "f"].length = [true, true, false, true, true, true].length ∧
      ∃ runs : List (Interval Nat),
        (degenerateIntervals (["a", "b", "c", "d", "e", "f"].zip
            [true, true, false, true, true, true])).map (Interval.map some) =
          runs.map (Interval.map fun p => ["a", "b", "c", "d", "e", "f"][p]?) ∧
        runs.Pairwise (fun r s => r.high < s.low) ∧
        ∀ i j, ⟨i, j⟩ ∈ runs ↔
          MaximalRun [true, true, false, true, true, true] i j ∧ 3 ≤ j - i + 1 :=
  ⟨rfl, degenerateIntervals_eq_runs _ _ rfl⟩

end PhasePortrait.PhaseLine
