import PhasePortrait.Proofs.Flow.Prefixes
import PhasePortrait.Service.Routes

/-!
# Simulations with a fixed step

The results of a simulation with a fixed step are the entries of a trajectory, each with its time: the
states of one iteration with their multiples of the step. How long a simulation goes on decides how
many of them there are and nothing else.
-/
namespace PhasePortrait
open Scalar Trajectory

namespace Routes

variable {dt : Amount}

theorem planarEntries_eq (s : PlanarSystem Float) (dt : Amount) (steps : Nat) (start : Point Float) :
    planarEntries s dt steps start =
      (upTo (s.step dt.toFloat) Point.isFinite start steps).map fun e => pointJson dt e.1 e.2 := by
  rw [planarEntries, s.toList_trajectory]

theorem planarEntries_prefix (s : PlanarSystem Float) (dt : Amount) (start : Point Float)
    {steps further : Nat} (hle : steps ≤ further) :
    planarEntries s dt steps start <+: planarEntries s dt further start :=
  (s.trajectory_prefix dt.toFloat start hle).map _

variable {horizon horizon' : Float} (step : Float → Float) (x₀ : Float)

theorem lineEntries_eq {count : Nat} (h : Ends dt.toFloat horizon count) :
    lineEntries step dt horizon x₀ =
      (upTo step isFinite x₀ count).map fun e => linePointJson dt e.1 e.2 := by
  rw [lineEntries, LineSystem.toList_trajectory step x₀ h]

theorem lineEntries_prefix (hle : horizon ≤ horizon') :
    lineEntries step dt horizon x₀ <+: lineEntries step dt horizon' x₀ :=
  (LineSystem.trajectory_prefix step x₀ hle).map _

/-- **Simulations with a fixed step are the longest finite prefixes of their iterations.** They have an
entry for every index up to the number of steps, or up to the first one whose time reaches the horizon,
cut before the first state after the start that is not finite. The entry of index `k` is at the time
`k * dt`. More steps and later horizons only append entries. -/
theorem simulations_eq_upTo :
    (∀ (s : PlanarSystem Float) (dt : Amount) (start : Point Float) (steps : Nat),
      planarEntries s dt steps start =
        (upTo (s.step dt.toFloat) Point.isFinite start steps).map (fun e => pointJson dt e.1 e.2) ∧
      ∀ further, steps ≤ further →
        planarEntries s dt steps start <+: planarEntries s dt further start) ∧
    ∀ (s : LineSystem Float) (params : ParameterValues Float) (dt : Amount) (x₀ horizon : Float),
      s.isValid = true → 0.0 < dt.toFloat →
      ∃ count, Ends dt.toFloat horizon count ∧
        (∃ points, s.series params x₀ horizon dt.toFloat = .ok points ∧
          points.toList = (upTo (s.rk4Step params dt.toFloat) isFinite x₀ count).map
            (fun e => ⟨timeAt dt.toFloat e.1, e.2⟩) ∧
          ∀ horizon', horizon ≤ horizon' →
            ∃ longer, s.series params x₀ horizon' dt.toFloat = .ok longer ∧
              points.toList <+: longer.toList) ∧
        ∀ step ∈ [s.rk4Step params dt.toFloat, s.eulerStep params dt.toFloat],
          lineEntries step dt horizon x₀ =
            (upTo step isFinite x₀ count).map (fun e => linePointJson dt e.1 e.2) ∧
          ∀ horizon', horizon ≤ horizon' →
            lineEntries step dt horizon x₀ <+: lineEntries step dt horizon' x₀ := by
  refine ⟨fun s dt start steps => ⟨planarEntries_eq s dt steps start,
    fun further hle => planarEntries_prefix s dt start hle⟩,
    fun s params dt x₀ horizon hvalid hdt => ?_⟩
  obtain ⟨count, hcount⟩ := exists_ends dt.toFloat horizon
  refine ⟨count, hcount, ⟨_, LineSystem.series_eq_ok hvalid hdt, ?_, fun horizon' hle => ?_⟩,
    fun step _ => ⟨lineEntries_eq step x₀ hcount, fun horizon' hle => lineEntries_prefix step x₀ hle⟩⟩
  · rw [Array.toList_map, LineSystem.toList_trajectory _ x₀ hcount]
  · refine ⟨_, LineSystem.series_eq_ok hvalid hdt, ?_⟩
    rw [Array.toList_map, Array.toList_map]
    exact (LineSystem.trajectory_prefix _ x₀ hle).map _

/-- Growth from 1, sampled every half until the time 1. -/
theorem simulations_eq_upTo_growth :
    (LineSystem.ofText "X" [] : LineSystem Float).isValid = true ∧
      (0.0 : Float) < (Amount.real 0.5).toFloat ∧
      ∃ count points, Ends 0.5 1.0 count ∧
        (LineSystem.ofText "X" []).series [] 1.0 1.0 0.5 = .ok points ∧
        points.toList = (upTo ((LineSystem.ofText "X" []).rk4Step [] 0.5) isFinite 1.0 count).map
          (fun e => ⟨timeAt 0.5 e.1, e.2⟩) ∧
        lineEntries ((LineSystem.ofText "X" []).eulerStep [] 0.5) (.real 0.5) 1.0 1.0 =
          (upTo ((LineSystem.ofText "X" []).eulerStep [] 0.5) isFinite 1.0 count).map
            (fun e => linePointJson (.real 0.5) e.1 e.2) := by
  have hvalid : (LineSystem.ofText "X" [] : LineSystem Float).isValid = true := by decide +kernel
  have hdt : (0.0 : Float) < (Amount.real 0.5).toFloat := by decide +kernel
  obtain ⟨count, hcount, ⟨points, hseries, hpoints, -⟩, hentries⟩ :=
    simulations_eq_upTo.2 (LineSystem.ofText "X" []) [] (.real 0.5) 1.0 1.0 hvalid hdt
  exact ⟨hvalid, hdt, count, points, hcount, hseries, hpoints,
    (hentries _ (List.mem_pair.mpr (.inr rfl))).1⟩

end Routes

end PhasePortrait
