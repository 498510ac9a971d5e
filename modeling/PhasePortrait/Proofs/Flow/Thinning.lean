import Mathlib.Data.List.Induction
import Mathlib.Data.List.Sort
import PhasePortrait.Flow.Field
import PhasePortrait.Number.Double

/-!
# Which candidates are kept

The search for planar equilibria scans the candidates on its grid and keeps those that are far from
every candidate kept before. A grid without width has one point at several places, so what a scan
keeps are places of the list. They are separated, and each place that is left out has a kept one
before it that is not far; there is a single way to meet both conditions.

Far is what compares as greater than the gap. A distance that compares with nothing is not far, so
that it is a reason to leave a point out, and a strength that compares with nothing makes no
candidate. Nothing is assumed about the distances themselves.

## Main definitions

* `Field.candidatePoints f xLow xHigh yLow yHigh tolerance size` — the grid points at which the
  field is weaker than the tolerance, in the order of the scan.
* `Field.Thinned gap cs kept` — the places that are kept of the points `cs`.
-/
namespace PhasePortrait.Field
open Scalar
variable {α : Type} [Scalar α]

/-- The candidates on a grid, columns first. -/
def candidatePoints (f : Rhs α 2) (xLow xHigh yLow yHigh tolerance : α) (size : Nat) :
    List (Point α) :=
  (gridPoints xLow xHigh yLow yHigh size).filter (isCandidate f tolerance)

/-- The candidates one by one: the columns in turn, each from its first point, without the points
where the derivative is not shorter than the tolerance. -/
theorem candidatePoints_eq (f : Rhs α 2) (xLow xHigh yLow yHigh tolerance : α) (size : Nat) :
    candidatePoints f xLow xHigh yLow yHigh tolerance size =
      (List.range (size + 1)).flatMap fun i =>
        ((List.range (size + 1)).map fun j =>
            (⟨Grid.point xLow xHigh size i, Grid.point yLow yHigh size j⟩ : Point α)).filter
          fun p => hypot (derivative f p).x (derivative f p).y < tolerance := by
  rw [candidatePoints, gridPoints, List.filter_flatMap, Grid.points, Grid.points, List.flatMap_map]
  refine List.flatMap_congr fun i _ => ?_
  rw [List.map_map]
  rfl

/-- A selection of the places of a list of points that is separated by more than a gap, and to which
no place could be added. Distances are taken from the earlier point to the later one. -/
structure Thinned (gap : α) (cs : List (Point α)) (kept : List (Point α × Nat)) : Prop where
  sublist : kept.Sublist cs.zipIdx
  separated : ∀ a ∈ kept, ∀ b ∈ kept, a.2 < b.2 → gap < a.1.distance b.1
  covered : ∀ c ∈ cs.zipIdx, c ∉ kept → ∃ a ∈ kept, a.2 < c.2 ∧ ¬ gap < a.1.distance c.1

namespace Thinned
variable {gap : α} {cs : List (Point α)} {c : Point α} {kept kept' : List (Point α × Nat)}

theorem place_lt (h : Thinned gap cs kept) {a : Point α × Nat} (ha : a ∈ kept) :
    a.2 < cs.length :=
  (List.mem_zipIdx' (h.sublist.subset ha)).1

theorem place_increasing (h : Thinned gap cs kept) : kept.Pairwise fun a b => a.2 < b.2 := by
  refine List.Pairwise.sublist h.sublist ?_
  rw [← List.pairwise_map (R := (· < ·)), List.zipIdx_map_snd]
  exact List.pairwise_lt_range' 1

/-- There is nothing before the first point for which it could be left out. -/
theorem first_mem (h : Thinned gap cs kept) (hc : c ∈ cs.head?) : (c, 0) ∈ kept := by
  have hplace : (c, 0) ∈ cs.zipIdx := by
    cases cs with
    | nil => cases hc
    | cons d cs =>
      cases hc
      exact List.mem_cons_self
  by_contra hleft
  obtain ⟨a, -, hbefore, -⟩ := h.covered _ hplace hleft
  exact Nat.not_lt_zero _ hbefore

/-! ## One more point -/

theorem nil (gap : α) : Thinned gap [] [] where
  sublist := .slnil
  separated _ ha := nomatch ha
  covered _ hc := nomatch hc

omit [Scalar α] in
theorem zipIdx_concat (cs : List (Point α)) (c : Point α) :
    (cs ++ [c]).zipIdx = cs.zipIdx ++ [(c, cs.length)] := by
  rw [List.zipIdx_append, Nat.zero_add]
  rfl

/-- A point far from all that is kept is kept as well. -/
theorem keep (h : Thinned gap cs kept) (hfar : ∀ a ∈ kept, gap < a.1.distance c) :
    Thinned gap (cs ++ [c]) (kept ++ [(c, cs.length)]) where
  sublist := by
    rw [zipIdx_concat]
    exact h.sublist.append_right _
  separated a ha b hb hab := by
    rcases List.mem_append.mp ha with ha | ha <;> rcases List.mem_append.mp hb with hb | hb
    · exact h.separated a ha b hb hab
    · rw [List.mem_singleton.mp hb]
      exact hfar a ha
    · rw [List.mem_singleton.mp ha] at hab
      exact absurd (h.place_lt hb) hab.not_gt
    · rw [List.mem_singleton.mp ha, List.mem_singleton.mp hb] at hab
      exact absurd hab (Nat.lt_irrefl _)
  covered d hd hleft := by
    rw [zipIdx_concat] at hd
    rcases List.mem_append.mp hd with hd | hd
    · obtain ⟨a, ha, hbefore, hnear⟩ := h.covered d hd fun hkept => hleft (List.mem_append_left _ hkept)
      exact ⟨a, List.mem_append_left _ ha, hbefore, hnear⟩
    · exact absurd (List.mem_append_right _ hd) hleft

/-- A point that is not far from something kept is left out. -/
theorem leaveOut (h : Thinned gap cs kept) (hnear : ∃ a ∈ kept, ¬ gap < a.1.distance c) :
    Thinned gap (cs ++ [c]) kept where
  sublist := by
    rw [zipIdx_concat]
    exact h.sublist.trans (List.sublist_append_left _ _)
  separated := h.separated
  covered d hd hleft := by
    rw [zipIdx_concat] at hd
    rcases List.mem_append.mp hd with hd | hd
    · exact h.covered d hd hleft
    · obtain ⟨a, ha, hnear⟩ := hnear
      rw [List.mem_singleton.mp hd]
      exact ⟨a, ha, h.place_lt ha, hnear⟩

/-! ## All points -/

theorem mem_of_agree (h : Thinned gap cs kept) (h' : Thinned gap cs kept') {c : Point α × Nat}
    (hc : c ∈ kept) (hearlier : ∀ a ∈ kept', a.2 < c.2 → a ∈ kept) : c ∈ kept' := by
  by_contra hleft
  obtain ⟨a, ha, hbefore, hnear⟩ := h'.covered c (h.sublist.subset hc) hleft
  exact hnear (h.separated a (hearlier a ha hbefore) c hc hbefore)

/-- Two selections agree on each place, by induction on the places before it. -/
theorem mem_iff (h : Thinned gap cs kept) (h' : Thinned gap cs kept') (c : Point α × Nat) :
    c ∈ kept ↔ c ∈ kept' := by
  obtain ⟨c, place⟩ := c
  induction place using Nat.strong_induction_on generalizing c with
  | _ place ih =>
    constructor
    · exact fun hc => h.mem_of_agree h' hc fun a ha hbefore => (ih a.2 hbefore a.1).mpr ha
    · exact fun hc => h'.mem_of_agree h hc fun a ha hbefore => (ih a.2 hbefore a.1).mp ha

theorem unique (h : Thinned gap cs kept) (h' : Thinned gap cs kept') : kept = kept' := by
  refine List.Perm.eq_of_pairwise (fun a b _ _ hab hba => absurd hab hba.not_gt) h.place_increasing
    h'.place_increasing ?_
  have hnodup : ∀ {kept : List (Point α × Nat)}, Thinned gap cs kept → kept.Nodup := fun h =>
    h.place_increasing.imp fun hlt heq => hlt.ne (congrArg Prod.snd heq)
  exact (List.perm_ext_iff_of_nodup (hnodup h) (hnodup h')).mpr (h.mem_iff h')

end Thinned

/-- The points kept by the scan, with their places: after each point the scan has thinned what it
has seen so far. -/
theorem exists_thinned (gap : α) (cs : List (Point α)) :
    ∃ kept, (cs.foldl (keep gap) #[]).toList = kept.map Prod.fst ∧ Thinned gap cs kept := by
  induction cs using List.reverseRec with
  | nil => exact ⟨[], rfl, .nil gap⟩
  | append_singleton cs c ih =>
    obtain ⟨kept, hlist, h⟩ := ih
    have hfar : (cs.foldl (keep gap) #[]).all (fun q => gap < q.distance c) = true ↔
        ∀ a ∈ kept, gap < a.1.distance c := by
      rw [← Array.all_toList, hlist, List.all_map, List.all_eq_true]
      simp
    rw [List.foldl_concat, keep]
    split
    · next hall =>
      refine ⟨_, ?_, h.keep (hfar.mp hall)⟩
      rw [Array.toList_push, hlist, List.map_append]
      rfl
    · next hall =>
      rw [hfar] at hall
      push Not at hall
      exact ⟨kept, hlist, h.leaveOut hall⟩

/-- **The equilibria on a grid are the candidates that a greedy scan keeps.** They are the points at
a selection of places that has the first candidate, in which every two are more than ten tolerances
apart, and which has, for every candidate left out, an earlier one that is not. There is only one
such selection. -/
theorem equilibria_thinned (f : Rhs α 2) (xLow xHigh yLow yHigh tolerance : α) {size : Nat}
    (hsize : 1 ≤ size) :
    ∃ found, equilibria f xLow xHigh yLow yHigh tolerance size = .ok found ∧
      ∃ kept, found.toList = kept.map Prod.fst ∧
        (∀ c ∈ (candidatePoints f xLow xHigh yLow yHigh tolerance size).head?, (c, 0) ∈ kept) ∧
        Thinned (tolerance * 10.0) (candidatePoints f xLow xHigh yLow yHigh tolerance size) kept ∧
        ∀ other, Thinned (tolerance * 10.0)
          (candidatePoints f xLow xHigh yLow yHigh tolerance size) other → other = kept := by
  obtain ⟨kept, hlist, h⟩ := exists_thinned (tolerance * 10.0)
    (candidatePoints f xLow xHigh yLow yHigh tolerance size)
  refine ⟨_, ?_, kept, hlist, fun c hc => h.first_mem hc, h, fun other hother => hother.unique h⟩
  rw [equilibria, if_neg (Nat.not_lt.mpr hsize)]
  rfl

/-- On a grid without width each candidate stands in every column, and those of the first one are
kept. -/
theorem equilibria_thinned_still :
    1 ≤ 2 ∧
    ∃ found, equilibria (fun _ _ => #v[0.0, 0.0]) 1.0 1.0 0.0 1.0 (1e-3 : Float) 2 = .ok found ∧
      found.toList.map (fun p => (p.x, p.y)) = [(1.0, 0.0), (1.0, 0.5), (1.0, 1.0)] ∧
      ∃ kept, found.toList = kept.map Prod.fst ∧
        (∀ c ∈ (candidatePoints (fun _ _ => #v[0.0, 0.0]) 1.0 1.0 0.0 1.0 (1e-3 : Float) 2).head?,
          (c, 0) ∈ kept) ∧
        Thinned (1e-3 * 10.0)
          (candidatePoints (fun _ _ => #v[0.0, 0.0]) 1.0 1.0 0.0 1.0 (1e-3 : Float) 2) kept ∧
        ∀ other, Thinned (1e-3 * 10.0)
          (candidatePoints (fun _ _ => #v[0.0, 0.0]) 1.0 1.0 0.0 1.0 (1e-3 : Float) 2) other →
            other = kept := by
  have hpoints :
      (equilibria (fun _ _ => #v[0.0, 0.0]) 1.0 1.0 0.0 1.0 (1e-3 : Float) 2).toOption.map
        (fun found => found.toList.map fun p => (p.x, p.y)) =
          some [(1.0, 0.0), (1.0, 0.5), (1.0, 1.0)] := by decide +kernel
  obtain ⟨found, hfound, hkept⟩ :=
    equilibria_thinned (fun _ _ => #v[0.0, 0.0]) 1.0 1.0 0.0 1.0 (1e-3 : Float) (by decide : 1 ≤ 2)
  rw [hfound] at hpoints
  exact ⟨by decide, found, hfound, Option.some.inj hpoints, hkept⟩

end PhasePortrait.Field
