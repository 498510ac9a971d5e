import PhasePortrait.Proofs.PhaseLine.SignChanges

/-!
# Kinds and stabilities

The kind of an equilibrium is read off the values at the grid points beside it, its stability off the values
half a spacing away. Both speak of the same change of sign if each grid point has a value that counts, on
the side of zero where the function is half a spacing away. A tangent equilibrium is then semi-stable or
unknown. It may be called stable or unstable only where one of the two grid points misses the side: at an
end of the grid there is none, its value is no number or counts as zero, or the function changes its side
once more on the way there.

## Main definitions

* `PhaseLine.Opposite u v` — values on different sides of zero.
* `PhaseLine.Flanked f tolerance values l x r` — a tangent equilibrium `x` is taken from `l` and `r`.
* `PhaseLine.Misses n v` — the grid value `n` does not show the side that `v` is on.
-/
namespace PhasePortrait
open Scalar

namespace PhaseLine

section
variable {α : Type} [Scalar α] {f : α → α} {tolerance x delta : α} {values : List (GridValue α)}

/-- Values on different sides of zero. -/
def Opposite (u v : α) : Prop := u < 0.0 ∧ 0.0 < v ∨ 0.0 < u ∧ v < 0.0

/-- A stability other than unknown and semi-stable takes values on different sides. -/
theorem classify_of_not_opposite (h : ¬ Opposite (f (x - delta)) (f (x + delta))) :
    classify f x delta = .semiStable ∨ classify f x delta = .unknown := by
  rw [classify]
  split
  · exact .inr rfl
  · split
    · next hstable =>
      rw [Bool.and_eq_true, decide_eq_true_iff, decide_eq_true_iff] at hstable
      exact absurd (.inr hstable) h
    · split
      · next hunstable =>
        rw [Bool.and_eq_true, decide_eq_true_iff, decide_eq_true_iff] at hunstable
        exact absurd (.inl hunstable) h
      · exact .inl rfl

/-! ## Where a kind is read off -/

/-- A tangent equilibrium `x` between the grid values `l` and `r`: a zero on the grid without a change of
sign from its one neighbour to the other, or a dip between two values on the same side. -/
inductive Flanked (f : α → α) (tolerance : α) (values : List (GridValue α)) :
    Option (GridValue α) → α → Option (GridValue α) → Prop
  | zero {l r : Option (GridValue α)} {s : GridValue α} (hmem : (l, s, r) ∈ withNeighbours values)
      (hzero : s.zero = true) (hsame : ∀ l' ∈ l, ∀ r' ∈ r, ¬ l'.f * r'.f < 0.0) :
      Flanked f tolerance values l s.x r
  | dip {l m r : GridValue α} (hmem : (l, m, r) ∈ values.zip (values.tail.zip values.tail.tail))
      (hdip : isDip l m r = true) (hsmall : abs (f (minimizeAbs f l.x r.x)) < tolerance) :
      Flanked f tolerance values (some l) (minimizeAbs f l.x r.x) (some r)

theorem flanked_of_zeroCandidate? {n : Option (GridValue α) × GridValue α × Option (GridValue α)}
    {c : Candidate α} (hmem : n ∈ withNeighbours values) (h : zeroCandidate? n = some c)
    (hkind : c.2 = .tangent) : ∃ l r, Flanked f tolerance values l c.1 r := by
  obtain ⟨l, s, r⟩ := n
  refine ⟨l, r, ?_⟩
  unfold zeroCandidate? at h
  dsimp only at h
  split at h
  · next hzero =>
    split at h
    · next l r =>
      cases h
      refine .zero hmem hzero ?_
      rintro l' ⟨⟩ r' ⟨⟩ hneg
      rw [if_pos hneg] at hkind
      cases hkind
    · next hnone =>
      cases h
      exact .zero hmem hzero fun l' hl r' hr => absurd hr (hnone l' r' hl)
  · cases h

theorem flanked_of_tangentCandidate? {window : GridValue α × GridValue α × GridValue α}
    {c : Candidate α} (hmem : window ∈ values.zip (values.tail.zip values.tail.tail))
    (h : tangentCandidate? f tolerance window = some c) :
    ∃ l r, Flanked f tolerance values l c.1 r := by
  obtain ⟨l, m, r⟩ := window
  rw [tangentCandidate?] at h
  split at h
  · next hdip =>
    dsimp only at h
    split at h
    · next hsmall =>
      cases h
      exact ⟨_, _, .dip hmem hdip hsmall⟩
    · cases h
  · cases h

theorem exists_flanked {c : Candidate α} (hc : c ∈ candidates f tolerance values)
    (hkind : c.2 = .tangent) : ∃ l r, Flanked f tolerance values l c.1 r := by
  simp only [candidates, List.mem_append, List.mem_filterMap] at hc
  obtain (⟨n, hmem, hc⟩ | ⟨cell, -, hc⟩) | ⟨window, hmem, hc⟩ := hc
  · exact flanked_of_zeroCandidate? hmem hc hkind
  · rw [crossingCandidate?] at hc
    split at hc <;> cases hc
    cases hkind
  · exact flanked_of_tangentCandidate? hmem hc

/-! ## What a neighbour misses -/

/-- A grid value beside an equilibrium that does not show the side that `v` is on. -/
inductive Misses : Option (GridValue α) → α → Prop
  | atEnd {v : α} : Misses none v
  | notRegular {s : GridValue α} {v : α} (h : s.regular = false) : Misses (some s) v
  | otherSide {s : GridValue α} {v : α} (h : Opposite s.f v) : Misses (some s) v

end

open Double

variable {f : Float → Float} {tolerance x u v : Float} {values : List (GridValue Float)}
  {l r s : GridValue Float}

theorem exists_of_regular (h : s.regular = true) :
    ∃ y t : ℝ, Is s.f y ∧ Is (zeroTolerance : Float) t ∧ 0 < t ∧ t < |y| := by
  obtain ⟨hfinite, hzero⟩ := Bool.and_eq_true_iff.mp h
  obtain ⟨y, hy⟩ := isFinite_eq_true_iff.mp hfinite
  obtain ⟨t, ht, hsize⟩ := is_zeroTolerance
  refine ⟨y, t, hy, ht, (zpow_pos two_pos _).trans_le hsize, lt_of_not_ge fun hle => ?_⟩
  have hsmall : abs s.f ≤ zeroTolerance := (le_iff hy.abs ht).mpr (EReal.coe_le_coe_iff.mpr hle)
  rw [GridValue.zero, hfinite, decide_eq_true hsmall] at hzero
  cases hzero

theorem sides_of_regular (h : s.regular = true) : s.f < 0.0 ∨ 0.0 < s.f := by
  obtain ⟨y, t, hy, -, hpos, hlt⟩ := exists_of_regular h
  rw [lt_iff hy is_zero, lt_iff is_zero hy, EReal.coe_lt_coe_iff, EReal.coe_lt_coe_iff]
  exact lt_or_gt_of_ne (abs_pos.mp (hpos.trans hlt))

/-- Regular values on different sides have a negative product. -/
theorem Opposite.mul_neg (h : Opposite l.f r.f) (hl : l.regular = true) (hr : r.regular = true) :
    l.f * r.f < 0.0 := by
  have hsize : ∀ {s : GridValue Float}, s.regular = true → zeroTolerance < abs s.f := fun hs => by
    obtain ⟨y, t, hy, ht, -, hlt⟩ := exists_of_regular hs
    exact (lt_iff ht hy.abs).mpr (EReal.coe_lt_coe_iff.mpr hlt)
  have hchange : SignChange l r := ⟨(Bool.and_eq_true_iff.mp hl).1, (Bool.and_eq_true_iff.mp hr).1,
    hsize hl, hsize hr, h⟩
  exact hchange.mul_neg

/-- A tangent equilibrium is not taken from regular values on different sides. -/
theorem Flanked.not_opposite (h : Flanked f tolerance values (some l) x (some r)) (hl : l.regular = true)
    (hr : r.regular = true) : ¬ Opposite l.f r.f := by
  intro hsides
  cases h with
  | zero _ _ hsame => exact hsame l rfl r rfl (hsides.mul_neg hl hr)
  | @dip _ m _ _ hdip =>
    simp only [isDip, Bool.and_eq_true, Bool.not_eq_true', decide_eq_false_iff_not] at hdip
    obtain ⟨⟨⟨⟨⟨⟨-, hm⟩, -⟩, hleft⟩, hright⟩, -⟩, -⟩ := hdip
    -- the value between the two is not on the side of both
    have hleft : ¬ Opposite l.f m.f := fun h => hleft (Double.le_of_lt (h.mul_neg hl hm))
    have hright : ¬ Opposite m.f r.f := fun h => hright (Double.le_of_lt (h.mul_neg hm hr))
    rcases sides_of_regular hm with hneg | hpos
    · rcases hsides with ⟨-, hrpos⟩ | ⟨hlpos, -⟩
      · exact hright (.inl ⟨hneg, hrpos⟩)
      · exact hleft (.inr ⟨hlpos, hneg⟩)
    · rcases hsides with ⟨hlneg, -⟩ | ⟨-, hrneg⟩
      · exact hleft (.inl ⟨hlneg, hpos⟩)
      · exact hright (.inr ⟨hpos, hrneg⟩)

/-- Grid values that miss neither of two different sides are on them. -/
theorem misses_or_opposite (h : Opposite u v) (hl : l.regular = true) (hr : r.regular = true) :
    Misses (some l) u ∨ Misses (some r) v ∨ Opposite l.f r.f := by
  rcases h with ⟨hu, hv⟩ | ⟨hu, hv⟩
  · rcases sides_of_regular hl with hlneg | hlpos
    · rcases sides_of_regular hr with hrneg | hrpos
      · exact .inr (.inl (.otherSide (.inl ⟨hrneg, hv⟩)))
      · exact .inr (.inr (.inl ⟨hlneg, hrpos⟩))
    · exact .inl (.otherSide (.inr ⟨hlpos, hu⟩))
  · rcases sides_of_regular hl with hlneg | hlpos
    · exact .inl (.otherSide (.inl ⟨hlneg, hu⟩))
    · rcases sides_of_regular hr with hrneg | hrpos
      · exact .inr (.inr (.inr ⟨hlpos, hrneg⟩))
      · exact .inr (.inl (.otherSide (.inr ⟨hrpos, hv⟩)))

/-- Where the function is on different sides half a spacing away, one of the two grid values that a tangent
equilibrium is taken from misses this. -/
theorem Flanked.misses {l r : Option (GridValue Float)} (h : Flanked f tolerance values l x r)
    (hsides : Opposite u v) : Misses l u ∨ Misses r v := by
  cases l with
  | none => exact .inl .atEnd
  | some l =>
    cases r with
    | none => exact .inr .atEnd
    | some r =>
      by_cases hl : l.regular = true
      · by_cases hr : r.regular = true
        · rcases misses_or_opposite hsides hl hr with hmisses | hmisses | hopposite
          · exact .inl hmisses
          · exact .inr hmisses
          · exact absurd hopposite (h.not_opposite hl hr)
        · exact .inr (.notRegular (Bool.eq_false_iff.mpr hr))
      · exact .inl (.notRegular (Bool.eq_false_iff.mpr hl))

end PhaseLine

namespace LineSystem
open PhaseLine

variable {s : LineSystem Float} {params : ParameterValues Float} {xMin xMax tolerance : Float}
  {count : Nat} {line : PhaseLine Float}

/-- **A tangent equilibrium is semi-stable or unknown unless a neighbour on the grid misses a side.** -/
theorem tangent_semiStable_or_misses
    (hline : s.phaseLine params xMin xMax count tolerance = .ok line) {p : PhaseLinePoint Float}
    (hp : p ∈ line.equilibria) (hkind : p.kind = .tangent) :
    (¬ Opposite (s.derivative params (p.x - spacing xMin xMax count / 2.0))
        (s.derivative params (p.x + spacing xMin xMax count / 2.0)) ∧
      (p.stability = .semiStable ∨ p.stability = .unknown)) ∨
    ∃ l r, Flanked (s.derivative params) tolerance
        (gridValues (s.derivative params) xMin xMax count) l p.x r ∧
      (Misses l (s.derivative params (p.x - spacing xMin xMax count / 2.0)) ∨
        Misses r (s.derivative params (p.x + spacing xMin xMax count / 2.0))) := by
  obtain ⟨c, hc, rfl⟩ := List.mem_map.mp (mem_equilibria_of_phaseLine hline hp)
  have hcandidate := List.mem_mergeSort.mp (mem_of_mem_select hc)
  by_cases hsides : Opposite (s.derivative params (c.1 - spacing xMin xMax count / 2.0))
      (s.derivative params (c.1 + spacing xMin xMax count / 2.0))
  · obtain ⟨l, r, hflanked⟩ := exists_flanked hcandidate hkind
    exact .inr ⟨l, r, hflanked, hflanked.misses hsides⟩
  · exact .inl ⟨hsides, classify_of_not_opposite hsides⟩

/-- A tangent zero on the grid, where the function is positive on both sides. -/
theorem tangent_semiStable_or_misses_square :
    ∃ line p, (ofText "X*X" [] : LineSystem Float).phaseLine [] (-1.0) 1.0 2 defaultTolerance = .ok line ∧
      p ∈ line.equilibria ∧ p.kind = .tangent ∧
      ((¬ Opposite ((ofText "X*X" [] : LineSystem Float).derivative []
            (p.x - spacing (-1.0) 1.0 2 / 2.0))
          ((ofText "X*X" [] : LineSystem Float).derivative [] (p.x + spacing (-1.0) 1.0 2 / 2.0)) ∧
        (p.stability = .semiStable ∨ p.stability = .unknown)) ∨
      ∃ l r, Flanked ((ofText "X*X" [] : LineSystem Float).derivative []) defaultTolerance
          (gridValues ((ofText "X*X" [] : LineSystem Float).derivative []) (-1.0) 1.0 2) l p.x r ∧
        (Misses l ((ofText "X*X" [] : LineSystem Float).derivative []
            (p.x - spacing (-1.0) 1.0 2 / 2.0)) ∨
          Misses r ((ofText "X*X" [] : LineSystem Float).derivative []
            (p.x + spacing (-1.0) 1.0 2 / 2.0)))) := by
  have hline : (ofText "X*X" [] : LineSystem Float).phaseLine [] (-1.0) 1.0 2 defaultTolerance = .ok _ :=
    phaseLine_eq_ok (by decide +kernel) (by decide) (by decide +kernel)
  have hne : (ofFunction ((ofText "X*X" [] : LineSystem Float).derivative []) (-1.0) 1.0 2
      defaultTolerance).equilibria ≠ [] := by
    rw [← List.length_pos_iff]
    decide +kernel
  have hall : ((ofFunction ((ofText "X*X" [] : LineSystem Float).derivative []) (-1.0) 1.0 2
      defaultTolerance).equilibria.all fun p => p.kind = .tangent) = true := by
    decide +kernel
  have hkind := of_decide_eq_true (List.all_eq_true.mp hall _ (List.head_mem hne))
  exact ⟨_, _, hline, List.head_mem hne, hkind,
    tangent_semiStable_or_misses hline (List.head_mem hne) hkind⟩

/-- Two zeros on neighbouring grid points: the function passes from one side to the other at both, but
neither has values on different sides beside it. -/
theorem tangent_stable :
    ¬ ∀ (s : LineSystem Float) (params : ParameterValues Float) (xMin xMax tolerance : Float)
      (count : Nat) (line : PhaseLine Float) (p : PhaseLinePoint Float), s.isValid = true →
      s.phaseLine params xMin xMax count tolerance = .ok line → p ∈ line.equilibria →
        p.kind = .tangent → p.stability ≠ .stable ∧ p.stability ≠ .unstable := by
  intro h
  have hvalid : (ofText "X*(X-0.25)" [] : LineSystem Float).isValid = true := by decide +kernel
  have hline : (ofText "X*(X-0.25)" [] : LineSystem Float).phaseLine [] (-1.0) 1.0 8 defaultTolerance =
      .ok _ := phaseLine_eq_ok (by decide +kernel) (by decide) hvalid
  have hall : ((ofFunction ((ofText "X*(X-0.25)" [] : LineSystem Float).derivative []) (-1.0) 1.0 8
      defaultTolerance).equilibria.all fun p => p.kind = .crossing || p.stability ≠ .stable) = true := by
    refine List.all_eq_true.mpr fun p hp => ?_
    cases hkind : p.kind with
    | crossing => rfl
    | tangent => exact decide_eq_true (h _ [] (-1.0) 1.0 defaultTolerance 8 _ p hvalid hline hp hkind).1
  have hsorted : (candidates ((ofText "X*(X-0.25)" [] : LineSystem Float).derivative [])
      defaultTolerance (gridValues ((ofText "X*(X-0.25)" [] : LineSystem Float).derivative [])
        (-1.0) 1.0 8)).Pairwise fun c d => Candidate.before c d = true := by
    decide +kernel
  rw [ofFunction, List.mergeSort_of_pairwise hsorted] at hall
  revert hall
  decide +kernel

end LineSystem

end PhasePortrait
