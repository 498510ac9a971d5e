import PhasePortrait.Flow.System

/-!
# Phase lines

Equilibria of a single equation `x' = f x` on a range. A sign change between neighbouring grid
points is narrowed down by bisection; a place where `|f|` dips between its neighbours without a
change of sign is narrowed down by a golden-section search and taken if `f` nearly vanishes there;
grid points where `f` vanishes are taken as they are. Runs of at least three vanishing grid points
are intervals of their own, and no equilibrium is reported inside them.
-/
namespace PhasePortrait
open Scalar
variable {α : Type}

/-- How the sign of `f` behaves at an equilibrium. -/
inductive RootKind where
  | crossing | tangent
deriving DecidableEq, Repr

def RootKind.label : RootKind → String
  | crossing => "crossing"
  | tangent => "tangent"

structure PhaseLinePoint (α : Type) where
  x : α
  stability : Stability
  kind : RootKind

structure Interval (α : Type) where
  low : α
  high : α

structure PhaseLine (α : Type) where
  equilibria : List (PhaseLinePoint α)
  degenerate : List (Interval α)

namespace PhaseLine

/-! ## Runs of zeros -/

/-- A run that has not ended: its first and last position, and its length. -/
structure OpenRun (α : Type) where
  first : α
  last : α
  length : Nat

/-- Runs of fewer zeros are no interval. -/
def minRun : Nat := 3

def OpenRun.close : Option (OpenRun α) → List (Interval α)
  | some run => if minRun ≤ run.length then [⟨run.first, run.last⟩] else []
  | none => []

/-- The run after one more zero. -/
def OpenRun.push (x : α) : Option (OpenRun α) → OpenRun α
  | some run => ⟨run.first, x, run.length + 1⟩
  | none => ⟨x, x, 1⟩

/-- The intervals of the rest of a line, with a run open before it. -/
def runsFrom : Option (OpenRun α) → List (α × Bool) → List (Interval α)
  | run, [] => OpenRun.close run
  | run, (x, true) :: rest => runsFrom (some (OpenRun.push x run)) rest
  | run, (_, false) :: rest => OpenRun.close run ++ runsFrom none rest

/-- The longest runs of zeros, given each position with whether it is one. -/
def degenerateIntervals (flags : List (α × Bool)) : List (Interval α) := runsFrom none flags

variable [Scalar α]

/-! ## Refinement -/

def refinements : Nat := 60

/-- Halve the range `[a, b]` so many times, keeping a change of sign; `fa` is the value at `a`. The
search ends early at a zero, and gives up where `f` is not finite. -/
@[specialize] def bisectFrom (f : α → α) : Nat → α → α → α → α
  | 0, a, b, _ => 0.5 * (a + b)
  | count + 1, a, b, fa =>
    let mid := 0.5 * (a + b)
    let fm := f mid
    if !isFinite fm then 0.5 * (a + b)
    else if isZero fm then mid
    else if decide (fa < 0.0) == decide (fm < 0.0) then bisectFrom f count mid b fm
    else bisectFrom f count a mid fa

@[specialize] def bisect (f : α → α) (a b fa : α) : α := bisectFrom f refinements a b fa

/-- The positive number with `r * r + r = 1`. -/
def goldenRatio : α := (sqrt 5.0 - 1.0) / 2.0

def lowerProbe (a b : α) : α := b - goldenRatio * (b - a)
def upperProbe (a b : α) : α := a + goldenRatio * (b - a)

/-- Narrow a range so many times around a dip of `|f|`, given both probes and their values. -/
@[specialize] def narrow (f : α → α) : Nat → α → α → α → α → α → α → α
  | 0, a, b, _, _, _, _ => 0.5 * (a + b)
  | count + 1, a, b, c, d, fc, fd =>
    if fc < fd then
      let c' := lowerProbe a d
      narrow f count a d c' c (abs (f c')) fc
    else
      let d' := upperProbe c b
      narrow f count c b d d' fd (abs (f d'))

/-- Golden-section search for a dip of `|f|`. -/
@[specialize] def minimizeAbs (f : α → α) (a b : α) : α :=
  let c := lowerProbe a b
  let d := upperProbe a b
  narrow f refinements a b c d (abs (f c)) (abs (f d))

/-- Stability by the signs of `f` on both sides. -/
@[specialize] def classify (f : α → α) (x delta : α) : Stability :=
  let left := f (x - delta)
  let right := f (x + delta)
  if !(isFinite left && isFinite right) || isZero left || isZero right then .unknown
  else if 0.0 < left && right < 0.0 then .stable
  else if left < 0.0 && 0.0 < right then .unstable
  else .semiStable

/-! ## Candidates -/

/-- A grid point and the value there. -/
structure GridValue (α : Type) where
  x : α
  f : α

/-- Values of at most this size count as zero. -/
def zeroTolerance : α := 1e-12

namespace GridValue

def finite (s : GridValue α) : Bool := isFinite s.f

def zero (s : GridValue α) : Bool := s.finite && abs s.f ≤ zeroTolerance

/-- Finite and not zero. -/
def regular (s : GridValue α) : Bool := s.finite && !s.zero

end GridValue

abbrev Candidate (α : Type) := α × RootKind

/-- A zero on the grid is a crossing if its neighbours lie on different sides. -/
def zeroCandidate? : Option (GridValue α) × GridValue α × Option (GridValue α) →
    Option (Candidate α)
  | (left, s, right) =>
    if s.zero then
      match left, right with
      | some l, some r => some (s.x, if l.f * r.f < 0.0 then .crossing else .tangent)
      | _, _ => some (s.x, .tangent)
    else none

/-- Each item of a list between its neighbours. -/
def withNeighbours {β : Type} (xs : List β) : List (Option β × β × Option β) :=
  (none :: xs.map some).zip (xs.zip (xs.tail.map some ++ [none]))

@[specialize] def crossingCandidate? (f : α → α) : GridValue α × GridValue α → Option (Candidate α)
  | (l, r) =>
    if l.regular && r.regular && l.f * r.f < 0.0 then some (bisect f l.x r.x l.f, .crossing) else none

/-- A dip of `|f|` at the middle one of three points on the same side. -/
def isDip (l m r : GridValue α) : Bool :=
  l.regular && m.regular && r.regular && !(l.f * m.f ≤ 0.0) && !(m.f * r.f ≤ 0.0)
    && abs m.f ≤ abs l.f && abs m.f ≤ abs r.f

@[specialize] def tangentCandidate? (f : α → α) (tolerance : α) :
    GridValue α × GridValue α × GridValue α → Option (Candidate α)
  | (l, m, r) =>
    if isDip l m r then
      let x := minimizeAbs f l.x r.x
      if abs (f x) < tolerance then some (x, .tangent) else none
    else none

@[specialize] def candidates (f : α → α) (tolerance : α) (values : List (GridValue α)) :
    List (Candidate α) :=
  (withNeighbours values).filterMap zeroCandidate?
    ++ (values.zip values.tail).filterMap (crossingCandidate? f)
    ++ (values.zip (values.tail.zip values.tail.tail)).filterMap (tangentCandidate? f tolerance)

/-! ## Selection -/

/-- Order by position, crossings first at the same one. Nothing is behind a position that is no
number, or in front of it, so it stays where it stands. -/
def Candidate.before (a b : Candidate α) : Bool :=
  !(b.1 < a.1 || (same a.1 b.1 && (a.2 = .tangent && b.2 = .crossing)))

def Interval.contains (i : Interval α) (x : α) : Bool := i.low ≤ x && x ≤ i.high

/-- Drop candidates inside an interval, and those closer than `gap` to the last one kept. -/
def select (intervals : List (Interval α)) (gap : α) : Option α → List (Candidate α) →
    List (Candidate α)
  | _, [] => []
  | last, c :: rest =>
    if intervals.any (Interval.contains · c.1) then select intervals gap last rest
    else if last.any fun x => c.1 - x < gap then select intervals gap last rest
    else c :: select intervals gap (some c.1) rest

@[specialize] def gridValues (f : α → α) (xMin xMax : α) (count : Nat) : List (GridValue α) :=
  (Grid.points xMin xMax count).map fun x => ⟨x, f x⟩

/-- The distance of the first two grid points. -/
def spacing (xMin xMax : α) (count : Nat) : α :=
  Grid.point xMin xMax count 1 - Grid.point xMin xMax count 0

/-- The phase line of `f` over a grid of `count` cells. -/
@[specialize] def ofFunction (f : α → α) (xMin xMax : α) (count : Nat) (tolerance : α) :
    PhaseLine α :=
  let values := gridValues f xMin xMax count
  let gap := spacing xMin xMax count
  let intervals := degenerateIntervals (values.map fun s => (s.x, s.zero))
  let sorted := (candidates f tolerance values).mergeSort Candidate.before
  let kept := select intervals gap none sorted
  ⟨kept.map fun (x, kind) => ⟨x, classify f x (gap / 2.0), kind⟩, intervals⟩

def defaultSamples : Nat := 400
def defaultTolerance : α := 1e-8

end PhaseLine

/-- The phase line of a system; an invalid one has no equilibria. -/
def LineSystem.phaseLine [Elementary α] (s : LineSystem α) (params : ParameterValues α)
    (xMin xMax : α) (count : Nat) (tolerance : α) : Except Refusal (PhaseLine α) :=
  if xMax ≤ xMin then .error .emptyRange
  else if count < 2 then .error .tooFewSamples
  else if s.isValid then .ok (PhaseLine.ofFunction (s.derivative params) xMin xMax count tolerance)
  else .ok ⟨[], []⟩

end PhasePortrait
