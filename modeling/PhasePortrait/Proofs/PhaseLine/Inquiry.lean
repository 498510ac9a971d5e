import PhasePortrait.Proofs.PhaseLine.Containment

/-!
# Where searches look

A search knows a function only by the values that it asks for. Written as an inquiry, it holds no function
at all: it names a point, and goes on by what it is told there. Told the values of a function, an inquiry
arrives where the search arrives (`run_bisection`, `run_dipSearch`), so the points that it asks about are
those at which the search evaluates the function.

## Main definitions

* `PhaseLine.Inquiry α` — a search that goes on by the values it is told.
* `Inquiry.run f`, `Inquiry.asked f` — where it arrives if it is told the values of `f`, and the points it
  has asked about.
* `PhaseLine.bisection`, `PhaseLine.dipSearch` — the two searches.
-/
namespace PhasePortrait.PhaseLine
open Scalar

/-- A search that has arrived, or asks for the value at a point and goes on by it. -/
inductive Inquiry (α : Type) where
  | arrive (x : α)
  | ask (x : α) (next : α → Inquiry α)

namespace Inquiry
variable {α : Type}

def run (f : α → α) : Inquiry α → α
  | arrive x => x
  | ask x next => (next (f x)).run f

def asked (f : α → α) : Inquiry α → List α
  | arrive _ => []
  | ask x next => x :: (next (f x)).asked f

end Inquiry

variable {α : Type} [Scalar α] {f : α → α} {a b : α} {count : Nat}

/-! ## The search over a change of sign -/

/-- The search over a change of sign, given the value at the lower end. -/
def bisection : Nat → α → α → α → Inquiry α
  | 0, a, b, _ => .arrive (middle a b)
  | count + 1, a, b, fa => .ask (middle a b) fun fm =>
    if !isFinite fm then .arrive (middle a b)
    else if isZero fm then .arrive (middle a b)
    else if decide (fa < 0.0) == decide (fm < 0.0) then bisection count (middle a b) b fm
    else bisection count a (middle a b) fa

theorem run_bisection (f : α → α) (count : Nat) (a b fa : α) :
    (bisection count a b fa).run f = bisectFrom f count a b fa := by
  induction count generalizing a b fa with
  | zero => rfl
  | succ count ih =>
    rw [bisection, Inquiry.run, bisectFrom]
    change Inquiry.run f _ = (if !isFinite (f (middle a b)) then middle a b
      else if isZero (f (middle a b)) then middle a b
      else if decide (fa < 0.0) == decide (f (middle a b) < 0.0) then
        bisectFrom f count (middle a b) b (f (middle a b))
      else bisectFrom f count a (middle a b) fa)
    split
    · rfl
    · split
      · rfl
      · split
        · exact ih _ _ _
        · exact ih _ _ _

/-- The search asks about the middle of every range that it comes to before its last step. -/
theorem mem_asked_bisection {k : Nat} {p q : α × α} (h : Halvings f k p q) (hk : k < count) :
    middle q.1 q.2 ∈ (bisection count p.1 p.2 (f p.1)).asked f := by
  induction h generalizing count with
  | refl =>
    obtain ⟨count, rfl⟩ := Nat.exists_eq_add_one_of_ne_zero hk.ne'
    exact List.mem_cons_self
  | step hstep _ ih =>
    obtain ⟨count, rfl⟩ := Nat.exists_eq_add_one_of_ne_zero (Nat.zero_lt_of_lt hk).ne'
    refine List.mem_cons_of_mem _ ?_
    cases hstep with
    | upper hfinite hzero hside =>
      simpa [hfinite, hzero, hside] using ih (Nat.lt_of_succ_lt_succ hk)
    | lower hfinite hzero hside =>
      simpa [hfinite, hzero, hside] using ih (Nat.lt_of_succ_lt_succ hk)

/-! ## The search for a dip -/

/-- So many rounds of the search for a dip, given both probes and the sizes there. -/
def sectioning : Nat → α → α → α → α → α → α → Inquiry α
  | 0, a, b, _, _, _, _ => .arrive (middle a b)
  | count + 1, a, b, c, d, fc, fd =>
    if fc < fd then
      .ask (lowerProbe a d) fun y => sectioning count a d (lowerProbe a d) c (abs y) fc
    else
      .ask (upperProbe c b) fun y => sectioning count c b d (upperProbe c b) fd (abs y)

/-- The search for a dip of the size of a function. -/
def dipSearch (a b : α) : Inquiry α :=
  .ask (lowerProbe a b) fun fc => .ask (upperProbe a b) fun fd =>
    sectioning refinements a b (lowerProbe a b) (upperProbe a b) (abs fc) (abs fd)

theorem run_sectioning (f : α → α) (count : Nat) (a b c d fc fd : α) :
    (sectioning count a b c d fc fd).run f = narrow f count a b c d fc fd := by
  induction count generalizing a b c d fc fd with
  | zero => rfl
  | succ count ih =>
    rw [sectioning, narrow]
    split
    · exact ih _ _ _ _ _ _
    · exact ih _ _ _ _ _ _

theorem run_dipSearch (f : α → α) (a b : α) : (dipSearch a b).run f = minimizeAbs f a b :=
  run_sectioning f refinements a b _ _ _ _

/-! ## Inside the range -/

section
variable [Exact α] {low high : ℝ} {c d x : α}

/-- In exact arithmetic the search over a change of sign never leaves its range. -/
theorem inside_of_mem_asked_bisection (ha : Inside low high a) (hb : Inside low high b) {fa : α}
    (hx : x ∈ (bisection count a b fa).asked f) : Inside low high x := by
  induction count generalizing a b fa with
  | zero => cases hx
  | succ count ih =>
    obtain rfl | hx := List.mem_cons.mp hx
    · exact ha.middle hb
    · dsimp only at hx
      split at hx
      · cases hx
      · split at hx
        · cases hx
        · split at hx
          · exact ih (ha.middle hb) hb hx
          · exact ih ha (ha.middle hb) hx

theorem inside_of_mem_asked_sectioning (ha : Inside low high a) (hb : Inside low high b)
    (hc : Inside low high c) (hd : Inside low high d) {fc fd : α}
    (hx : x ∈ (sectioning count a b c d fc fd).asked f) : Inside low high x := by
  induction count generalizing a b c d fc fd with
  | zero => cases hx
  | succ count ih =>
    rw [sectioning] at hx
    split at hx
    · obtain rfl | hx := List.mem_cons.mp hx
      · exact ha.lowerProbe hd
      · exact ih ha hd (ha.lowerProbe hd) hc hx
    · obtain rfl | hx := List.mem_cons.mp hx
      · exact hc.upperProbe hb
      · exact ih hc hb hd (hc.upperProbe hb) hx

/-- Nor does the search for a dip. -/
theorem inside_of_mem_asked_dipSearch (ha : Inside low high a) (hb : Inside low high b)
    (hx : x ∈ (dipSearch a b).asked f) : Inside low high x := by
  obtain rfl | hx := List.mem_cons.mp hx
  · exact ha.lowerProbe hb
  · obtain rfl | hx := List.mem_cons.mp hx
    · exact ha.upperProbe hb
    · exact inside_of_mem_asked_sectioning ha hb (ha.lowerProbe hb) (ha.upperProbe hb) hx

end

end PhasePortrait.PhaseLine
