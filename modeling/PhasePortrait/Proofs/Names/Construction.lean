import PhasePortrait.Number.Double
import PhasePortrait.Proofs.Names.Reading

/-!
# Equations of any text over any names

Making an equation keeps the fault of the first stage that refuses the formula, and every fault has
something to say. So an equation is valid exactly if it has no fault, and exactly if it has no
message. There is an equation of every text over every list of names, with one exception: a formula
that was read, and two of whose declared names stand as one symbol
(`exists_equation_unless_repeated`).

## Main definitions

* `Equation.Repeats text s` — the formula `text` is read over the scope `s`, whose names repeat.
-/
namespace PhasePortrait

theorem append_ne_empty {s : String} (h : s ≠ "") (t : String) : s ++ t ≠ "" := fun hempty =>
  h (String.append_eq_empty_iff.mp hempty).1

/-- Every fault has something to say. -/
theorem Fault.message_ne_empty (fault : Fault) : fault.message ≠ "" := by
  cases fault <;>
  · unfold message
    repeat refine append_ne_empty ?_ _
    decide

/-! ## What an equation says about itself -/

namespace Equation
variable {α : Type} {q : Equation α}

theorem fault?_eq_none_iff : q.fault? = none ↔ q.isValid := by
  unfold fault? isValid
  cases q.outcome <;> simp [Except.isOk, Except.toBool]

theorem errorMessage_of_fault {fault : Fault} (h : q.fault? = some fault) :
    q.errorMessage = fault.message := by
  rw [errorMessage, h]
  rfl

theorem errorMessage_eq_empty_iff : q.errorMessage = "" ↔ q.isValid := by
  rw [← fault?_eq_none_iff]
  cases hfault : q.fault? with
  | none => simp [errorMessage, hfault]
  | some fault => simpa [errorMessage_of_fault hfault] using fault.message_ne_empty

end Equation

/-! ## When there is an equation -/

namespace Formula
variable {α : Type} [Elementary α] {text : String} {s : Scope} {tree : Tree String}

theorem compile_of_read (h : read text s = .ok tree) :
    (compile text s : Except Fault (Compiled α)) = prepare tree s := by
  rw [compile, h]
  rfl

theorem compile_of_read_error {fault : Fault} (h : read text s = .error fault) :
    (compile text s : Except Fault (Compiled α)) = .error fault := by
  rw [compile, h]
  rfl

theorem compiled_of_prepare {c : Compiled α} (h : prepare tree s = .ok c) :
    c = ⟨tree, lineOf tree s.names, Symbol.ofNames s.names⟩ := by
  unfold prepare at h
  dsimp only at h
  split at h
  · cases h
  · exact (Except.ok.inj h).symm

end Formula

namespace Equation
open Formula
variable {α : Type} [Elementary α] {text : String} {s : Scope} {q : Equation α}

/-- A formula is read over declared names that are not all different as symbols. -/
def Repeats (text : String) (s : Scope) : Prop :=
  (∃ tree, read (Text.strip text) s = .ok tree) ∧ ¬(Symbol.ofNames s.names).Nodup

theorem ofText?_of_not_repeats (h : ¬Repeats text s) :
    ofText? (α := α) text s = .ok (ofText text s) := by
  unfold ofText? ofText
  dsimp only
  cases hread : read (Text.strip text) s with
  | error fault => rw [compile_of_read_error hread]
  | ok tree =>
    have hdistinct : (Symbol.ofNames s.names).Nodup := by
      by_contra hrepeated
      exact h ⟨⟨tree, hread⟩, hrepeated⟩
    rw [compile_of_read hread]
    exact if_pos hdistinct

theorem ofText?_of_repeats (h : Repeats text s) :
    ofText? (α := α) text s = .error .repeatedName := by
  obtain ⟨⟨tree, hread⟩, hrepeated⟩ := h
  unfold ofText?
  dsimp only
  rw [hread]
  exact if_neg hrepeated

theorem ofText?_eq_ok_iff : ofText? text s = .ok q ↔ ¬Repeats text s ∧ q = ofText text s := by
  by_cases h : Repeats text s
  · simp [ofText?_of_repeats h, h]
  · rw [ofText?_of_not_repeats h]
    simp [h, eq_comm]

theorem ofText?_eq_error_iff {e : NoEquation} :
    ofText? (α := α) text s = .error e ↔ Repeats text s := by
  by_cases h : Repeats text s
  · cases e
    simp [ofText?_of_repeats h, h]
  · rw [ofText?_of_not_repeats h]
    simp [h]

theorem fault?_ofText {fault : Fault}
    (h : compile (α := α) (Text.strip text) s = .error fault) :
    (ofText (α := α) text s).fault? = some fault := by
  rw [fault?, ofText, h]

/-- **Making an equation keeps every fault, and goes through for all names that differ.** There is an
equation of any text, or of none, over any names, unless the formula is read and names repeat. It is
valid exactly if it has no message, and exactly if it has no kind of fault; and whatever stage
refuses the formula, the equation has the fault of this stage, with a message. -/
theorem exists_equation_unless_repeated (text : Option String) (s : Scope) :
    ((∃ q : Equation α, ofText? (text.getD "") s = .ok q) ↔ ¬Repeats (text.getD "") s) ∧
    ∀ q : Equation α, ofText? (text.getD "") s = .ok q →
      (q.isValid ↔ q.errorMessage = "") ∧ (q.isValid ↔ q.fault?.map Fault.kind = none) ∧
      ∀ fault, compile (α := α) (Text.strip (text.getD "")) s = .error fault →
        q.isValid = false ∧ q.fault? = some fault ∧ q.errorMessage = fault.message ∧
          fault.message ≠ "" := by
  refine ⟨?_, fun q hq => ⟨errorMessage_eq_empty_iff.symm, ?_, fun fault hfault => ?_⟩⟩
  · simp [ofText?_eq_ok_iff]
  · rw [Option.map_eq_none_iff, fault?_eq_none_iff]
  · obtain ⟨-, rfl⟩ := ofText?_eq_ok_iff.mp hq
    have hkept := fault?_ofText hfault
    refine ⟨?_, hkept, errorMessage_of_fault hkept, fault.message_ne_empty⟩
    rw [← Bool.not_eq_true, ← fault?_eq_none_iff, hkept]
    exact nofun

theorem exists_equation_unless_repeated_none :
    ∃ q : Equation Float, ofText? ((none : Option String).getD "") .planar = .ok q ∧
      (q.isValid ↔ q.errorMessage = "") ∧ (q.isValid ↔ q.fault?.map Fault.kind = none) ∧
      ∀ fault, compile (α := Float) (Text.strip ((none : Option String).getD "")) .planar =
          .error fault →
        q.isValid = false ∧ q.fault? = some fault ∧ q.errorMessage = fault.message ∧
          fault.message ≠ "" := by
  have htheorem := exists_equation_unless_repeated (α := Float) none .planar
  have hnames : (Symbol.ofNames Scope.planar.names).Nodup := by decide +kernel
  obtain ⟨q, hq⟩ := htheorem.1.mpr fun h => h.2 hnames
  exact ⟨q, hq, htheorem.2 q hq⟩

/-- A name that is declared twice keeps a good formula from becoming an equation. -/
theorem no_equation_of_repeated :
    ¬∀ (text : Option String) (s : Scope),
      ∃ q : Equation Float, ofText? (text.getD "") s = .ok q := by
  intro h
  obtain ⟨q, hq⟩ := h (some "X+a") (.line ["a", "a"])
  have hnone : (ofText? (α := Float) "X+a" (.line ["a", "a"])).isOk = false := by decide +kernel
  rw [Option.getD_some] at hq
  rw [hq] at hnone
  cases hnone

end Equation
end PhasePortrait
