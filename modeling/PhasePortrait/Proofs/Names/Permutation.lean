import Mathlib.Data.List.Sort
import Mathlib.Data.String.Basic
import PhasePortrait.Proofs.Grammar.Cursor
import PhasePortrait.Proofs.Names.Hygiene

/-!
# The order of declared names

Names are declared in some order, and each part of an equation goes by an order of its own: hidden
names are numbered from the last in sorted order to the first, the line is evaluated over bindings
in the declared order, and so is every trial of the battery. None of this shows. Symbols of different
names look up the same values in any order of the bindings, placeholders are numbered without regard
to it, and the rules only ask which names are declared.

## Main definitions

* `Symbol.standIn hiddenNames name` — the symbol of a name, given the hidden ones in their order.
-/
namespace PhasePortrait

namespace Symbol
variable {names names' : List String}

/-- The symbol that a name stands as, given the hidden names. -/
def standIn (hiddenNames : List String) (name : String) : Symbol :=
  match hiddenNames.idxOf? name with
  | some index => placeholder index
  | none => named (Text.folded name)

/-- Different names are told apart by their spelling, without their positions. -/
theorem idxOf?_hidden (hnames : names.Nodup) {entry : String × Nat} (h : entry ∈ names.zipIdx) :
    (hidden names).idxOf? entry = ((hidden names).map Prod.fst).idxOf? entry.1 := by
  have hapart : ∀ other ∈ hidden names, (other == entry) = (other.1 == entry.1) := by
    intro other hother
    refine Bool.eq_iff_iff.mpr ?_
    rw [beq_iff_eq, beq_iff_eq]
    refine ⟨congrArg Prod.fst, fun heq => ?_⟩
    rw [← List.zipIdx_map_fst 0 names] at hnames
    exact List.inj_on_of_nodup_map hnames (mem_hidden.mp hother).1 h heq
  unfold List.idxOf?
  rw [List.findIdx?_map]
  generalize hidden names = entries at hapart
  induction entries with
  | nil => rfl
  | cons other entries ih =>
    obtain ⟨hother, hentries⟩ := List.forall_mem_cons.mp hapart
    rw [List.findIdx?_cons, List.findIdx?_cons, hother, ih hentries]
    rfl

theorem ofNames_eq_map (hnames : names.Nodup) :
    ofNames names = names.map (standIn ((hidden names).map Prod.fst)) := by
  have hpositions (f : String → Symbol) : names.map f = names.zipIdx.map (f ∘ Prod.fst) := by
    rw [← List.map_map, List.zipIdx_map_fst]
  rw [hpositions]
  refine List.map_congr_left fun entry hentry => ?_
  dsimp only [Function.comp]
  have hindex := idxOf?_hidden hnames hentry
  cases hplace : ((hidden names).map Prod.fst).idxOf? entry.1 <;> simp [standIn, hindex, hplace]

end Symbol

namespace Formula
variable {α : Type} [Elementary α] {P Q : List String}

end Formula

/-! ## Equations -/

namespace Formula
variable {α : Type} [Elementary α] {text : String} {P Q : List String} {t : Tree String}

end Formula

namespace Equation
open Formula Scalar
variable {α : Type} [Elementary α] {text : String} {P Q : List String} {t : Tree String}
  {q r : Equation α}

end Equation

end PhasePortrait
