import Mathlib
import PhasePortrait.Service.Routes

/-!
# Numbers in values and requests

The doubles that are part of a value are listed with the keys that lead to them, so that one can say
of all numbers in the body of an answer what their places demand. An amount that is read from a request
is finite, and a whole one fits a machine word.

## Main definitions

* `Json.numbers j` — the doubles in the value `j`, with their places.
* `Json.Every P j` — each of them is as its place demands.
* `Routes.Given data key a` — the request gives the amount `a` under a key.
-/
namespace PhasePortrait

/-! ## The numbers in a value -/

namespace Json

mutual
/-- The numbers that are part of a value, each with the keys that lead to it. -/
@[simp] def numbers : Json → List (List String × Float)
  | float x => [([], x)]
  | list items => numbersOfItems items
  | object fs => numbersOfFields fs
  | _ => []

@[simp] def numbersOfItems : List Json → List (List String × Float)
  | [] => []
  | j :: js => numbers j ++ numbersOfItems js

@[simp] def numbersOfFields : List (String × Json) → List (List String × Float)
  | [] => []
  | (k, j) :: fs => (numbers j).map (fun n => (k :: n.1, n.2)) ++ numbersOfFields fs
end

/-- Every number in a value is as its place demands. -/
def Every (P : List String → Float → Prop) (j : Json) : Prop := ∀ n ∈ j.numbers, P n.1 n.2

variable {P : List String → Float → Prop}

@[simp] theorem every_null : Every P .null := by simp [Every]
@[simp] theorem every_bool (b : Bool) : Every P (.bool b) := by simp [Every]
@[simp] theorem every_int (n : Int) : Every P (.int n) := by simp [Every]
@[simp] theorem every_text (s : String) : Every P (.text s) := by simp [Every]
@[simp] theorem every_float (x : Float) : Every P (.float x) ↔ P [] x := by simp [Every]

@[simp] theorem every_list (items : List Json) : Every P (.list items) ↔ ∀ j ∈ items, Every P j := by
  induction items with
  | nil => simp [Every]
  | cons j items ih =>
    simp only [Every, numbers, numbersOfItems, List.forall_mem_append, List.forall_mem_cons] at ih ⊢
    rw [ih]

@[simp] theorem every_object (fs : List (String × Json)) :
    Every P (.object fs) ↔ ∀ f ∈ fs, Every (fun place => P (f.1 :: place)) f.2 := by
  induction fs with
  | nil => simp [Every]
  | cons f fs ih =>
    obtain ⟨k, j⟩ := f
    simp only [Every, numbers, numbersOfFields, List.forall_mem_append, List.forall_mem_cons,
      List.forall_mem_map] at ih ⊢
    rw [ih]

end Json

/-! ## Reading numbers -/

namespace Amount

theorem isFinite_of_readReal {v : Json} {a : Amount} (h : readReal v = .ok a) :
    a.toFloat.isFinite = true := by
  have hreal : ∀ x, finiteReal x = .ok a → a.toFloat.isFinite = true := by
    intro x hx
    unfold finiteReal at hx
    split at hx
    · next hfinite =>
      cases hx
      exact hfinite
    · cases hx
  cases v with
  | bool b =>
    cases h
    cases b <;> decide +kernel
  | int n =>
    simp only [readReal] at h
    split at h
    · next hfinite =>
      cases h
      exact hfinite
    · cases h
  | float x => exact hreal x h
  | text s =>
    simp only [readReal] at h
    split at h
    · next x _ => exact hreal x h
    · cases h
  | null | list | object => cases h

theorem fitsWord_of_readWhole {v : Json} {a : Amount} (h : readWhole v = .ok a) :
    ∃ n, a = whole n ∧ fitsWord n = true := by
  have hwhole : ∀ n, wordSized n = .ok a → ∃ n, a = whole n ∧ fitsWord n = true := by
    intro n hn
    unfold wordSized at hn
    split at hn
    · next hfits =>
      cases hn
      exact ⟨n, rfl, hfits⟩
    · cases hn
  cases v with
  | bool b =>
    cases h
    cases b <;> exact ⟨_, rfl, by decide⟩
  | int n => exact hwhole n h
  | float x =>
    simp only [readWhole] at h
    split at h
    · exact hwhole _ h
    · cases h
    · cases h
  | text s =>
    simp only [readWhole] at h
    split at h
    · exact hwhole _ h
    · cases h
  | null | list | object => cases h

/-- A field is read from the value under its key, or is the default. -/
theorem of_readField {β : Type} {encode : Amount → β} {data : Json} {key label : String}
    {default : Option β} {integer : Bool} {b : β}
    (h : readField encode data key label default integer = .ok b) :
    default = some b ∨ ∃ v a, data.get? key = some v ∧
      (if integer then readWhole v else readReal v) = .ok a ∧ encode a = b := by
  have hmissing : readField encode (.object []) key label default integer = .ok b →
      default = some b := by
    intro h
    cases default with
    | none => cases h
    | some d =>
      cases h
      rfl
  unfold readField at h
  split at h
  · exact .inl (hmissing h)
  · exact .inl (hmissing h)
  · exact .inl (hmissing h)
  · next v _ _ hv =>
    right
    split at h
    · next a ha =>
      cases h
      exact ⟨v, a, hv, ha, rfl⟩
    · cases h
    · cases h
    · cases h

end Amount

namespace Routes

/-- A request gives an amount under a key. -/
def Given (data : Json) (key : String) (a : Amount) : Prop :=
  ∃ v, data.get? key = some v ∧ Amount.readReal v = .ok a

theorem Given.isFinite {data : Json} {key : String} {a : Amount} (h : Given data key a) :
    a.toFloat.isFinite = true := by
  obtain ⟨v, -, hv⟩ := h
  exact Amount.isFinite_of_readReal hv

theorem default_or_given {data : Json} {key label : String} {default : Option Amount} {a : Amount}
    (h : realField data key label default = .ok a) : default = some a ∨ Given data key a := by
  refine (Amount.of_readField h).imp_right ?_
  rintro ⟨v, b, hv, hb, rfl⟩
  exact ⟨v, hv, hb⟩

theorem given_of_realField {data : Json} {key label : String} {a : Amount}
    (h : realField data key label none = .ok a) : Given data key a :=
  (default_or_given h).resolve_left fun heq => nomatch heq

theorem isFinite_of_realField {data : Json} {key label : String} {d a : Amount}
    (hd : d.toFloat.isFinite = true) (h : realField data key label (some d) = .ok a) :
    a.toFloat.isFinite = true := by
  rcases default_or_given h with heq | hgiven
  · exact Option.some.inj heq ▸ hd
  · exact hgiven.isFinite

theorem fitsWord_of_wholeField {data : Json} {key label : String} {default : Option Int} {n : Int}
    (h : wholeField data key label default = .ok n)
    (hdefault : ∀ d, default = some d → Amount.fitsWord d = true) : Amount.fitsWord n = true := by
  rcases Amount.of_readField h with hd | ⟨v, a, -, ha, rfl⟩
  · exact hdefault n hd
  · obtain ⟨m, rfl, hm⟩ := Amount.fitsWord_of_readWhole ha
    exact hm

theorem toNat_le_of_fitsWord {n : Int} (h : Amount.fitsWord n = true) : n.toNat ≤ 2 ^ 65 := by
  have hlt : n < (Rounding.twoTo 64 : Int) := of_decide_eq_true (Bool.and_eq_true_iff.mp h).2
  have hbound : Rounding.twoTo 64 = 2 ^ 64 := rfl
  omega

end Routes

end PhasePortrait
