import Mathlib
import PhasePortrait.Proofs.Lexer.Munch

/-!
# Letter case and tokens

The lexer asks of a character whether it is a blank, a digit, a letter or a mark, to which all
letters give one answer (`caseless_of_letters`), and whether it marks an exponent, which `e` and `E`
both do. So nothing that it asks depends on letter case (`Caseless`), and texts that differ in letter
case only are cut at the same places into tokens of the same kinds (`exists_tokenize_of_lower`).

## Main definitions

* `Caseless f` — `f` does not tell letters from their lower case.
* `Token.lower t` — the token with its characters in lower case.
-/
namespace PhasePortrait

/-- A lexeme in lower case. -/
def Lexeme.lower : Lexeme → Lexeme
  | number text => number (Text.lower text)
  | name text => name (Text.lower text)
  | l => l

/-- A token in lower case, at its place. -/
def Token.lower (t : Token) : Token := ⟨t.lexeme.lower, t.position⟩

/-- The function does not depend on letter case. -/
def Caseless {β : Type} (f : Char → β) : Prop := ∀ c : Char, f c.toLower = f c

/-- Only letters have a lower case, and it is a letter too. -/
theorem caseless_of_letters {β : Type} {f : Char → β} {b : β}
    (h : ∀ c : Char, c.isAlpha → f c = b) : Caseless f := by
  intro c
  by_cases hupper : c.isUpper
  · have halpha : c.isAlpha := Bool.or_eq_true_iff.mpr (.inl hupper)
    rw [h c halpha, h c.toLower ((Char.isAlpha_toLower_eq_isAlpha c).trans halpha)]
  · rw [Char.toLower_eq_of_not_isUpper hupper]

theorem Caseless.eq_of {β : Type} {f : Char → β} (hf : Caseless f) {c c' : Char}
    (h : c'.toLower = c.toLower) : f c' = f c := by
  rw [← hf c', h, hf c]

namespace Caseless
variable {p : Char → Bool}

theorem takeWhile_map (hp : Caseless p) (cs : List Char) :
    (cs.map Char.toLower).takeWhile p = (cs.takeWhile p).map Char.toLower := by
  have hcomp : p ∘ Char.toLower = p := funext hp
  rw [List.takeWhile_map, hcomp]

theorem dropWhile_map (hp : Caseless p) (cs : List Char) :
    (cs.map Char.toLower).dropWhile p = (cs.dropWhile p).map Char.toLower := by
  have hcomp : p ∘ Char.toLower = p := funext hp
  rw [List.dropWhile_map, hcomp]

end Caseless

/-! ## What the lexer asks of a character -/

theorem caseless_isAlpha : Caseless Char.isAlpha := Char.isAlpha_toLower_eq_isAlpha

theorem caseless_isDigit : Caseless Char.isDigit :=
  caseless_of_letters fun _ h => (Bool.or_eq_false_iff.mp (Formula.not_number_of_isAlpha h)).1

theorem caseless_isBlank : Caseless Text.isBlank :=
  caseless_of_letters fun _ h =>
    Formula.not_isBlank_of_isAlphanum (Formula.isAlphanum_of_isAlpha h)

namespace Number

theorem caseless_dot : Caseless (· == '.') :=
  caseless_of_letters fun _ h => (Bool.or_eq_false_iff.mp (Formula.not_number_of_isAlpha h)).2

theorem caseless_sign : Caseless fun c => c == '+' || c == '-' := by
  refine caseless_of_letters fun c h => (Bool.eq_false_iff.mpr ?_ : _ = false)
  intro hsign
  rcases Bool.or_eq_true_iff.mp hsign with hplus | hminus
  · rw [beq_iff_eq.mp hplus] at h
    exact absurd h (by decide)
  · rw [beq_iff_eq.mp hminus] at h
    exact absurd h (by decide)

/-- The mark of an exponent is a letter, so here the letters are not all alike. -/
theorem caseless_mark : Caseless fun c => c == 'e' || c == 'E' := by
  intro c
  by_cases hupper : c.isUpper
  · have halpha : c.isAlpha := Bool.or_eq_true_iff.mpr (.inl hupper)
    refine Formula.of_ascii (P := fun c => (c.toLower == 'e' || c.toLower == 'E') =
      (c == 'e' || c == 'E')) ?_ (Formula.lt_of_isAlphanum (Formula.isAlphanum_of_isAlpha halpha))
    decide +kernel
  · dsimp only
    rw [Char.toLower_eq_of_not_isUpper hupper]

theorem startsWithDigit_map (cs : List Char) :
    startsWithDigit (cs.map Char.toLower) = startsWithDigit cs := by
  cases cs with
  | nil => rfl
  | cons c cs => exact caseless_isDigit c

theorem splitExponent_map (cs : List Char) :
    splitExponent (cs.map Char.toLower) =
      ((splitExponent cs).1.map Char.toLower, (splitExponent cs).2.map Char.toLower) := by
  cases cs with
  | nil => rfl
  | cons mark cs =>
    have hmark := caseless_mark mark
    dsimp only at hmark
    cases cs with
    | nil =>
      simp only [List.map_cons, List.map_nil, splitExponent, hmark]
      split <;> rfl
    | cons sign digits =>
      have hsign := caseless_sign sign
      dsimp only at hsign
      have htake := caseless_isDigit.takeWhile_map (sign :: digits)
      have hdrop := caseless_isDigit.dropWhile_map (sign :: digits)
      rw [List.map_cons] at htake hdrop
      simp only [List.map_cons, splitExponent, hmark, hsign, startsWithDigit_map,
        caseless_isDigit sign, caseless_isDigit.takeWhile_map, caseless_isDigit.dropWhile_map,
        htake, hdrop]
      split
      · split
        · rfl
        · split <;> rfl
      · rfl

theorem splitFraction_map (cs : List Char) :
    splitFraction (cs.map Char.toLower) =
      ((splitFraction cs).1.map Char.toLower, (splitFraction cs).2.map Char.toLower) := by
  cases cs with
  | nil => rfl
  | cons c cs =>
    by_cases hc : c = '.'
    · subst hc
      change ('.' :: (cs.map Char.toLower).takeWhile Char.isDigit,
        (cs.map Char.toLower).dropWhile Char.isDigit) = _
      rw [caseless_isDigit.takeWhile_map, caseless_isDigit.dropWhile_map]
      rfl
    · have hlower : c.toLower ≠ '.' := by
        have := caseless_dot c
        simpa [hc] using this
      have hother {c : Char} {cs : List Char} (h : c ≠ '.') :
          splitFraction (c :: cs) = ([], c :: cs) :=
        splitFraction_of_ne fun _ hd => by cases hd; exact h
      rw [List.map_cons, hother hlower, hother hc]
      rfl

/-- Letter case does not matter for where a number ends. -/
theorem splitNumber_map (cs : List Char) :
    splitNumber (cs.map Char.toLower) =
      ((splitNumber cs).1.map Char.toLower, (splitNumber cs).2.map Char.toLower) := by
  simp only [splitNumber, caseless_isDigit.takeWhile_map, caseless_isDigit.dropWhile_map,
    splitFraction_map, splitExponent_map, List.map_append]

end Number

namespace Formula
open Number

theorem caseless_isNameChar : Caseless isNameChar :=
  caseless_of_letters fun _ h => isNameChar_of_isAlphanum (isAlphanum_of_isAlpha h)

theorem caseless_isForeign : Caseless isForeign := by
  refine caseless_of_letters fun c h => (?_ : _ = false)
  rw [isForeign, inAlphabet_of_isNameChar (isNameChar_of_isAlphanum (isAlphanum_of_isAlpha h)),
    Bool.not_true, Bool.and_false]

theorem caseless_punctuation? : Caseless punctuation? := by
  refine caseless_of_letters fun c h => (Option.eq_none_iff_forall_ne_some.mpr ?_ : _ = none)
  intro l hl
  exact absurd h (by simp [(not_else_of_punctuation hl).2.2])

/-! ## Two texts that differ in letter case -/

theorem lower_ofList (cs : List Char) :
    Text.lower (String.ofList cs) = String.ofList (cs.map Char.toLower) := by
  rw [← String.toList_inj, Text.lower, String.toList_map, String.toList_ofList,
    String.toList_ofList]

theorem lower_eq_lower_iff {s t : String} : Text.lower s = Text.lower t ↔
    s.toList.map Char.toLower = t.toList.map Char.toLower := by
  rw [← String.toList_inj, Text.lower, Text.lower, String.toList_map, String.toList_map]

section
variable {c c' : Char} {cs cs' : List Char}

theorem startsNumber_of_map (h : StartsNumber c cs) (hc : c'.toLower = c.toLower)
    (hcs : cs'.map Char.toLower = cs.map Char.toLower) : StartsNumber c' cs' := by
  rcases h with hdigit | ⟨rfl, hdigit⟩
  · exact .inl ((caseless_isDigit.eq_of hc).trans hdigit)
  · refine .inr ⟨beq_iff_eq.mp (caseless_dot.eq_of hc), ?_⟩
    rw [← startsWithDigit_map, hcs, startsWithDigit_map, hdigit]

theorem splitNumber_of_map (h : cs'.map Char.toLower = cs.map Char.toLower) :
    (splitNumber cs').1.map Char.toLower = (splitNumber cs).1.map Char.toLower ∧
      (splitNumber cs').2.map Char.toLower = (splitNumber cs).2.map Char.toLower := by
  have hsplit := congrArg splitNumber h
  rw [splitNumber_map, splitNumber_map] at hsplit
  exact Prod.mk.inj hsplit

theorem nameChars_of_map (h : cs'.map Char.toLower = cs.map Char.toLower) :
    (cs'.takeWhile isNameChar).map Char.toLower = (cs.takeWhile isNameChar).map Char.toLower ∧
      (cs'.dropWhile isNameChar).map Char.toLower = (cs.dropWhile isNameChar).map Char.toLower := by
  simp only [← caseless_isNameChar.takeWhile_map, ← caseless_isNameChar.dropWhile_map, h, and_self]

theorem length_of_map {as bs : List Char} (h : as.map Char.toLower = bs.map Char.toLower) :
    as.length = bs.length := by
  simpa using congrArg List.length h

/-- A scan goes through both texts in the same steps. -/
theorem Scans.exists_of_map {p : Nat} {ts : List Token} (h : Scans p cs ts)
    (hcs : cs'.map Char.toLower = cs.map Char.toLower) :
    ∃ ts', Scans p cs' ts' ∧ ts'.map Token.lower = ts.map Token.lower := by
  induction h generalizing cs' with
  | nil =>
    obtain rfl : cs' = [] := by simpa using hcs
    exact ⟨[], .nil, rfl⟩
  | blank hblank _ ih =>
    obtain ⟨c', cs', rfl, hc, hrest⟩ := List.map_eq_cons_iff.mp hcs
    obtain ⟨ts', hts', hlower⟩ := ih hrest
    exact ⟨ts', .blank ((caseless_isBlank.eq_of hc).trans hblank) hts', hlower⟩
  | number hstart _ ih =>
    obtain ⟨c', cs', rfl, hc, hrest⟩ := List.map_eq_cons_iff.mp hcs
    obtain ⟨htaken, hleft⟩ := splitNumber_of_map hcs
    obtain ⟨ts', hts', hlower⟩ := ih hleft
    rw [← length_of_map htaken] at hts'
    refine ⟨_, .number (startsNumber_of_map hstart hc hrest) hts', ?_⟩
    rw [List.map_cons, List.map_cons, hlower]
    simp only [Token.lower, Lexeme.lower, lower_ofList, htaken]
  | name halpha _ ih =>
    obtain ⟨c', cs', rfl, hc, hrest⟩ := List.map_eq_cons_iff.mp hcs
    obtain ⟨htaken, hleft⟩ := nameChars_of_map hrest
    obtain ⟨ts', hts', hlower⟩ := ih hleft
    rw [← length_of_map htaken] at hts'
    refine ⟨_, .name ((caseless_isAlpha.eq_of hc).trans halpha) hts', ?_⟩
    rw [List.map_cons, List.map_cons, hlower]
    simp only [Token.lower, Lexeme.lower, lower_ofList, List.map_cons, htaken, hc]
  | mark hmark _ ih =>
    obtain ⟨c', cs', rfl, hc, hrest⟩ := List.map_eq_cons_iff.mp hcs
    obtain ⟨ts', hts', hlower⟩ := ih hrest
    exact ⟨_, .mark ((caseless_punctuation?.eq_of hc).trans hmark) hts', by simp [hlower]⟩

end

/-- **Letter case does not matter for where a text is cut.** A text has the tokens of any text that
differs from it in letter case only, but for the case of their letters. -/
theorem exists_tokenize_of_lower {text text' : String} {ts : List Token}
    (h : tokenize text = .ok ts) (hlower : Text.lower text' = Text.lower text) :
    ∃ ts', tokenize text' = .ok ts' ∧ ts'.map Token.lower = ts.map Token.lower := by
  have hchars := lower_eq_lower_iff.mp hlower
  obtain ⟨hforeign, hscan⟩ := tokenize_eq_ok_iff.mp h
  obtain ⟨ts', hts', htokens⟩ := hscan.exists_of_map hchars
  refine ⟨ts', tokenize_eq_ok_iff.mpr ⟨fun c' hc' => ?_, hts'⟩, htokens⟩
  obtain ⟨c, hc, hcc⟩ := List.mem_map.mp (hchars ▸ List.mem_map_of_mem hc')
  exact (caseless_isForeign.eq_of hcc.symm).trans (hforeign c hc)

end Formula
end PhasePortrait
