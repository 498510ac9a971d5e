import PhasePortrait.Formula.Lexer

/-!
# Numbers as they are written

An unsigned number is digits with at most one dot in, before or behind them, and may go on with an
exponent. `splitNumber` takes a number that is followed by nothing that could belong to it exactly
(`splitNumber_of_numeral`).
-/
namespace PhasePortrait.Number
open Formula

def Digits (cs : List Char) : Prop := ∀ c ∈ cs, c.isDigit

/-- The part of a number before its exponent. -/
inductive Mantissa : List Char → Prop
  | whole {ds} : ds ≠ [] → Digits ds → Mantissa ds
  | fraction {ds es} : ds ≠ [] ∨ es ≠ [] → Digits ds → Digits es → Mantissa (ds ++ '.' :: es)

/-- An exponent, or none. -/
inductive Exponent : List Char → Prop
  | none : Exponent []
  | unsigned {mark ds} : mark ∈ ['e', 'E'] → ds ≠ [] → Digits ds → Exponent (mark :: ds)
  | signed {mark sign ds} : mark ∈ ['e', 'E'] → sign ∈ ['+', '-'] → ds ≠ [] → Digits ds →
      Exponent (mark :: sign :: ds)

/-- An unsigned number. -/
def Numeral (cs : List Char) : Prop := ∃ m x, cs = m ++ x ∧ Mantissa m ∧ Exponent x

/-- The text starts with nothing that goes on with a number or a word. -/
def Breaks (cs : List Char) : Prop := ∀ c ∈ cs.head?, isNameChar c = false ∧ c ≠ '.'

section
variable {p : Char → Bool} {ds rest : List Char}

theorem takeWhile_append_of_stop (hds : ∀ c ∈ ds, p c) (hrest : ∀ c ∈ rest.head?, p c = false) :
    (ds ++ rest).takeWhile p = ds := by
  rw [List.takeWhile_append_of_pos hds]
  cases rest with
  | nil => simp
  | cons c rest => simp [hrest c rfl]

theorem dropWhile_append_of_stop (hds : ∀ c ∈ ds, p c) (hrest : ∀ c ∈ rest.head?, p c = false) :
    (ds ++ rest).dropWhile p = rest := by
  rw [List.dropWhile_append_of_pos hds]
  cases rest with
  | nil => simp
  | cons c rest => simp [hrest c rfl]

end

theorem not_isDigit_of_not_isNameChar {c : Char} (h : isNameChar c = false) :
    c.isDigit = false := by
  simp_all [isNameChar, Char.isAlphanum]

theorem Breaks.not_isDigit {cs : List Char} (h : Breaks cs) : ∀ c ∈ cs.head?, c.isDigit = false :=
  fun c hc => not_isDigit_of_not_isNameChar (h c hc).1

theorem startsWithDigit_of_digits {ds : List Char} (hne : ds ≠ []) (hds : Digits ds)
    (rest : List Char) : startsWithDigit (ds ++ rest) := by
  obtain ⟨d, ds, rfl⟩ := List.exists_cons_of_ne_nil hne
  exact hds d List.mem_cons_self

theorem not_sign_of_isDigit {d : Char} (h : d.isDigit) : (d == '+' || d == '-') = false := by
  rw [Bool.or_eq_false_iff, beq_eq_false_iff_ne, beq_eq_false_iff_ne]
  constructor <;>
  · rintro rfl
    cases h

theorem splitExponent_of_exponent {x rest : List Char} (hx : Exponent x) (hrest : Breaks rest) :
    splitExponent (x ++ rest) = (x, rest) := by
  cases hx with
  | none =>
      cases rest with
      | nil => rfl
      | cons c rest =>
          have hc := (hrest c rfl).1
          have hmark : (c == 'e' || c == 'E') = false := by
            rw [Bool.or_eq_false_iff, beq_eq_false_iff_ne, beq_eq_false_iff_ne]
            constructor <;>
            · rintro rfl
              cases hc
          simp [splitExponent, hmark]
  | @unsigned mark ds hmark hne hds =>
      obtain ⟨d, ds, rfl⟩ := List.exists_cons_of_ne_nil hne
      have hd : d.isDigit := hds d List.mem_cons_self
      have htake := takeWhile_append_of_stop hds hrest.not_isDigit
      have hdrop := dropWhile_append_of_stop hds hrest.not_isDigit
      have hmark : (mark == 'e' || mark == 'E') = true := by simpa using hmark
      rw [List.cons_append] at htake hdrop
      simp only [splitExponent, List.cons_append, hmark, not_sign_of_isDigit hd, hd, htake, hdrop]
      rfl
  | @signed mark sign ds hmark hsign hne hds =>
      have htake := takeWhile_append_of_stop hds hrest.not_isDigit
      have hdrop := dropWhile_append_of_stop hds hrest.not_isDigit
      have hmark : (mark == 'e' || mark == 'E') = true := by simpa using hmark
      have hsign : (sign == '+' || sign == '-') = true := by simpa using hsign
      simp only [splitExponent, List.cons_append, hmark, hsign, startsWithDigit_of_digits hne hds,
        htake, hdrop]
      rfl

/-- An exponent with digits goes on with neither digits nor a dot. -/
theorem Exponent.head {x : List Char} (hx : Exponent x) (hne : x ≠ []) (rest : List Char) :
    ∀ c ∈ (x ++ rest).head?, c.isDigit = false ∧ c ≠ '.' := by
  cases hx with
  | none => exact absurd rfl hne
  | unsigned hmark _ _ | signed hmark _ _ _ =>
      rintro _ ⟨⟩
      rcases List.mem_cons.mp hmark with rfl | hmark
      · decide
      · obtain rfl := List.mem_singleton.mp hmark
        decide

/-- What an exponent adds to a number goes on with neither digits nor a dot. -/
theorem Exponent.breaks {x rest : List Char} (hx : Exponent x) (hrest : Breaks rest) :
    ∀ c ∈ (x ++ rest).head?, c.isDigit = false ∧ c ≠ '.' := by
  by_cases hne : x = []
  · subst hne
    exact fun c hc => ⟨hrest.not_isDigit c hc, (hrest c hc).2⟩
  · exact hx.head hne rest

theorem splitFraction_of_ne {cs : List Char} (h : ∀ c ∈ cs.head?, c ≠ '.') :
    splitFraction cs = ([], cs) := by
  unfold splitFraction
  split
  · exact absurd rfl (h _ rfl)
  · rfl

/-- A number is taken as a whole, and nothing else. -/
theorem splitNumber_of_numeral {cs rest : List Char} (hcs : Numeral cs) (hrest : Breaks rest) :
    splitNumber (cs ++ rest) = (cs, rest) := by
  obtain ⟨m, x, rfl, hm, hx⟩ := hcs
  have hstop : ∀ c ∈ (x ++ rest).head?, c.isDigit = false := fun c hc => (hx.breaks hrest c hc).1
  have hfraction := splitFraction_of_ne fun c hc => (hx.breaks hrest c hc).2
  rw [List.append_assoc]
  cases hm with
  | whole hne hds =>
      simp only [splitNumber, takeWhile_append_of_stop hds hstop,
        dropWhile_append_of_stop hds hstop, hfraction, splitExponent_of_exponent hx hrest,
        List.append_nil]
  | @fraction ds es hne hds hes =>
      have hdot : ∀ c ∈ ('.' :: (es ++ (x ++ rest))).head?, c.isDigit = false := by
        rintro _ ⟨⟩
        rfl
      simp only [splitNumber, List.append_assoc, List.cons_append,
        takeWhile_append_of_stop hds hdot, dropWhile_append_of_stop hds hdot, splitFraction,
        takeWhile_append_of_stop hes hstop, dropWhile_append_of_stop hes hstop,
        splitExponent_of_exponent hx hrest]

end PhasePortrait.Number
