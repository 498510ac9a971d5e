import PhasePortrait.Formula.Lexer
import PhasePortrait.Proofs.Except

/-!
# What a scan yields

A scan takes a blank, a number, a word or a single mark at each place, and which of them is settled
by the first character. `Scans` says so without the order of the tests, and `scan_eq_ok_iff` that
nothing else happens. Positions come out in increasing order, and only a blank text has no tokens.
-/
namespace PhasePortrait.Formula
open Number

/-- A number starts here: with a digit, or with a dot and a digit. -/
def StartsNumber (c : Char) (cs : List Char) : Prop :=
  c.isDigit ∨ c = '.' ∧ startsWithDigit cs

/-- The tokens of a text whose first character stands at a position. -/
inductive Scans : Nat → List Char → List Token → Prop
  | nil {p} : Scans p [] []
  | blank {p c cs ts} : Text.isBlank c → Scans (p + 1) cs ts → Scans p (c :: cs) ts
  | number {p c cs ts} : StartsNumber c cs →
      Scans (p + (splitNumber (c :: cs)).1.length) (splitNumber (c :: cs)).2 ts →
      Scans p (c :: cs) (⟨.number (String.ofList (splitNumber (c :: cs)).1), p⟩ :: ts)
  | name {p c cs ts} : c.isAlpha →
      Scans (p + 1 + (cs.takeWhile isNameChar).length) (cs.dropWhile isNameChar) ts →
      Scans p (c :: cs) (⟨.name (String.ofList (c :: cs.takeWhile isNameChar)), p⟩ :: ts)
  | mark {p c cs l ts} : punctuation? c = some l → Scans (p + 1) cs ts →
      Scans p (c :: cs) (⟨l, p⟩ :: ts)

theorem startsNumber_of_tests {c : Char} {cs : List Char} (hnumber : c.isDigit || c == '.')
    (hdot : ¬(c == '.' && !startsWithDigit cs)) : StartsNumber c cs := by
  rcases Bool.or_eq_true_iff.mp hnumber with hdigit | hc
  · exact .inl hdigit
  · exact .inr ⟨by simpa using hc, by simpa [beq_iff_eq.mp hc] using hdot⟩

theorem scans_of_scan {p : Nat} {cs : List Char} {ts : List Token} (h : scan p cs = .ok ts) :
    Scans p cs ts := by
  induction p, cs using scan.induct generalizing ts with
  | case1 p =>
      rw [scan] at h
      cases h
      exact .nil
  | case2 p c cs hblank ih =>
      rw [scan, if_pos hblank] at h
      exact .blank hblank (ih h)
  | case3 p c cs hblank hnumber hdot =>
      rw [scan, if_neg hblank, dif_pos hnumber, if_pos hdot] at h
      cases h
  | case4 p c cs hblank hnumber hdot _ _ =>
      rename_i ih
      rw [scan, if_neg hblank, dif_pos hnumber, if_neg hdot] at h
      obtain ⟨us, hus, h⟩ := exists_of_bind h
      cases h
      exact .number (startsNumber_of_tests hnumber hdot) (ih hus)
  | case5 p c cs hblank hnumber halpha _ _ =>
      rename_i ih
      rw [scan, if_neg hblank, dif_neg hnumber, if_pos halpha] at h
      obtain ⟨us, hus, h⟩ := exists_of_bind h
      cases h
      exact .name halpha (ih hus)
  | case6 p c cs hblank hnumber halpha l hmark ih =>
      rw [scan, if_neg hblank, dif_neg hnumber, if_neg halpha, hmark] at h
      obtain ⟨us, hus, h⟩ := exists_of_bind h
      cases h
      exact .mark hmark (ih hus)
  | case7 p c cs hblank hnumber halpha hmark =>
      rw [scan, if_neg hblank, dif_neg hnumber, if_neg halpha, hmark] at h
      cases h

/-! ## The classes of characters exclude each other -/

/-- What is checked for all of ASCII holds for its characters. -/
theorem of_ascii {P : Char → Prop} (h : ∀ n < 128, P (Char.ofNat n)) {c : Char}
    (hc : c.toNat < 128) : P c :=
  Char.ofNat_toNat c ▸ h c.toNat hc

theorem lt_of_isAlphanum {c : Char} (h : c.isAlphanum) : c.toNat < 128 := by
  have hranges : ((decide (c.val ≥ 65 ∧ c.val ≤ 90) || (c.val ≥ 97 && c.val ≤ 122)) ||
      (c.val ≥ 48 && c.val ≤ 57)) = true := h
  simp [UInt32.le_iff_toNat_le] at hranges
  omega

theorem isAlphanum_of_isAlpha {c : Char} (h : c.isAlpha) : c.isAlphanum :=
  Bool.or_eq_true_iff.mpr (.inl h)

theorem isAlphanum_of_isDigit {c : Char} (h : c.isDigit) : c.isAlphanum :=
  Bool.or_eq_true_iff.mpr (.inr h)

/-- The characters that are tokens by themselves. -/
def marks : List Char := ['(', ')', ',', '+', '-', '*', '/', '^']

theorem mem_marks {c : Char} {l : Lexeme} (h : punctuation? c = some l) : c ∈ marks := by
  unfold punctuation? at h
  split at h
  · simp [marks]
  · simp [marks]
  · simp [marks]
  · obtain ⟨o, ho, -⟩ := Option.map_eq_some_iff.mp h
    rw [Operator.ofChar?_eq_some_iff.mp ho]
    cases o <;> simp [marks, Operator.symbol]

theorem cases_of_inAlphabet {c : Char} (h : inAlphabet c) :
    c.isAlphanum ∨ c = '_' ∨ c = '.' ∨ c ∈ marks := by
  simp only [inAlphabet, Bool.or_eq_true, beq_iff_eq] at h
  rcases h with (((((h | h) | h) | rfl) | rfl) | rfl) | h
  · exact .inl h
  · exact .inr (.inl h)
  · exact .inr (.inr (.inl h))
  · simp [marks]
  · simp [marks]
  · simp [marks]
  · obtain ⟨o, ho⟩ := Option.isSome_iff_exists.mp h
    rw [Operator.ofChar?_eq_some_iff.mp ho]
    cases o <;> simp [marks, Operator.symbol]

theorem of_marks {p : Char → Bool} (hall : marks.all p) {c : Char} {l : Lexeme}
    (h : punctuation? c = some l) : p c :=
  List.all_eq_true.mp hall c (mem_marks h)

theorem not_isBlank_of_isAlphanum {c : Char} (h : c.isAlphanum) : Text.isBlank c = false := by
  refine of_ascii (P := fun c => c.isAlphanum → Text.isBlank c = false) ?_ (lt_of_isAlphanum h) h
  decide +kernel

theorem not_number_of_isAlpha {c : Char} (h : c.isAlpha) : (c.isDigit || c == '.') = false := by
  refine of_ascii (P := fun c => c.isAlpha → (c.isDigit || c == '.') = false) ?_
    (lt_of_isAlphanum (isAlphanum_of_isAlpha h)) h
  decide +kernel

theorem not_else_of_punctuation {c : Char} {l : Lexeme} (h : punctuation? c = some l) :
    Text.isBlank c = false ∧ (c.isDigit || c == '.') = false ∧ c.isAlpha = false := by
  have hall : marks.all fun c => !Text.isBlank c && !(c.isDigit || c == '.') && !c.isAlpha := by
    decide +kernel
  simpa [and_assoc] using of_marks hall h

theorem StartsNumber.not_isBlank {c : Char} {cs : List Char} (h : StartsNumber c cs) :
    Text.isBlank c = false := by
  rcases h with hdigit | ⟨rfl, -⟩
  · exact not_isBlank_of_isAlphanum (isAlphanum_of_isDigit hdigit)
  · decide +kernel

theorem StartsNumber.isDigit_or_dot {c : Char} {cs : List Char} (h : StartsNumber c cs) :
    c.isDigit || c == '.' := by
  rcases h with hdigit | ⟨rfl, -⟩
  · simp [hdigit]
  · simp

/-! ## A scan does nothing else -/

section
variable {p : Nat} {c : Char} {cs : List Char}

theorem scan_of_isBlank (h : Text.isBlank c) : scan p (c :: cs) = scan (p + 1) cs := by
  rw [scan, if_pos h]

theorem scan_of_startsNumber (h : StartsNumber c cs) :
    scan p (c :: cs) =
      (scan (p + (splitNumber (c :: cs)).1.length) (splitNumber (c :: cs)).2).map
        (⟨.number (String.ofList (splitNumber (c :: cs)).1), p⟩ :: ·) := by
  have hblank := h.not_isBlank
  have hdot : ¬(c == '.' && !startsWithDigit cs) := by
    rcases h with hdigit | ⟨rfl, hdigit⟩
    · intro h
      obtain ⟨hc, -⟩ := Bool.and_eq_true_iff.mp h
      rw [beq_iff_eq.mp hc] at hdigit
      cases hdigit
    · simp [hdigit]
  rw [scan, if_neg (by simp [hblank]), dif_pos h.isDigit_or_dot, if_neg hdot]
  rfl

theorem scan_of_isAlpha (h : c.isAlpha) :
    scan p (c :: cs) =
      (scan (p + 1 + (cs.takeWhile isNameChar).length) (cs.dropWhile isNameChar)).map
        (⟨.name (String.ofList (c :: cs.takeWhile isNameChar)), p⟩ :: ·) := by
  have hblank := not_isBlank_of_isAlphanum (isAlphanum_of_isAlpha h)
  rw [scan, if_neg (by simp [hblank]), dif_neg (by simp [not_number_of_isAlpha h]), if_pos h]
  rfl

theorem scan_of_punctuation {l : Lexeme} (h : punctuation? c = some l) :
    scan p (c :: cs) = (scan (p + 1) cs).map (⟨l, p⟩ :: ·) := by
  obtain ⟨hblank, hnumber, halpha⟩ := not_else_of_punctuation h
  rw [scan, if_neg (by simp [hblank]), dif_neg (by simp [hnumber]), if_neg (by simp [halpha])]
  simp only [h]
  rfl

end

/-- Nothing else happens in a scan. -/
theorem scan_eq_ok_iff {p : Nat} {cs : List Char} {ts : List Token} :
    scan p cs = .ok ts ↔ Scans p cs ts := by
  refine ⟨scans_of_scan, fun h => ?_⟩
  induction h with
  | nil => rw [scan]
  | blank hblank _ ih => rw [scan_of_isBlank hblank, ih]
  | number hnumber _ ih =>
      rw [scan_of_startsNumber hnumber, ih]
      rfl
  | name halpha _ ih =>
      rw [scan_of_isAlpha halpha, ih]
      rfl
  | mark hmark _ ih =>
      rw [scan_of_punctuation hmark, ih]
      rfl

theorem foreignCharacters_eq_nil_iff {cs : List Char} :
    foreignCharacters cs = [] ↔ ∀ c ∈ cs, isForeign c = false := by
  have hnil : foreignCharacters cs = [] ↔ cs.filter isForeign = [] := by
    rw [foreignCharacters]
    cases cs.filter isForeign <;> simp [List.eraseDups_cons]
  rw [hnil, List.filter_eq_nil_iff]
  simp

theorem tokenize_eq_ok_iff {text : String} {ts : List Token} :
    tokenize text = .ok ts ↔ (∀ c ∈ text.toList, isForeign c = false) ∧ Scans 0 text.toList ts := by
  rw [← foreignCharacters_eq_nil_iff, ← scan_eq_ok_iff, tokenize]
  cases foreignCharacters text.toList <;> simp

/-! ## Where the tokens stand -/

/-- Only blanks have no tokens. -/
theorem Scans.eq_nil_iff {p : Nat} {cs : List Char} {ts : List Token} (h : Scans p cs ts) :
    ts = [] ↔ cs.all Text.isBlank := by
  induction h with
  | nil => simp
  | blank hblank _ ih => simp [hblank, ih]
  | number hnumber _ => simp [hnumber.not_isBlank]
  | @name _ c _ _ halpha _ =>
      have hblank := not_isBlank_of_isAlphanum (isAlphanum_of_isAlpha halpha)
      simp [hblank]
  | mark hmark _ => simp [(not_else_of_punctuation hmark).1]

theorem length_splitNumber_pos {c : Char} {cs : List Char} (h : StartsNumber c cs) :
    0 < (splitNumber (c :: cs)).1.length := by
  have hlt : (splitNumber (c :: cs)).2.length < (c :: cs).length :=
    length_splitNumber_lt h.isDigit_or_dot
  have hlength := congrArg List.length (splitNumber_append (c :: cs))
  rw [List.length_append] at hlength
  omega

theorem Scans.le_position {p : Nat} {cs : List Char} {ts : List Token} (h : Scans p cs ts) :
    ∀ t ∈ ts, p ≤ t.position := by
  induction h with
  | nil => simp
  | blank _ _ ih => exact fun t ht => Nat.le_of_succ_le (ih t ht)
  | _ =>
      rename_i ih
      rintro t (_ | ⟨_, ht⟩)
      · exact Nat.le_refl _
      · have := ih t ht
        omega

/-- Tokens come in the order of their positions. -/
theorem Scans.pairwise {p : Nat} {cs : List Char} {ts : List Token} (h : Scans p cs ts) :
    ts.Pairwise (·.position < ·.position) := by
  induction h with
  | nil => exact .nil
  | blank _ _ ih => exact ih
  | number hnumber hrest ih =>
      refine .cons (fun t ht => ?_) ih
      have := hrest.le_position t ht
      have := length_splitNumber_pos hnumber
      dsimp only
      omega
  | name _ hrest ih =>
      refine .cons (fun t ht => ?_) ih
      have := hrest.le_position t ht
      dsimp only
      omega
  | mark _ hrest ih =>
      exact .cons (fun t ht => hrest.le_position t ht) ih

end PhasePortrait.Formula
