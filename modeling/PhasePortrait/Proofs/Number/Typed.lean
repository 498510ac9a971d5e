import PhasePortrait.Number.Reading
import PhasePortrait.Proofs.Lexer.Scan
import PhasePortrait.Proofs.Text.Trimming

/-!
# Typed numbers between blanks

A text that is read as a number has nothing but digits, letters, dots, signs and underscores between the
blanks at its ends. So no list of numbers is divided within one of them, and the number stays the same if
more blanks are put around it and all of them are trimmed (`readNumber?_strip`).

## Main definitions

* `Reading.NumberPart c` — `c` may stand in a typed number in plain digits.
-/
namespace PhasePortrait.Reading
open Text

/-- Unaccented letters and digits, dots, signs and underscores. -/
def NumberPart (c : Char) : Prop := c.isAlphanum = true ∨ c ∈ ['.', '+', '-', '_']

theorem NumberPart.of_isDigit {c : Char} (h : c.isDigit = true) : NumberPart c :=
  .inl (Formula.isAlphanum_of_isDigit h)

theorem NumberPart.not_isBlank {c : Char} (h : NumberPart c) : isBlank c = false := by
  obtain h | h := h
  · exact Formula.not_isBlank_of_isAlphanum h
  · have hall : ['.', '+', '-', '_'].all fun c => !isBlank c := by decide +kernel
    simpa using List.all_eq_true.mp hall c h

theorem NumberPart.ne_comma {c : Char} (h : NumberPart c) : c ≠ ',' := by
  rintro rfl
  revert h
  unfold NumberPart
  decide

/-! ## Decimals -/

theorem numberPart_of_digits {ds : List Char} {n e : Int}
    (h : (if ds.isEmpty || !ds.all Char.isDigit then none else some n) = some e) :
    ∀ c ∈ ds, NumberPart c := by
  split at h
  · cases h
  · next hall =>
    rw [Bool.or_eq_true, not_or, Bool.not_eq_true', Bool.not_eq_false] at hall
    exact fun c hc => .of_isDigit (List.all_eq_true.mp hall.2 c hc)

theorem numberPart_of_readExponent? {cs : List Char} {e : Int} (h : Decimal.readExponent? cs = some e) :
    ∀ c ∈ cs, NumberPart c := by
  cases cs with
  | nil => exact List.forall_mem_nil _
  | cons mark rest =>
    simp only [Decimal.readExponent?] at h
    split at h
    · cases h
    · next hmark =>
      have hmark : NumberPart mark := by
        simp only [Bool.and_eq_true, bne_iff_ne, ne_eq, Decidable.not_and_iff_not_or_not,
          Decidable.not_not] at hmark
        obtain rfl | rfl := hmark <;> exact .inl rfl
      refine List.forall_mem_cons.mpr ⟨hmark, ?_⟩
      -- with a sign or without
      split at h
      · exact List.forall_mem_cons.mpr ⟨.inr (by simp), numberPart_of_digits h⟩
      · exact List.forall_mem_cons.mpr ⟨.inr (by simp), numberPart_of_digits h⟩
      · exact numberPart_of_digits h

theorem numberPart_of_read? {cs : List Char} {d : Decimal} (h : Decimal.read? cs = some d) :
    ∀ c ∈ cs, NumberPart c := by
  have hdigits (ds : List Char) : ∀ c ∈ ds.takeWhile Char.isDigit, NumberPart c :=
    fun c hc => .of_isDigit (List.mem_takeWhile_imp hc)
  rw [← List.takeWhile_append_dropWhile (p := Char.isDigit) (l := cs)]
  refine List.forall_mem_append.mpr ⟨hdigits cs, ?_⟩
  unfold Decimal.read? at h
  dsimp only at h
  split at h
  · next rest hrest =>
    split at h
    · cases h
    · obtain ⟨e, he, -⟩ := Option.map_eq_some_iff.mp h
      rw [hrest, ← List.takeWhile_append_dropWhile (p := Char.isDigit) (l := rest)]
      exact List.forall_mem_cons.mpr ⟨.inr (by simp),
        List.forall_mem_append.mpr ⟨hdigits rest, numberPart_of_readExponent? he⟩⟩
  · split at h
    · cases h
    · obtain ⟨e, he, -⟩ := Option.map_eq_some_iff.mp h
      exact numberPart_of_readExponent? he

/-! ## Typed numbers -/

/-- A letter keeps its kind in lower case. -/
theorem isAlphanum_of_toLower {c : Char} (h : c.toLower.isAlphanum = true) : c.isAlphanum = true := by
  cases hupper : c.isUpper with
  | true =>
    change ((c.isUpper || c.isLower) || c.isDigit) = true
    rw [hupper]
    rfl
  | false =>
    have hlower : c.toLower = c := dif_neg (of_decide_eq_false hupper)
    rwa [hlower] at h

theorem numberPart_of_lower_eq {cs : List Char} {word : String} (h : lower (String.ofList cs) = word)
    (hword : word.toList.all Char.isAlphanum = true) : ∀ c ∈ cs, NumberPart c := by
  intro c hc
  have hmem : c.toLower ∈ word.toList := by
    rw [← h, lower, String.toList_map, String.toList_ofList]
    exact List.mem_map_of_mem hc
  exact .inl (isAlphanum_of_toLower (List.all_eq_true.mp hword _ hmem))

theorem numberPart_of_signed {s : String} {x : Float} (h : readNumber? s = some x) :
    ∀ c ∈ (signed s).2, NumberPart c := by
  unfold readNumber? at h
  dsimp only at h
  split at h
  · next hword => exact numberPart_of_lower_eq hword (by decide)
  · next hword => exact numberPart_of_lower_eq hword (by decide)
  · next hword => exact numberPart_of_lower_eq hword (by decide)
  · obtain ⟨d, hd, -⟩ := Option.map_eq_some_iff.mp h
    exact numberPart_of_read? hd

theorem mem_dropUnderscores {c : Char} {cs : List Char} (hc : c ∈ cs) (hne : c ≠ '_') :
    c ∈ dropUnderscores cs := by
  induction cs using dropUnderscores.induct with
  | case1 a b rest hdigits ih =>
    rw [dropUnderscores, if_pos hdigits]
    obtain rfl | rfl | hc : c = a ∨ c = '_' ∨ c ∈ b :: rest := by simpa using hc
    · exact List.mem_cons_self
    · exact absurd rfl hne
    · exact List.mem_cons_of_mem _ (ih hc)
  | case2 a b rest hdigits ih =>
    rw [dropUnderscores, if_neg hdigits]
    obtain rfl | rfl | hc : c = a ∨ c = '_' ∨ c ∈ b :: rest := by simpa using hc
    · exact List.mem_cons_self
    · exact absurd rfl hne
    · exact List.mem_cons_of_mem _ (List.mem_cons_of_mem _ (ih hc))
  | case3 a rest hnot ih =>
    rw [dropUnderscores]
    · obtain rfl | hc := List.mem_cons.mp hc
      · exact List.mem_cons_self
      · exact List.mem_cons_of_mem _ (ih hc)
    · exact hnot
  | case4 => exact hc

/-- The characters between the blanks, in plain digits. -/
def plainCore (s : String) : List Char := (trimEnds surrounds s.toList).map plainDigit

/-- Without its underscores this is a sign and the rest. -/
theorem mem_signed {s : String} {c : Char} (hc : c ∈ dropUnderscores (plainCore s)) :
    c ∈ ['-', '+'] ∨ c ∈ (signed s).2 := by
  unfold plainCore at hc
  unfold signed
  split
  · next heq =>
    rw [heq] at hc
    exact (List.mem_cons.mp hc).imp_left fun hsign => by simp [hsign]
  · next heq =>
    rw [heq] at hc
    exact (List.mem_cons.mp hc).imp_left fun hsign => by simp [hsign]
  · exact .inr hc

theorem numberPart_of_plainCore {s : String} {x : Float} (h : readNumber? s = some x) :
    ∀ c ∈ plainCore s, NumberPart c := by
  intro c hc
  by_cases hunderscore : c = '_'
  · exact .inr (by simp [hunderscore])
  · obtain hsign | hrest := mem_signed (mem_dropUnderscores hc hunderscore)
    · have hsigns : ∀ d ∈ ['-', '+'], NumberPart d := by simp [NumberPart]
      exact hsigns c hsign
    · exact numberPart_of_signed h c hrest

/-- Digits of any script are neither blanks nor commas. -/
theorem not_separator_of_digitValue? {c : Char} {d : Nat} (h : digitValue? c = some d) :
    isBlank c = false ∧ c ≠ ',' := by
  obtain ⟨first, hfind, -⟩ := Option.map_eq_some_iff.mp h
  have hmem := List.mem_of_find?_eq_some hfind
  have hrange := List.find?_some hfind
  rw [Bool.and_eq_true, decide_eq_true_iff, decide_eq_true_iff] at hrange
  have hall : ∀ first ∈ digitZeros, ∀ k < 10,
      inRuns (first + k) blankRuns = false ∧ first + k ≠ ','.toNat := by
    decide +kernel
  obtain ⟨hblank, hcomma⟩ := hall first hmem (c.toNat - first) (by omega)
  rw [Nat.add_sub_cancel' hrange.1] at hblank hcomma
  exact ⟨hblank, fun heq => hcomma (heq ▸ rfl)⟩

theorem not_separator_of_plainDigit {c : Char} (h : NumberPart (plainDigit c)) :
    isBlank c = false ∧ c ≠ ',' := by
  unfold plainDigit at h
  split at h
  · next hdigit => exact not_separator_of_digitValue? hdigit
  · exact ⟨h.not_isBlank, h.ne_comma⟩

/-- Between its blanks a text that is read as a number has neither blanks nor commas. -/
theorem not_separator_of_readNumber? {s : String} {x : Float} (h : readNumber? s = some x) :
    ∀ c ∈ trimEnds surrounds s.toList, isBlank c = false ∧ c ≠ ',' := fun _ hc =>
  not_separator_of_plainDigit (numberPart_of_plainCore h _ (List.mem_map_of_mem hc))

theorem isBlank_of_surrounds {c : Char} (h : surrounds c = true) : isBlank c = true :=
  (Bool.and_eq_true_iff.mp h).1

theorem not_mem_of_readNumber? {s : String} {x : Float} (h : readNumber? s = some x) :
    ',' ∉ s.toList := by
  intro hmem
  obtain ⟨front, back, heq, hfront, hback⟩ := exists_eq_of_trimEnds surrounds s.toList
  have hcomma : ¬ surrounds ',' = true := by decide +kernel
  rw [heq, List.mem_append, List.mem_append] at hmem
  obtain hmem | hmem | hmem := hmem
  · exact hcomma (hfront _ hmem)
  · exact (not_separator_of_readNumber? h _ hmem).2 rfl
  · exact hcomma (hback _ hmem)

/-- More blanks around a number may all be trimmed. -/
theorem readNumber?_strip {s front back : String} {x : Float} (h : readNumber? s = some x)
    (hfront : isBlankText front = true) (hback : isBlankText back = true) :
    readNumber? (strip (front ++ s ++ back)) = some x := by
  obtain ⟨front', back', heq, hfront', hback'⟩ := exists_eq_of_trimEnds surrounds s.toList
  have hcore : ∀ c ∈ trimEnds surrounds s.toList, isBlank c = false :=
    fun c hc => (not_separator_of_readNumber? h c hc).1
  have hstrip : (strip s).toList = trimEnds surrounds s.toList := by
    rw [toList_strip, congrArg (trimEnds isBlank) heq,
      trimEnds_append_left fun c hc => isBlank_of_surrounds (hfront' c hc),
      trimEnds_append_right fun c hc => isBlank_of_surrounds (hback' c hc), trimEnds_eq_self hcore]
  have hagain : trimEnds surrounds (strip s).toList = trimEnds surrounds s.toList := by
    rw [hstrip]
    exact trimEnds_eq_self fun c hc => Bool.and_eq_false_imp.mpr fun hblank => by
      rw [hcore c hc] at hblank
      cases hblank
  rw [strip_append hfront hback, ← h]
  unfold readNumber? signed
  rw [hagain]

end PhasePortrait.Reading
