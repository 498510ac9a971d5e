import PhasePortrait.Proofs.Lexer.Munch

/-!
# Characters that belong to no token

A text without tokens has a character outside the alphabet, a dot without digits, or an underscore
that no word takes up (`strays_of_tokenize`). Underscores of the last kind are found while scanning:
the text before has tokens, none of which is a word that reaches up to the underscore.

## Main definitions

* `Detached p cs ts` — the tokens of `cs` do not end in a word.
* `Strays cs` — `cs` has a character outside the alphabet, or an underscore outside of all words.
-/
namespace PhasePortrait

namespace Number

section
variable {p : Char → Bool} {c : Char}

theorem takeWhile_append_cons (hc : p c = false) (cs rest : List Char) :
    (cs ++ c :: rest).takeWhile p = cs.takeWhile p := by
  induction cs with
  | nil => simp [hc]
  | cons d cs ih => simp only [List.cons_append, List.takeWhile_cons, ih]

theorem dropWhile_append_cons (hc : p c = false) (cs rest : List Char) :
    (cs ++ c :: rest).dropWhile p = cs.dropWhile p ++ c :: rest := by
  induction cs with
  | nil => simp [hc]
  | cons d cs ih =>
    simp only [List.cons_append, List.dropWhile_cons, ih]
    split <;> rfl

end

theorem startsWithDigit_append_underscore (cs rest : List Char) :
    startsWithDigit (cs ++ '_' :: rest) = startsWithDigit cs := by
  cases cs <;> rfl

theorem splitFraction_append_underscore (cs rest : List Char) :
    splitFraction (cs ++ '_' :: rest) =
      ((splitFraction cs).1, (splitFraction cs).2 ++ '_' :: rest) := by
  have hdigit : Char.isDigit '_' = false := rfl
  cases cs with
  | nil => rfl
  | cons c cs =>
    by_cases hc : c = '.'
    · subst hc
      simp only [splitFraction, List.cons_append, takeWhile_append_cons hdigit,
        dropWhile_append_cons hdigit]
    · have hne : ∀ tail, ∀ d ∈ (c :: tail).head?, d ≠ '.' := by
        rintro tail _ ⟨⟩
        exact hc
      rw [List.cons_append, splitFraction_of_ne (hne _), splitFraction_of_ne (hne _)]
      rfl

theorem splitExponent_append_underscore (cs rest : List Char) :
    splitExponent (cs ++ '_' :: rest) =
      ((splitExponent cs).1, (splitExponent cs).2 ++ '_' :: rest) := by
  have hdigit : Char.isDigit '_' = false := rfl
  rcases cs with _ | ⟨mark, _ | ⟨sign, digits⟩⟩
  · rfl
  · simp only [splitExponent, List.cons_append, List.nil_append]
    split <;> simp [hdigit]
  · have htake := takeWhile_append_cons hdigit (sign :: digits) rest
    have hdrop := dropWhile_append_cons hdigit (sign :: digits) rest
    rw [List.cons_append] at htake hdrop
    simp only [splitExponent, List.cons_append, startsWithDigit_append_underscore,
      takeWhile_append_cons hdigit digits, dropWhile_append_cons hdigit digits, htake, hdrop]
    split
    · split
      · rfl
      · split <;> rfl
    · rfl

/-- No number goes on over an underscore. -/
theorem splitNumber_append_underscore (cs rest : List Char) :
    splitNumber (cs ++ '_' :: rest) = ((splitNumber cs).1, (splitNumber cs).2 ++ '_' :: rest) := by
  have hdigit : Char.isDigit '_' = false := rfl
  simp only [splitNumber, takeWhile_append_cons hdigit, dropWhile_append_cons hdigit,
    splitFraction_append_underscore, splitExponent_append_underscore]

end Number

namespace Formula
open Number

/-- The tokens of a text, none of which is a word that reaches up to its end. -/
structure Detached (p : Nat) (cs : List Char) (ts : List Token) : Prop where
  scans : Scans p cs ts
  ends : ∀ t ∈ ts, t.stop = p + cs.length → ∀ w, t.lexeme ≠ .name w

/-- A character outside the alphabet, or an underscore that belongs to no word. -/
def Strays (cs : List Char) : Prop :=
  (∃ c ∈ cs, isForeign c) ∨ ∃ before rest ts, cs = before ++ '_' :: rest ∧ Detached 0 before ts

/-! ## An underscore behind a text without an open word -/

theorem StartsNumber.append_underscore {c : Char} {cs : List Char} (h : StartsNumber c cs)
    (rest : List Char) : StartsNumber c (cs ++ '_' :: rest) :=
  h.imp_right fun ⟨hc, hdigit⟩ => ⟨hc, by rwa [startsWithDigit_append_underscore]⟩

theorem scan_underscore (p : Nat) (rest : List Char) :
    scan p ('_' :: rest) = .error (.invalidCharacters '_' [] p) := by
  have hblank : ¬Text.isBlank '_' := by decide +kernel
  rw [scan, if_neg hblank]
  rfl

/-- A word that does not reach the end of a text stops before it. -/
theorem exists_not_isNameChar {p : Nat} {c : Char} {cs : List Char}
    (h : (⟨.name (String.ofList (c :: cs.takeWhile isNameChar)), p⟩ : Token).stop ≠
      p + (c :: cs).length) : cs.dropWhile isNameChar ≠ [] := by
  intro hnil
  have hcs : cs.takeWhile isNameChar ++ cs.dropWhile isNameChar = cs :=
    List.takeWhile_append_dropWhile
  rw [hnil, List.append_nil] at hcs
  refine h ?_
  rw [Token.stop, Token.text, Lexeme.text, String.toList_ofList, hcs]

theorem takeWhile_append_of_dropWhile {q : Char → Bool} {cs : List Char}
    (h : cs.dropWhile q ≠ []) (rest : List Char) :
    (cs ++ rest).takeWhile q = cs.takeWhile q ∧
      (cs ++ rest).dropWhile q = cs.dropWhile q ++ rest := by
  induction cs with
  | nil => exact absurd rfl h
  | cons c cs ih =>
    simp only [List.cons_append, List.takeWhile_cons, List.dropWhile_cons] at h ⊢
    split
    · next hc =>
      rw [if_pos hc] at h
      rw [(ih h).1, (ih h).2]
      exact ⟨rfl, rfl⟩
    · exact ⟨rfl, rfl⟩

theorem scan_append_underscore {p : Nat} {cs : List Char} {ts : List Token}
    (h : Detached p cs ts) (rest : List Char) :
    scan p (cs ++ '_' :: rest) = .error (.invalidCharacters '_' [] (p + cs.length)) := by
  obtain ⟨hscans, hends⟩ := h
  induction hscans with
  | nil => exact scan_underscore _ rest
  | @blank p c cs ts hblank _ ih =>
    have hlength : p + (c :: cs).length = p + 1 + cs.length := by
      rw [List.length_cons]
      omega
    rw [hlength] at hends ⊢
    rw [List.cons_append, scan_of_isBlank hblank, ih hends]
  | @number p c cs ts hnumber _ ih =>
    have hsplit := splitNumber_append_underscore (c :: cs) rest
    have hlength := congrArg List.length (splitNumber_append (c :: cs))
    rw [List.length_append] at hlength
    rw [← hlength, ← Nat.add_assoc] at hends ⊢
    rw [List.cons_append] at hsplit ⊢
    rw [scan_of_startsNumber (hnumber.append_underscore rest), hsplit]
    dsimp only
    rw [ih (List.forall_mem_cons.mp hends).2]
    rfl
  | @name p c cs ts halpha _ ih =>
    obtain ⟨hfirst, hrest⟩ := List.forall_mem_cons.mp hends
    obtain ⟨htake, hdrop⟩ := takeWhile_append_of_dropWhile
      (exists_not_isNameChar fun hstop => hfirst hstop _ rfl) ('_' :: rest)
    have happend : cs.takeWhile isNameChar ++ cs.dropWhile isNameChar = cs :=
      List.takeWhile_append_dropWhile
    have hlength := congrArg List.length happend
    rw [List.length_append] at hlength
    have htotal : p + (c :: cs).length =
        p + 1 + (cs.takeWhile isNameChar).length + (cs.dropWhile isNameChar).length := by
      rw [List.length_cons]
      omega
    rw [htotal] at hrest ⊢
    rw [List.cons_append, scan_of_isAlpha halpha, htake, hdrop, ih hrest]
    rfl
  | @mark p c cs l ts hmark _ ih =>
    have hlength : p + (c :: cs).length = p + 1 + cs.length := by
      rw [List.length_cons]
      omega
    rw [hlength] at hends ⊢
    rw [List.cons_append, scan_of_punctuation hmark, ih (List.forall_mem_cons.mp hends).2]
    rfl

/-! ## Where a scan stops -/

theorem Taken.of_append {l : Lexeme} {cs rest : List Char} (h : Taken l (cs ++ rest))
    (hlength : l.text.toList.length ≤ cs.length) : Taken l cs where
  formed := h.formed
  spelled := List.prefix_of_prefix_length_le h.spelled (List.prefix_append _ _) hlength
  longest ds hds hbegins := h.longest ds hds (hbegins.trans (List.prefix_append _ _))

theorem Detached.cons {p : Nat} {l : Lexeme} {before rest : List Char} {ts : List Token}
    (hl : Taken l (l.text.toList ++ (before ++ rest)))
    (hends : before = [] → ∀ w, l ≠ .name w)
    (h : Detached (p + l.text.toList.length) before ts) :
    Detached p (l.text.toList ++ before) (⟨l, p⟩ :: ts) where
  scans := by
    rw [← List.append_assoc] at hl
    refine (hl.of_append ?_).scans ?_
    · rw [List.length_append]
      exact Nat.le_add_right _ _
    · rw [List.drop_left]
      exact h.scans
  ends := by
    rw [List.length_append, ← Nat.add_assoc]
    refine List.forall_mem_cons.mpr ⟨fun hstop => hends ?_, h.ends⟩
    dsimp only [Token.stop, Token.text] at hstop
    exact List.length_eq_zero_iff.mp (by omega)

/-- The end of a scan that stops at a stray underscore. -/
def StopsAt (p : Nat) (cs : List Char) (fault : Fault) : Prop :=
  ∃ before rest ts, cs = before ++ '_' :: rest ∧
    fault = .invalidCharacters '_' [] (p + before.length) ∧ Detached p before ts

theorem StopsAt.cons {p : Nat} {l : Lexeme} {ds rest cs : List Char} {fault : Fault}
    (hl : Taken l cs) (hds : l.text.toList = ds) (happend : ds ++ rest = cs)
    (hends : rest.head? = some '_' → ∀ w, l ≠ .name w) (h : StopsAt (p + ds.length) rest fault) :
    StopsAt p cs fault := by
  obtain ⟨before, behind, ts, rfl, rfl, hbefore⟩ := h
  subst hds happend
  refine ⟨l.text.toList ++ before, behind, _, (List.append_assoc _ _ _).symm, ?_,
    .cons hl (fun hnil => ?_) hbefore⟩
  · rw [List.length_append, Nat.add_assoc]
  · subst hnil
    exact hends rfl

theorem exists_error_of_map {ε α β : Type} {x : Except ε α} {f : α → β} {e : ε}
    (h : x.map f = .error e) : x = .error e := by
  cases x with
  | error _ =>
    cases h
    rfl
  | ok _ => cases h

theorem eq_underscore {c : Char} (hc : isForeign c = false) (hblank : ¬Text.isBlank c)
    (hnumber : ¬(c.isDigit || c == '.')) (halpha : ¬c.isAlpha) (hmark : punctuation? c = none) :
    c = '_' := by
  rcases cases_of_inAlphabet ((isForeign_eq_false_iff.mp hc).resolve_left hblank) with
    h | rfl | rfl | h
  · simp_all [Char.isAlphanum]
  · rfl
  · exact absurd rfl hnumber
  · have hall : marks.all fun c => (punctuation? c).isSome := by decide
    have hsome := List.all_eq_true.mp hall c h
    rw [hmark] at hsome
    cases hsome

/-- Without foreign characters a scan stops at a dot or at a stray underscore only. -/
theorem stopsAt_of_scan {p : Nat} {cs : List Char} {fault : Fault}
    (hcs : ∀ c ∈ cs, isForeign c = false) (h : scan p cs = .error fault) :
    (∃ q, fault = .loneDot q) ∨ StopsAt p cs fault := by
  induction p, cs using scan.induct with
  | case1 p =>
    rw [scan] at h
    cases h
  | case2 p c cs hblank ih =>
    rw [scan_of_isBlank hblank] at h
    refine (ih (List.forall_mem_cons.mp hcs).2 h).imp_right ?_
    rintro ⟨before, rest, ts, rfl, rfl, hbefore⟩
    have hlength (n : Nat) : p + 1 + n = p + (n + 1) := by omega
    refine ⟨c :: before, rest, ts, rfl, ?_, .blank hblank hbefore.scans, ?_⟩
    · rw [List.length_cons, hlength]
    · rw [List.length_cons, ← hlength]
      exact hbefore.ends
  | case3 p c cs hblank hnumber hdot =>
    rw [scan, if_neg hblank, dif_pos hnumber, if_pos hdot] at h
    cases h
    exact .inl ⟨p, rfl⟩
  | case4 p c cs hblank hnumber hdot _ _ ih =>
    have hstart := startsNumber_of_tests hnumber hdot
    rw [scan_of_startsNumber hstart] at h
    have hrest : ∀ d ∈ (splitNumber (c :: cs)).2, isForeign d = false := fun d hd =>
      hcs d (splitNumber_append (c :: cs) ▸ List.mem_append_right _ hd)
    refine (ih hrest (exists_error_of_map h)).imp_right ?_
    refine .cons (taken_number hstart) String.toList_ofList (splitNumber_append _) ?_
    rintro - w ⟨⟩
  | case5 p c cs hblank hnumber halpha _ _ ih =>
    rw [scan_of_isAlpha halpha] at h
    have happend : cs.takeWhile isNameChar ++ cs.dropWhile isNameChar = cs :=
      List.takeWhile_append_dropWhile
    have hrest : ∀ d ∈ cs.dropWhile isNameChar, isForeign d = false := fun d hd =>
      hcs d (List.mem_cons_of_mem c (happend ▸ List.mem_append_right _ hd))
    have hhead : (cs.dropWhile isNameChar).head? ≠ some '_' := by
      intro hhead
      have hnot := List.head?_dropWhile_not isNameChar cs
      rw [hhead] at hnot
      cases hnot
    refine (ih hrest (exists_error_of_map h)).imp_right fun hstop => ?_
    refine .cons (taken_name cs halpha) String.toList_ofList (congrArg (c :: ·) happend)
      (fun h => absurd h hhead) ?_
    rwa [List.length_cons, Nat.add_comm _ 1, ← Nat.add_assoc]
  | case6 p c cs hblank hnumber halpha l hmark ih =>
    rw [scan_of_punctuation hmark] at h
    have htext := text_of_punctuation hmark
    refine (ih (List.forall_mem_cons.mp hcs).2 (exists_error_of_map h)).imp_right ?_
    refine .cons (taken_mark hmark cs) htext.1 rfl ?_
    rintro - w rfl
    cases htext.2
  | case7 p c cs hblank hnumber halpha hmark =>
    rw [scan, if_neg hblank, dif_neg hnumber, if_neg halpha, hmark] at h
    cases h
    obtain rfl := eq_underscore (hcs c List.mem_cons_self) hblank hnumber halpha hmark
    exact .inr ⟨[], cs, [], rfl, rfl, .nil, List.forall_mem_nil _⟩

/-! ## Texts without tokens -/

theorem not_strays_of_tokenize {text : String} {ts : List Token} (h : tokenize text = .ok ts) :
    ¬Strays text.toList := by
  obtain ⟨hforeign, hscans⟩ := tokenize_eq_ok_iff.mp h
  rintro (⟨c, hc, hout⟩ | ⟨before, rest, us, htext, hbefore⟩)
  · rw [hforeign c hc] at hout
    cases hout
  · rw [htext, ← scan_eq_ok_iff, scan_append_underscore hbefore rest] at hscans
    cases hscans

/-- What is reported about a text without tokens is a dot or a stray character. -/
theorem strays_of_tokenize {text : String} {fault : Fault} (h : tokenize text = .error fault) :
    (∃ q, fault = .loneDot q) ∨
      (∃ c cs q, fault = .invalidCharacters c cs q) ∧ Strays text.toList := by
  rw [tokenize] at h
  split at h
  · next first others hforeign =>
    cases h
    have hfirst : first ∈ text.toList.filter isForeign :=
      List.mem_eraseDups.mp (by rw [← foreignCharacters, hforeign]; exact List.mem_cons_self)
    obtain ⟨hmem, hout⟩ := List.mem_filter.mp hfirst
    exact .inr ⟨⟨_, _, _, rfl⟩, .inl ⟨first, hmem, hout⟩⟩
  · next hforeign =>
    refine (stopsAt_of_scan (foreignCharacters_eq_nil_iff.mp hforeign) h).imp_right ?_
    rintro ⟨before, rest, ts, htext, rfl, hbefore⟩
    exact ⟨⟨_, _, _, rfl⟩, .inr ⟨before, rest, ts, htext, hbefore⟩⟩

end Formula
end PhasePortrait
