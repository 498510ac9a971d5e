import Mathlib.Data.List.Infix
import Mathlib.Data.List.TakeWhile
import PhasePortrait.Proofs.Lexer.Spelling

/-!
# A text and its longest lexemes

The tokens of a text cut it into numbers, words and single marks with nothing but blanks between
them, and no number or word could be longer where it stands. `Decomposes` says this by positions
alone, without an order in which the text is read. A text has at most one such list of tokens, and
`tokenize` finds it whenever there is one (`tokenize_eq_ok_iff_decomposes`).

## Main definitions

* `Taken l cs` — the text `cs` starts with the lexeme `l`, and with no longer number or word.
* `Decomposes cs ts` — the tokens `ts` are a decomposition of the text `cs`.
-/
namespace PhasePortrait

/-- The position after the last character of a token. -/
def Token.stop (t : Token) : Nat := t.position + t.text.toList.length

namespace Number
open Formula (StartsNumber)

/-! ## The number that is split off is the longest one -/

theorem digits_takeWhile (cs : List Char) : Digits (cs.takeWhile Char.isDigit) :=
  fun _ h => List.mem_takeWhile_imp h

theorem length_le_takeWhile {p : Char → Bool} {ds : List Char} (h : ∀ c ∈ ds, p c)
    (rest : List Char) : ds.length ≤ ((ds ++ rest).takeWhile p).length := by
  rw [List.takeWhile_append_of_pos h, List.length_append]
  exact Nat.le_add_right _ _

theorem takeWhile_ne_nil {cs : List Char} (h : startsWithDigit cs) :
    cs.takeWhile Char.isDigit ≠ [] := by
  cases cs with
  | nil => cases h
  | cons c cs =>
      have hc : c.isDigit := h
      simp [hc]

theorem exponent_splitExponent (cs : List Char) : Exponent (splitExponent cs).1 := by
  unfold splitExponent
  split
  · next mark cs =>
    split
    · next hmark =>
      have hmark : mark ∈ ['e', 'E'] := by simpa using hmark
      split
      · next sign digits =>
        split
        · next hsign =>
          obtain ⟨hsign, hdigit⟩ := Bool.and_eq_true_iff.mp hsign
          exact .signed hmark (by simpa using hsign) (takeWhile_ne_nil hdigit) (digits_takeWhile _)
        · split
          · next hdigit => exact .unsigned hmark (takeWhile_ne_nil hdigit) (digits_takeWhile _)
          · exact .none
      · exact .none
    · exact .none
  · exact .none

/-- What is split off at the start of a number is a number. -/
theorem numeral_splitNumber {c : Char} {cs : List Char} (h : StartsNumber c cs) :
    Numeral (splitNumber (c :: cs)).1 := by
  refine ⟨_, _, rfl, ?_, exponent_splitExponent _⟩
  rcases h with hdigit | ⟨rfl, hdigit⟩
  · have hne : (c :: cs).takeWhile Char.isDigit ≠ [] := takeWhile_ne_nil hdigit
    unfold splitFraction
    split
    · exact .fraction (.inl hne) (digits_takeWhile _) (digits_takeWhile _)
    · rw [List.append_nil]
      exact .whole hne (digits_takeWhile _)
  · have hdot : Char.isDigit '.' = false := rfl
    simp only [List.takeWhile_cons, List.dropWhile_cons, hdot, Bool.false_eq_true, if_false,
      splitFraction]
    exact .fraction (.inr (takeWhile_ne_nil hdigit)) (List.forall_mem_nil _) (digits_takeWhile _)

theorem length_le_splitExponent {x : List Char} (hx : Exponent x) (rest : List Char) :
    x.length ≤ (splitExponent (x ++ rest)).1.length := by
  cases hx with
  | none => exact Nat.zero_le _
  | @unsigned mark ds hmark hne hds =>
      have hlength := length_le_takeWhile hds rest
      obtain ⟨d, ds, rfl⟩ := List.exists_cons_of_ne_nil hne
      have hd : d.isDigit := hds d List.mem_cons_self
      have hmark : (mark == 'e' || mark == 'E') = true := by simpa using hmark
      simp only [splitExponent, List.cons_append, hmark, not_sign_of_isDigit hd, hd] at hlength ⊢
      exact Nat.succ_le_succ hlength
  | @signed mark sign ds hmark hsign hne hds =>
      have hlength := length_le_takeWhile hds rest
      have hmark : (mark == 'e' || mark == 'E') = true := by simpa using hmark
      have hsign : (sign == '+' || sign == '-') = true := by simpa using hsign
      simp only [splitExponent, List.cons_append, hmark, hsign, startsWithDigit_of_digits hne hds]
      exact Nat.succ_le_succ (Nat.succ_le_succ hlength)

theorem length_le_splitFraction {es : List Char} (hes : Digits es) (rest : List Char) :
    (('.' : Char) :: es).length ≤ (splitFraction ('.' :: (es ++ rest))).1.length :=
  Nat.succ_le_succ (length_le_takeWhile hes rest)

/-- No number at the start of a text is longer than the one that is split off. -/
theorem length_le_splitNumber {ds : List Char} (h : Numeral ds) (rest : List Char) :
    ds.length ≤ (splitNumber (ds ++ rest)).1.length := by
  obtain ⟨m, x, rfl, hm, hx⟩ := h
  have hexponent := length_le_splitExponent hx rest
  simp only [splitNumber, List.length_append, List.append_assoc]
  -- Without an exponent the digits may go on in `rest`, with one they stop before its mark.
  rcases eq_or_ne x [] with rfl | hne
  · cases hm with
    | whole _ hds =>
        have := length_le_takeWhile hds rest
        simp only [List.nil_append, List.length_nil]
        omega
    | @fraction ds es _ hds hes =>
        have hdot : ∀ c ∈ ('.' :: (es ++ rest)).head?, c.isDigit = false := by
          rintro _ ⟨⟩
          rfl
        have := length_le_splitFraction hes rest
        simp only [List.append_assoc, List.cons_append, List.nil_append, List.length_nil,
          takeWhile_append_of_stop hds hdot, dropWhile_append_of_stop hds hdot, List.length_append]
        omega
  · have hstop : ∀ c ∈ (x ++ rest).head?, c.isDigit = false := fun c hc => (hx.head hne rest c hc).1
    have hfraction := splitFraction_of_ne fun c hc => (hx.head hne rest c hc).2
    cases hm with
    | whole _ hds =>
        simp only [takeWhile_append_of_stop hds hstop, dropWhile_append_of_stop hds hstop,
          hfraction]
        omega
    | @fraction ds es _ hds hes =>
        have hdot : ∀ c ∈ ('.' :: (es ++ (x ++ rest))).head?, c.isDigit = false := by
          rintro _ ⟨⟩
          rfl
        simp only [List.append_assoc, List.cons_append, takeWhile_append_of_stop hds hdot,
          dropWhile_append_of_stop hds hdot, splitFraction, takeWhile_append_of_stop hes hstop,
          dropWhile_append_of_stop hes hstop, List.length_append, List.length_cons]
        omega

end Number

namespace Formula
open Number

/-! ## Lexemes at the start of a text -/

/-- The texts of numbers, of words, or of a single mark. -/
def OfKind : Lexeme → List Char → Prop
  | .number _, cs => Numeral cs
  | .name _, cs => Word cs
  | l, cs => cs = l.text.toList

/-- The text starts with this lexeme, and with no longer one of its kind. -/
structure Taken (l : Lexeme) (cs : List Char) : Prop where
  formed : OfKind l l.text.toList
  spelled : l.text.toList <+: cs
  longest : ∀ ds, OfKind l ds → ds <+: cs → ds.length ≤ l.text.toList.length

theorem taken_number {c : Char} {cs : List Char} (h : StartsNumber c cs) :
    Taken (.number (String.ofList (splitNumber (c :: cs)).1)) (c :: cs) where
  formed := by
    rw [Lexeme.text, String.toList_ofList]
    exact numeral_splitNumber h
  spelled := by
    rw [Lexeme.text, String.toList_ofList]
    exact ⟨_, splitNumber_append _⟩
  longest := by
    rintro ds hds ⟨rest, hrest⟩
    rw [Lexeme.text, String.toList_ofList, ← hrest]
    exact length_le_splitNumber hds rest

theorem taken_name {c : Char} (cs : List Char) (h : c.isAlpha) :
    Taken (.name (String.ofList (c :: cs.takeWhile isNameChar))) (c :: cs) where
  formed := by
    rw [Lexeme.text, String.toList_ofList]
    exact ⟨c, _, rfl, h, fun _ hd => List.mem_takeWhile_imp hd⟩
  spelled := by
    rw [Lexeme.text, String.toList_ofList]
    exact List.cons_prefix_cons.mpr ⟨rfl, List.takeWhile_prefix _⟩
  longest := by
    rintro _ ⟨d, tail, rfl, -, htail⟩ ⟨rest, hrest⟩
    obtain ⟨-, rfl⟩ := List.cons.inj hrest
    rw [Lexeme.text, String.toList_ofList]
    exact Nat.succ_le_succ (length_le_takeWhile htail rest)

theorem text_of_punctuation {c : Char} {l : Lexeme} (h : punctuation? c = some l) :
    l.text.toList = [c] ∧ goesOn l = false := by
  unfold punctuation? at h
  split at h
  · cases h
    exact ⟨rfl, rfl⟩
  · cases h
    exact ⟨rfl, rfl⟩
  · cases h
    exact ⟨rfl, rfl⟩
  · obtain ⟨o, ho, rfl⟩ := Option.map_eq_some_iff.mp h
    rw [Operator.ofChar?_eq_some_iff.mp ho]
    exact ⟨by cases o <;> rfl, rfl⟩

theorem ofKind_of_not_goesOn {l : Lexeme} (h : goesOn l = false) (cs : List Char) :
    OfKind l cs ↔ cs = l.text.toList := by
  cases l with
  | number _ => cases h
  | name _ => cases h
  | _ => exact Iff.rfl

theorem taken_mark {c : Char} {l : Lexeme} (h : punctuation? c = some l) (cs : List Char) :
    Taken l (c :: cs) := by
  obtain ⟨htext, hclosed⟩ := text_of_punctuation h
  refine ⟨(ofKind_of_not_goesOn hclosed _).mpr rfl, ?_, fun ds hds _ => ?_⟩
  · rw [htext]
    exact List.prefix_append [c] cs
  · rw [(ofKind_of_not_goesOn hclosed ds).mp hds]

theorem drop_of_append {as bs cs : List Char} (h : as ++ bs = cs) : cs.drop as.length = bs := by
  rw [← h, List.drop_left]

namespace Taken
variable {l l' : Lexeme} {cs : List Char}

theorem exists_cons (h : Taken l cs) :
    ∃ c tail, l.text.toList = c :: tail ∧ Text.isBlank c = false := by
  by_cases hopen : goesOn l
  · cases l with
    | number text =>
        obtain ⟨c, tail, htext, hstart⟩ := exists_startsNumber h.formed
        exact ⟨c, tail, htext, (hstart []).not_isBlank⟩
    | name text =>
        obtain ⟨c, tail, htext, hc, -⟩ := h.formed
        exact ⟨c, tail, htext, not_isBlank_of_isAlphanum (isAlphanum_of_isAlpha hc)⟩
    | _ => cases hopen
  · obtain ⟨c, hc, hmark⟩ := exists_mark (by simpa using hopen)
    exact ⟨c, [], hc, (not_else_of_punctuation hmark).1⟩

/-- A text starts with only one longest lexeme of a kind. -/
theorem text_eq (h : Taken l cs) (h' : Taken l' cs) (hkind : OfKind l = OfKind l') :
    l.text = l'.text := by
  have hle := h'.longest _ (hkind ▸ h.formed) h.spelled
  have hge := h.longest _ (hkind ▸ h'.formed) h'.spelled
  exact String.toList_inj.mp
    ((List.prefix_of_prefix_length_le h.spelled h'.spelled hle).eq_of_length_le hge)

/-- A lexeme that could not be longer is what a scan takes. -/
theorem scans {p : Nat} {ts : List Token} (h : Taken l cs)
    (hrest : Scans (p + l.text.toList.length) (cs.drop l.text.toList.length) ts) :
    Scans p cs (⟨l, p⟩ :: ts) := by
  obtain ⟨rest, hcs⟩ := h.spelled
  by_cases hopen : goesOn l
  · cases l with
    | number text =>
        obtain ⟨c, tail, htext, hstart⟩ := exists_startsNumber h.formed
        obtain rfl : c :: (tail ++ rest) = cs := by rw [← hcs, htext, List.cons_append]
        obtain rfl : text = String.ofList _ := h.text_eq (taken_number (hstart rest)) rfl
        rw [Lexeme.text, String.toList_ofList, drop_of_append (splitNumber_append _)] at hrest
        exact .number (hstart rest) hrest
    | name text =>
        obtain ⟨c, tail, htext, hc, -⟩ := h.formed
        obtain rfl : c :: (tail ++ rest) = cs := by rw [← hcs, htext, List.cons_append]
        obtain rfl : text = String.ofList _ := h.text_eq (taken_name (tail ++ rest) hc) rfl
        rw [Lexeme.text, String.toList_ofList, List.length_cons, List.drop_succ_cons,
          drop_of_append List.takeWhile_append_dropWhile, Nat.add_comm _ 1,
          ← Nat.add_assoc] at hrest
        exact .name hc hrest
    | _ => cases hopen
  · obtain ⟨c, hc, hmark⟩ := exists_mark (by simpa using hopen)
    subst hcs
    rw [hc] at hrest ⊢
    exact .mark hmark hrest

end Taken

/-! ## Decompositions -/

/-- The tokens are a decomposition of a text from position `p` on: they stand from left to right
without overlap, each is the longest of its kind where it stands, and every other character is
blank. -/
structure DecomposesFrom (p : Nat) (cs : List Char) (ts : List Token) : Prop where
  le_position : ∀ t ∈ ts, p ≤ t.position
  apart : ts.Pairwise fun t u => t.stop ≤ u.position
  taken : ∀ t ∈ ts, Taken t.lexeme (cs.drop t.position)
  blank : ∀ i c, p ≤ i → cs[i]? = some c → (∀ t ∈ ts, ¬(t.position ≤ i ∧ i < t.stop)) →
    Text.isBlank c

/-- The tokens are a decomposition of a text. -/
abbrev Decomposes (cs : List Char) (ts : List Token) : Prop := DecomposesFrom 0 cs ts

namespace DecomposesFrom
variable {p : Nat} {cs : List Char} {t : Token} {ts : List Token}

theorem nil (h : cs.drop p = []) : DecomposesFrom p cs [] where
  le_position := nofun
  apart := .nil
  taken := nofun
  blank i c hi hc _ := by
    have hlength := List.drop_eq_nil_iff.mp h
    rw [List.getElem?_eq_none (by omega)] at hc
    cases hc

theorem skip {c : Char} (h : DecomposesFrom (p + 1) cs ts) (hp : cs[p]? = some c)
    (hblank : Text.isBlank c) : DecomposesFrom p cs ts where
  le_position t ht := Nat.le_of_succ_le (h.le_position t ht)
  apart := h.apart
  taken := h.taken
  blank i d hi hd houtside := by
    rcases Nat.eq_or_lt_of_le hi with rfl | hlt
    · obtain rfl : c = d := Option.some.inj (hp.symm.trans hd)
      exact hblank
    · exact h.blank i d hlt hd houtside

theorem cons {l : Lexeme} (hl : Taken l (cs.drop p))
    (h : DecomposesFrom (p + l.text.toList.length) cs ts) : DecomposesFrom p cs (⟨l, p⟩ :: ts) where
  le_position := List.forall_mem_cons.mpr
    ⟨Nat.le_refl p, fun t ht => Nat.le_trans (Nat.le_add_right _ _) (h.le_position t ht)⟩
  apart := .cons h.le_position h.apart
  taken := List.forall_mem_cons.mpr ⟨hl, h.taken⟩
  blank i c hi hc houtside := by
    obtain ⟨hfirst, hothers⟩ := List.forall_mem_cons.mp houtside
    have hstop : p + l.text.toList.length ≤ i := Nat.le_of_not_lt fun hlt => hfirst ⟨hi, hlt⟩
    exact h.blank i c hstop hc hothers

end DecomposesFrom

/-- The tokens of a scan are a decomposition. -/
theorem decomposesFrom_of_scans {p : Nat} {rest : List Char} {ts : List Token}
    (h : Scans p rest ts) {cs : List Char} (hrest : cs.drop p = rest) : DecomposesFrom p cs ts := by
  induction h with
  | nil => exact .nil hrest
  | @blank p c rest ts hblank _ ih =>
      have hp : cs[p]? = some c := by
        rw [← Nat.add_zero p, ← List.getElem?_drop, hrest, List.getElem?_cons_zero]
      exact .skip (ih (by rw [← List.drop_drop, hrest, List.drop_one, List.tail_cons])) hp hblank
  | number hnumber _ ih =>
      refine .cons (hrest ▸ taken_number hnumber) ?_
      rw [Lexeme.text, String.toList_ofList]
      exact ih (by rw [← List.drop_drop, hrest, drop_of_append (splitNumber_append _)])
  | name halpha _ ih =>
      refine .cons (hrest ▸ taken_name _ halpha) ?_
      rw [Lexeme.text, String.toList_ofList, List.length_cons, Nat.add_comm _ 1, ← Nat.add_assoc]
      exact ih (by rw [← List.drop_drop, ← List.drop_drop, hrest, List.drop_one, List.tail_cons,
        drop_of_append List.takeWhile_append_dropWhile])
  | mark hmark _ ih =>
      refine .cons (hrest ▸ taken_mark hmark _) ?_
      rw [(text_of_punctuation hmark).1]
      exact ih (by rw [← List.drop_drop, hrest, List.drop_one, List.tail_cons])

namespace DecomposesFrom
variable {p : Nat} {cs rest : List Char} {c : Char} {t : Token} {ts : List Token}

theorem eq_nil (h : DecomposesFrom p cs ts) (hrest : cs.drop p = []) : ts = [] := by
  refine List.eq_nil_iff_forall_not_mem.mpr fun t ht => ?_
  obtain ⟨c, tail, htext, -⟩ := (h.taken t ht).exists_cons
  have hspelled := (h.taken t ht).spelled
  have hend : cs.drop t.position = [] := by
    have := h.le_position t ht
    rw [List.drop_eq_nil_iff] at hrest ⊢
    omega
  rw [htext, hend] at hspelled
  exact List.cons_ne_nil c tail (List.prefix_nil.mp hspelled)

theorem position_ne (h : DecomposesFrom p cs ts) (hrest : cs.drop p = c :: rest)
    (hblank : Text.isBlank c) : ∀ t ∈ ts, t.position ≠ p := by
  rintro t ht rfl
  obtain ⟨d, tail, htext, hd⟩ := (h.taken t ht).exists_cons
  have hspelled := (h.taken t ht).spelled
  rw [htext, hrest, List.cons_prefix_cons] at hspelled
  rw [hspelled.1, hblank] at hd
  cases hd

/-- A blank at the start belongs to no token. -/
theorem of_blank (h : DecomposesFrom p cs ts) (hrest : cs.drop p = c :: rest)
    (hblank : Text.isBlank c) : DecomposesFrom (p + 1) cs ts where
  le_position t ht :=
    Nat.lt_of_le_of_ne (h.le_position t ht) (h.position_ne hrest hblank t ht).symm
  apart := h.apart
  taken := h.taken
  blank i d hi hd houtside := h.blank i d (Nat.le_of_succ_le hi) hd houtside

theorem position_lt_stop (h : DecomposesFrom p cs ts) : ∀ t ∈ ts, t.position < t.stop := by
  intro t ht
  obtain ⟨c, tail, htext, -⟩ := (h.taken t ht).exists_cons
  rw [Token.stop, Token.text, htext, List.length_cons]
  omega

/-- What follows the first token. -/
theorem tail (h : DecomposesFrom p cs (t :: ts)) : DecomposesFrom t.stop cs ts where
  le_position := (List.pairwise_cons.mp h.apart).1
  apart := (List.pairwise_cons.mp h.apart).2
  taken u hu := h.taken u (List.mem_cons_of_mem t hu)
  blank i c hi hc houtside := by
    have hle := h.le_position t List.mem_cons_self
    have hlt := h.position_lt_stop t List.mem_cons_self
    refine h.blank i c (by omega) hc (List.forall_mem_cons.mpr ⟨fun hinside => ?_, houtside⟩)
    omega

/-- A character at the start that is not blank belongs to the first token. -/
theorem exists_first (h : DecomposesFrom p cs ts) (hrest : cs.drop p = c :: rest)
    (hblank : ¬Text.isBlank c) :
    ∃ l us, ts = ⟨l, p⟩ :: us ∧ Taken l (cs.drop p) ∧
      DecomposesFrom (p + l.text.toList.length) cs us := by
  have hp : cs[p]? = some c := by
    rw [← Nat.add_zero p, ← List.getElem?_drop, hrest, List.getElem?_cons_zero]
  obtain ⟨t, ht, hinside⟩ : ∃ t ∈ ts, t.position ≤ p ∧ p < t.stop := by
    by_contra hnone
    exact hblank (h.blank p c (Nat.le_refl p) hp fun t ht hinside => hnone ⟨t, ht, hinside⟩)
  have hposition : t.position = p := Nat.le_antisymm hinside.1 (h.le_position t ht)
  obtain ⟨l, position⟩ := t
  obtain rfl : position = p := hposition
  cases ts with
  | nil => cases ht
  | cons u us =>
      rcases List.mem_cons.mp ht with rfl | ht
      · exact ⟨l, us, rfl, h.taken _ List.mem_cons_self, h.tail⟩
      · have hstop := h.tail.le_position _ ht
        have hlt := h.position_lt_stop u List.mem_cons_self
        have hle := h.le_position u List.mem_cons_self
        dsimp only at hstop
        omega

/-- A scan finds any decomposition. -/
theorem scans {p : Nat} {ts : List Token} (h : DecomposesFrom p cs ts) :
    Scans p (cs.drop p) ts := by
  cases hrest : cs.drop p with
  | nil =>
      rw [h.eq_nil hrest]
      exact .nil
  | cons c rest =>
      have hp : p < cs.length := by
        by_contra hge
        rw [List.drop_eq_nil_iff.mpr (Nat.le_of_not_lt hge)] at hrest
        cases hrest
      by_cases hblank : Text.isBlank c
      · have hnext := (h.of_blank hrest hblank).scans
        rw [← List.drop_drop, hrest] at hnext
        exact .blank hblank hnext
      · obtain ⟨l, us, rfl, hl, hus⟩ := h.exists_first hrest hblank
        obtain ⟨d, tail, htext, -⟩ := hl.exists_cons
        have hlength : 0 < l.text.toList.length := by rw [htext]; exact Nat.succ_pos _
        have hnext := hus.scans
        rw [← List.drop_drop] at hnext
        rw [← hrest]
        exact hl.scans hnext
termination_by cs.length - p

end DecomposesFrom

theorem decomposes_iff_scan {cs : List Char} {ts : List Token} :
    Decomposes cs ts ↔ scan 0 cs = .ok ts := by
  rw [scan_eq_ok_iff]
  exact ⟨fun h => h.scans, fun h => decomposesFrom_of_scans h rfl⟩

theorem isForeign_eq_false_iff {c : Char} :
    isForeign c = false ↔ Text.isBlank c ∨ inAlphabet c := by
  cases hblank : Text.isBlank c <;> simp [isForeign, hblank]

/-- The text consists of blanks and characters of the alphabet, and the tokens are its
decomposition. -/
theorem tokenize_eq_ok_iff_and_decomposes {text : String} {ts : List Token} :
    tokenize text = .ok ts ↔
      (∀ c ∈ text.toList, Text.isBlank c ∨ inAlphabet c) ∧ Decomposes text.toList ts := by
  rw [tokenize_eq_ok_iff, decomposes_iff_scan, scan_eq_ok_iff]
  simp only [isForeign_eq_false_iff]

/-- **A text is cut into its longest lexemes.** It has tokens exactly if it consists of characters
of the alphabet and blanks and has a decomposition, of which there is only one; its tokens are this
decomposition. In every other case there is a fault. -/
theorem tokenize_eq_ok_iff_decomposes (text : String) :
    (∀ ts, tokenize text = .ok ts ↔
      (∀ c ∈ text.toList, Text.isBlank c ∨ inAlphabet c) ∧ Decomposes text.toList ts) ∧
    (∀ ts us, Decomposes text.toList ts → Decomposes text.toList us → ts = us) ∧
    ((∃ fault, tokenize text = .error fault) ↔
      ¬∃ ts, (∀ c ∈ text.toList, Text.isBlank c ∨ inAlphabet c) ∧ Decomposes text.toList ts) := by
  refine ⟨fun ts => tokenize_eq_ok_iff_and_decomposes, fun ts us hts hus => ?_, ?_⟩
  · rw [decomposes_iff_scan] at hts hus
    exact Except.ok.inj (hts.symm.trans hus)
  · simp only [← tokenize_eq_ok_iff_and_decomposes]
    cases tokenize text <;> simp

example : (tokenize "2e+.5e3X_1").map lexemes =
    .ok [.number "2", .name "e", .operator .add, .number ".5e3", .name "X_1"] := by decide +kernel

end Formula
end PhasePortrait
