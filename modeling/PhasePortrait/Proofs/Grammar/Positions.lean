import PhasePortrait.Proofs.Grammar.FirstRule
import PhasePortrait.Proofs.Grammar.Spacing

/-!
# Faults point at their culprit

A fault that reports a position reports a token with it, and the text spells this token from that position
on, but for blanks (`pointsInto_of_refusal`). The faults of scanning point at a single character. Those of
the rules and of the parser are about tokens: what they report is the text of one token, or of a token and
the next one, with the position of the first (`Fault.PointsAt`). From the position of a token on a text is,
without its blanks, the spelling of that token and of those behind it (`unspaced_drop`), which turns the one
into the other.

## Main definitions

* `unspaced cs` — the characters `cs` without blanks.
* `Fault.PointsInto text fault` — the position of the fault, if it has one, is where its token stands.
* `Fault.PointsAt ts fault` — likewise among tokens.
-/
namespace PhasePortrait
open Formula

/-- The characters that are not blank. -/
def Text.unspaced (cs : List Char) : List Char := cs.filter (!isBlank ·)

/-- If a position is reported, a token is reported too. It is not empty, its first character stands at this
position, and the text spells it from there on, but for blanks. -/
def Fault.PointsInto (text : String) (fault : Fault) : Prop :=
  ∀ p, fault.position? = some p → ∃ token, fault.token? = some token ∧ token ≠ "" ∧
    p < text.toList.length ∧ text.toList[p]? = token.toList.head? ∧
    token.toList <+: Text.unspaced (text.toList.drop p)

/-- If a position is reported, it is the one of a token, and the reported token is the text of this one or
of several from this one on. -/
def Fault.PointsAt (ts : List Token) (fault : Fault) : Prop :=
  ∀ p, fault.position? = some p → ∃ token before t us after, fault.token? = some token ∧
    ts = before ++ t :: (us ++ after) ∧ t.position = p ∧ token.toList = spelling (lexemes (t :: us))

namespace Text

@[simp] theorem unspaced_nil : unspaced [] = [] := rfl

theorem unspaced_cons_of_isBlank {c : Char} (h : isBlank c) (cs : List Char) :
    unspaced (c :: cs) = unspaced cs := by
  simp [unspaced, h]

theorem unspaced_cons_of_not_isBlank {c : Char} (h : isBlank c = false) (cs : List Char) :
    unspaced (c :: cs) = c :: unspaced cs := by
  simp [unspaced, h]

theorem unspaced_append_of_not_isBlank {cs : List Char} (h : ∀ c ∈ cs, isBlank c = false)
    (rest : List Char) : unspaced (cs ++ rest) = cs ++ unspaced rest := by
  rw [unspaced, List.filter_append, List.filter_eq_self.mpr fun c hc => by rw [h c hc]; rfl]
  rfl

end Text

namespace Formula
open Text Number

/-! ## A text without its blanks -/

theorem unspaced_of_taken {l : Lexeme} {cs rest : List Char} (h : Taken l cs)
    (happend : l.text.toList ++ rest = cs) :
    unspaced cs = l.text.toList ++ unspaced rest := by
  rw [← happend]
  exact unspaced_append_of_not_isBlank
    (fun c hc => not_isBlank_of_inAlphabet (inAlphabet_of_ofKind h.formed c hc)) rest

/-- The tokens of a text spell it, but for blanks. -/
theorem unspaced_of_scans {p : ℕ} {cs : List Char} {ts : List Token} (h : Scans p cs ts) :
    unspaced cs = spelling (lexemes ts) := by
  induction h with
  | nil => rfl
  | blank hblank _ ih => rw [unspaced_cons_of_isBlank hblank, ih]
  | @number p c cs ts hnumber _ ih =>
      have happend : (Lexeme.number (String.ofList (splitNumber (c :: cs)).1)).text.toList ++
          (splitNumber (c :: cs)).2 = c :: cs := by
        rw [Lexeme.text, String.toList_ofList, splitNumber_append]
      rw [unspaced_of_taken (taken_number hnumber) happend, ih]
      rfl
  | @name p c cs ts halpha _ ih =>
      have happend : (Lexeme.name (String.ofList (c :: cs.takeWhile isNameChar))).text.toList ++
          cs.dropWhile isNameChar = c :: cs := by
        rw [Lexeme.text, String.toList_ofList, List.cons_append, List.takeWhile_append_dropWhile]
      rw [unspaced_of_taken (taken_name cs halpha) happend, ih]
      rfl
  | @mark p c cs l ts hmark _ ih =>
      have happend : l.text.toList ++ cs = c :: cs := by
        rw [(text_of_punctuation hmark).1, List.singleton_append]
      rw [unspaced_of_taken (taken_mark hmark cs) happend, ih]
      rfl

namespace DecomposesFrom
variable {p : ℕ} {cs : List Char} {t : Token} {before after : List Token}

/-- The tokens from some token on are those of the text from its position on. -/
theorem behind (h : DecomposesFrom p cs (before ++ t :: after)) :
    DecomposesFrom t.position cs (t :: after) := by
  induction before generalizing p with
  | nil =>
      obtain ⟨hapart, -⟩ := List.pairwise_cons.mp h.apart
      have hp := h.le_position t List.mem_cons_self
      refine ⟨List.forall_mem_cons.mpr ⟨Nat.le_refl _, fun u hu => ?_⟩, h.apart, h.taken,
        fun i c hi => h.blank i c (Nat.le_trans hp hi)⟩
      exact Nat.le_trans (Nat.le_add_right _ _) (hapart u hu)
  | cons u before ih => exact ih h.tail

theorem unspaced_drop (h : DecomposesFrom p cs (before ++ t :: after)) :
    unspaced (cs.drop t.position) = spelling (lexemes (t :: after)) :=
  unspaced_of_scans h.behind.scans

end DecomposesFrom

theorem pointsInto_of_no_position {text : String} {fault : Fault} (h : fault.position? = none) :
    fault.PointsInto text := by
  intro p hp
  rw [h] at hp
  cases hp

/-- A fault that points at tokens of a text points into the text. -/
theorem pointsInto_of_pointsAt {text : String} {ts : List Token} {fault : Fault}
    (htokens : tokenize text = .ok ts) (h : fault.PointsAt ts) : fault.PointsInto text := by
  intro p hp
  obtain ⟨token, before, t, us, after, htoken, rfl, rfl, hspelled⟩ := h p hp
  obtain ⟨-, hdecomposes⟩ := tokenize_eq_ok_iff_and_decomposes.mp htokens
  have htaken := hdecomposes.taken t (by simp)
  obtain ⟨c, tail, htext, -⟩ := htaken.exists_cons
  have hhead : token.toList = c :: (tail ++ spelling (lexemes us)) := by
    rw [hspelled, lexemes_cons, spelling_cons, htext, List.cons_append]
  have hat : text.toList[t.position]? = some c := by
    obtain ⟨rest, hrest⟩ := htaken.spelled
    rw [← Nat.add_zero t.position, ← List.getElem?_drop, ← hrest, htext]
    rfl
  refine ⟨token, htoken, ?_, ?_, ?_, ?_⟩
  · rintro rfl
    cases hhead
  · exact (List.getElem?_eq_some_iff.mp hat).1
  · rw [hat, hhead]
    rfl
  · rw [hspelled, hdecomposes.unspaced_drop, ← List.cons_append, lexemes_append, spelling_append]
    exact List.prefix_append _ _

/-! ## Faults of scanning -/

/-- A fault that is about the character at a position points into the text. -/
theorem pointsInto_of_character {text : String} {fault : Fault} {p : ℕ} {c : Char}
    (hposition : fault.position? = some p) (htoken : fault.token? = some c.toString)
    (hc : text.toList[p]? = some c) (hblank : isBlank c = false) : fault.PointsInto text := by
  intro q hq
  obtain rfl : p = q := Option.some.inj (hposition.symm.trans hq)
  obtain ⟨hlt, hget⟩ := List.getElem?_eq_some_iff.mp hc
  have hchars : c.toString.toList = [c] := String.toList_singleton c
  refine ⟨c.toString, htoken, ?_, hlt, ?_, ?_⟩
  · intro hnil
    rw [hnil] at hchars
    cases hchars
  · rw [hc, hchars]
    rfl
  · rw [hchars, List.drop_eq_getElem_cons hlt, hget, unspaced_cons_of_not_isBlank hblank]
    exact List.prefix_append [c] _

/-- What is reported is a character, which is not blank, of a text that starts at a position. -/
def NamesCharacter (p : ℕ) (cs : List Char) (fault : Fault) : Prop :=
  ∃ i c, fault.position? = some (p + i) ∧ fault.token? = some c.toString ∧ cs[i]? = some c ∧
    isBlank c = false

theorem NamesCharacter.append {p : ℕ} {taken rest cs : List Char} {fault : Fault}
    (happend : taken ++ rest = cs) (h : NamesCharacter (p + taken.length) rest fault) :
    NamesCharacter p cs fault := by
  obtain ⟨i, c, hposition, htoken, hc, hblank⟩ := h
  refine ⟨taken.length + i, c, by rw [hposition, Nat.add_assoc], htoken, ?_, hblank⟩
  rw [← happend, List.getElem?_append_right (Nat.le_add_right _ _), Nat.add_sub_cancel_left, hc]

theorem namesCharacter_cons {p : ℕ} {c : Char} {cs : List Char} {fault : Fault}
    (hposition : fault.position? = some p) (htoken : fault.token? = some c.toString)
    (hblank : isBlank c = false) : NamesCharacter p (c :: cs) fault :=
  ⟨0, c, hposition, htoken, rfl, hblank⟩

/-- A scan stops at a single character. -/
theorem namesCharacter_of_scan {p : ℕ} {cs : List Char} {fault : Fault}
    (h : scan p cs = .error fault) : NamesCharacter p cs fault := by
  induction p, cs using scan.induct with
  | case1 p =>
      rw [scan] at h
      cases h
  | case2 p c cs hblank ih =>
      rw [scan_of_isBlank hblank] at h
      exact (ih h).append (List.singleton_append (x := c))
  | case3 p c cs hblank hnumber hdot =>
      rw [scan, if_neg hblank, dif_pos hnumber, if_pos hdot] at h
      cases h
      obtain ⟨rfl, -⟩ : c = '.' ∧ _ := by simpa using hdot
      exact namesCharacter_cons rfl rfl (by simpa using hblank)
  | case4 p c cs hblank hnumber hdot _ _ ih =>
      rw [scan_of_startsNumber (startsNumber_of_tests hnumber hdot)] at h
      exact (ih (exists_error_of_map h)).append (splitNumber_append (c :: cs))
  | case5 p c cs hblank hnumber halpha _ _ ih =>
      rw [scan_of_isAlpha halpha] at h
      have hrest := ih (exists_error_of_map h)
      rw [Nat.add_assoc, Nat.add_comm 1, ← List.length_cons (a := c)] at hrest
      exact hrest.append (congrArg (c :: ·) List.takeWhile_append_dropWhile)
  | case6 p c cs hblank hnumber halpha l hmark ih =>
      rw [scan_of_punctuation hmark] at h
      exact (ih (exists_error_of_map h)).append (List.singleton_append (x := c))
  | case7 p c cs hblank hnumber halpha hmark =>
      rw [scan, if_neg hblank, dif_neg hnumber, if_neg halpha, hmark] at h
      cases h
      exact namesCharacter_cons rfl rfl (by simpa using hblank)

theorem pointsInto_of_tokenize {text : String} {fault : Fault} (h : tokenize text = .error fault) :
    fault.PointsInto text := by
  rw [tokenize] at h
  split at h
  · next first others hforeign =>
      cases h
      have hfirst : first ∈ text.toList.filter isForeign :=
        List.mem_eraseDups.mp (by rw [← foreignCharacters, hforeign]; exact List.mem_cons_self)
      obtain ⟨hmem, hout⟩ := List.mem_filter.mp hfirst
      have hblank : isBlank first = false := by
        simp only [isForeign, Bool.and_eq_true, Bool.not_eq_true'] at hout
        exact hout.1
      exact pointsInto_of_character rfl rfl (List.getElem?_idxOf hmem) hblank
  · obtain ⟨i, c, hposition, htoken, hc, hblank⟩ := namesCharacter_of_scan h
    rw [Nat.zero_add] at hposition
    exact pointsInto_of_character hposition htoken hc hblank

/-! ## Faults among tokens -/

section
variable {ts : List Token} {fault : Fault}

theorem pointsAt_of_no_position (h : fault.position? = none) : fault.PointsAt ts := by
  intro p hp
  rw [h] at hp
  cases hp

/-- A fault that names one token. -/
theorem pointsAt_of_mem {t : Token} (ht : t ∈ ts) (hposition : fault.position? = some t.position)
    (htoken : fault.token? = some t.text) : fault.PointsAt ts := by
  intro p hp
  obtain ⟨before, after, rfl⟩ := List.append_of_mem ht
  refine ⟨t.text, before, t, [], after, htoken, rfl, Option.some.inj (hposition.symm.trans hp), ?_⟩
  exact (List.append_nil _).symm

theorem exists_of_seam {a b : Token} (h : Seam ts (some a) (some b)) :
    ∃ before after, ts = before ++ a :: b :: after := by
  obtain ⟨before, after, rfl, hlast, hhead⟩ := h
  obtain ⟨before, rfl⟩ := List.getLast?_eq_some_iff.mp hlast
  obtain ⟨after, rfl⟩ := List.head?_eq_some_iff.mp hhead
  exact ⟨before, after, by simp⟩

/-- A fault that names two neighbouring tokens. -/
theorem pointsAt_of_neighbours {a b : Token} (h : (a, b) ∈ neighbours ts)
    (hposition : fault.position? = some a.position)
    (htoken : fault.token? = some (a.text ++ b.text)) : fault.PointsAt ts := by
  intro p hp
  obtain ⟨before, after, rfl⟩ := exists_of_seam (mem_neighbours.mp h)
  refine ⟨a.text ++ b.text, before, a, [b], after, htoken, rfl,
    Option.some.inj (hposition.symm.trans hp), ?_⟩
  simp [Token.text]

theorem pointsAt_orElse {o o' : Option Fault} (h : ∀ fault ∈ o, fault.PointsAt ts)
    (h' : ∀ fault ∈ o', fault.PointsAt ts) : ∀ fault ∈ (o <|> o'), fault.PointsAt ts := by
  cases o with
  | some fault => exact h
  | none => exact h'

theorem pointsAt_findSome {α : Type} {xs : List α} {f : α → Option Fault}
    (h : ∀ x ∈ xs, ∀ fault ∈ f x, fault.PointsAt ts) :
    ∀ fault ∈ xs.findSome? f, fault.PointsAt ts := by
  intro fault hfault
  obtain ⟨x, hx, hf⟩ := List.exists_of_findSome?_eq_some hfault
  exact h x hx fault hf

theorem pointsAt_of_balanceFault {depth : ℕ} : ∀ fault ∈ balanceFault depth ts, fault.PointsAt ts := by
  intro fault h
  suffices (∃ n, fault = .unmatchedLeft n) ∨
      ∃ q, fault = .unmatchedRight q ∧ ⟨.rightParen, q⟩ ∈ ts by
    rcases this with ⟨n, rfl⟩ | ⟨q, rfl, hq⟩
    · exact pointsAt_of_no_position rfl
    · exact pointsAt_of_mem hq rfl rfl
  induction ts generalizing depth with
  | nil =>
      cases depth <;> cases h
      exact .inl ⟨_, rfl⟩
  | cons t ts ih =>
      have hrest {d : ℕ} (h : balanceFault d ts = some fault) :
          (∃ n, fault = .unmatchedLeft n) ∨ ∃ q, fault = .unmatchedRight q ∧ ⟨.rightParen, q⟩ ∈ t :: ts :=
        (ih h).imp_right fun ⟨q, hfault, hq⟩ => ⟨q, hfault, List.mem_cons_of_mem t hq⟩
      obtain ⟨l, position⟩ := t
      cases l with
      | leftParen =>
          rw [balanceFault_leftParen] at h
          exact hrest h
      | rightParen =>
          cases depth with
          | zero =>
              cases h
              exact .inr ⟨position, rfl, List.mem_cons_self⟩
          | succ depth =>
              rw [balanceFault_rightParen] at h
              exact hrest h
      | _ =>
          rw [balanceFault_plain _ (by simp [Plain])] at h
          exact hrest h

theorem pointsAt_of_emptyParenthesesAt {pair : Token × Token} (h : pair ∈ neighbours ts) :
    ∀ fault ∈ emptyParenthesesAt pair, fault.PointsAt ts := by
  intro fault hfault
  unfold emptyParenthesesAt at hfault
  split at hfault <;> cases hfault
  exact pointsAt_of_neighbours h rfl rfl

theorem pointsAt_of_doubledAt {pair : Token × Token} (h : pair ∈ neighbours ts) :
    ∀ fault ∈ doubledAt pair, fault.PointsAt ts := by
  intro fault hfault
  unfold doubledAt at hfault
  split at hfault
  · split at hfault
    · next heq =>
      cases hfault
      obtain ⟨rfl, -⟩ := heq
      exact pointsAt_of_neighbours h rfl rfl
    · cases hfault
  · cases hfault

theorem pointsAt_of_consecutiveAt {pair : Token × Token} (h : pair ∈ neighbours ts) :
    ∀ fault ∈ consecutiveAt pair, fault.PointsAt ts := by
  intro fault hfault
  unfold consecutiveAt at hfault
  split at hfault
  · split at hfault <;> cases hfault
    exact pointsAt_of_neighbours h rfl rfl
  · cases hfault

theorem pointsAt_of_leadingAt {pair : Option Token × Token} (h : pair.2 ∈ ts) :
    ∀ fault ∈ leadingAt pair, fault.PointsAt ts := by
  intro fault hfault
  unfold leadingAt at hfault
  split at hfault
  · split at hfault <;> cases hfault
    exact pointsAt_of_mem h rfl rfl
  · cases hfault

theorem pointsAt_of_trailingAt {pair : Token × Option Token} (h : pair.1 ∈ ts) :
    ∀ fault ∈ trailingAt pair, fault.PointsAt ts := by
  intro fault hfault
  unfold trailingAt at hfault
  split at hfault
  · split at hfault <;> cases hfault
    exact pointsAt_of_mem h rfl rfl
  · cases hfault

theorem pointsAt_of_shapeFault : ∀ fault ∈ shapeFault ts, fault.PointsAt ts := by
  have hlength : ∀ fault ∈ lengthFault ts, fault.PointsAt ts := by
    intro fault hfault
    unfold lengthFault at hfault
    split at hfault <;> cases hfault
    exact pointsAt_of_no_position rfl
  refine pointsAt_orElse hlength (pointsAt_orElse ?_ ?_)
  · exact pointsAt_orElse pointsAt_of_balanceFault
      (pointsAt_findSome fun _ h => pointsAt_of_emptyParenthesesAt h)
  · exact pointsAt_orElse (pointsAt_findSome fun _ h => pointsAt_of_doubledAt h)
      (pointsAt_orElse (pointsAt_findSome fun _ h => pointsAt_of_leadingAt (List.of_mem_zip h).2)
        (pointsAt_orElse (pointsAt_findSome fun _ h => pointsAt_of_trailingAt (List.of_mem_zip h).1)
          (pointsAt_findSome fun _ h => pointsAt_of_consecutiveAt h)))

theorem pointsAt_of_scopeFault {s : Scope} : ∀ fault ∈ scopeFault s, fault.PointsAt ts := by
  refine pointsAt_orElse (pointsAt_findSome fun name _ fault hfault => ?_)
    (pointsAt_findSome fun name _ fault hfault => ?_)
  · unfold declaredNameFault at hfault
    split at hfault
    · cases hfault
      exact pointsAt_of_no_position rfl
    · split at hfault <;> cases hfault
      exact pointsAt_of_no_position rfl
  · split at hfault <;> cases hfault
    exact pointsAt_of_no_position rfl

/-- A loose word is one of the tokens. -/
theorem mem_of_looseWords {names : List String} {name : String} {p : ℕ}
    (h : (name, p) ∈ looseWords names ts) : ⟨.name name, p⟩ ∈ ts := by
  obtain ⟨⟨name', p', called⟩, hword, hloose⟩ := List.mem_filterMap.mp h
  dsimp only at hloose
  split at hloose <;> cases hloose
  obtain ⟨next, hseam, -⟩ := mem_words.mp hword
  exact (List.of_mem_zip (mem_zip_next.mpr hseam)).1

theorem pointsAt_of_wordsFault {s : Scope} : ∀ fault ∈ wordsFault s ts, fault.PointsAt ts := by
  refine pointsAt_orElse (pointsAt_findSome fun word hword fault hfault => ?_)
    (pointsAt_orElse (fun fault hfault => ?_) fun fault hfault => ?_)
  · obtain ⟨name, p⟩ := word
    dsimp only [bareFunctionAt] at hfault
    split at hfault <;> cases hfault
    exact pointsAt_of_mem (mem_of_looseWords hword) rfl rfl
  · unfold unknownCallsFault at hfault
    split at hfault <;> cases hfault
    exact pointsAt_of_no_position rfl
  · unfold looseFault at hfault
    dsimp only at hfault
    split at hfault <;> cases hfault <;> exact pointsAt_of_no_position rfl

/-! ## Faults of parsing -/

/-- The word that a cursor stands behind is the last token. -/
theorem mem_of_walk {g : Grammar} {c : Cursor} {before : List Token} {name : String} {q : ℕ}
    (h : Cursor.walk g .start before = .ok c) (hmode : c.mode = .word name q) :
    ⟨.name name, q⟩ ∈ before := by
  obtain ⟨outer, rfl⟩ := exists_of_modeAfter_eq_word ((mode_eq_of_walk h).symm.trans hmode)
  simp

/-- The word of an innermost open call is one of the tokens. -/
theorem Openings.mem {f : Function} {begun : ℕ} {name : String} {q : ℕ} {fs : List Frame}
    {before : List Token} (h : Openings (.call f begun name q :: fs) before) :
    ⟨.name name, q⟩ ∈ before := by
  cases h with
  | call => simp

theorem pointsAt_of_parse {names : List String} (h : parse names ts = .error fault) :
    fault.PointsAt ts := by
  have hrun : Cursor.run (.ofNames names) .start ts = .error fault := by
    rw [run_start, ← parse, h]
    rfl
  obtain ⟨before, after, c, rfl, hwalk, hrefuses⟩ := exists_refuses hrun
  generalize hnext : after.head? = next at hrefuses
  cases hrefuses with
  | token _ =>
      exact pointsAt_of_mem (List.mem_append_right _ (List.mem_of_head? hnext)) rfl rfl
  | ending _ => exact pointsAt_of_no_position rfl
  | unknown _ =>
      exact pointsAt_of_mem (List.mem_append_left _ (mem_of_walk hwalk rfl)) rfl rfl
  | callee _ =>
      exact pointsAt_of_mem (List.mem_append_left _ (mem_of_walk hwalk rfl)) rfl rfl
  | count _ =>
      exact pointsAt_of_mem (List.mem_append_left _ (openings_of_walk hwalk).mem) rfl rfl

end

/-! ## Faults of formulas -/

theorem pointsInto_of_check {text : String} {s : Scope} {fault : Fault}
    (h : check text s = .error fault) : fault.PointsInto text := by
  cases hblank : Text.isBlankText text with
  | true =>
      rw [check, checkShape, hblank] at h
      cases h
      exact pointsInto_of_no_position rfl
  | false =>
      cases htokens : tokenize text with
      | error first =>
          rw [check, checkShape, hblank, htokens] at h
          cases h
          exact pointsInto_of_tokenize htokens
      | ok ts =>
          rw [check_eq hblank htokens] at h
          have hpoints : ∀ fault ∈ (shapeFault ts <|> scopeFault s <|> wordsFault s ts),
              fault.PointsAt ts :=
            pointsAt_orElse pointsAt_of_shapeFault
              (pointsAt_orElse pointsAt_of_scopeFault pointsAt_of_wordsFault)
          split at h <;> cases h
          next hfault => exact pointsInto_of_pointsAt htokens (hpoints fault hfault)

/-- **Faults point at their culprit.** Whatever refuses a formula, its tokens or its parse: a position that
is reported is one of the text, and the token that is reported with it is not empty, starts there, and is
what the text goes on with but for blanks. -/
theorem pointsInto_of_refusal (text : String) (fault : Fault) :
    (tokenize text = .error fault → fault.PointsInto text) ∧
    (∀ s, check text s = .error fault → fault.PointsInto text) ∧
    ∀ names ts, tokenize text = .ok ts → parse names ts = .error fault → fault.PointsInto text :=
  ⟨pointsInto_of_tokenize, fun _ => pointsInto_of_check, fun _ _ htokens hparse =>
    pointsInto_of_pointsAt htokens (pointsAt_of_parse hparse)⟩

/-- The operators in `X ^ -Y` are reported as one token, and the call in `1-sin(X,Y)` as its word. -/
theorem pointsInto_of_refusal_blank :
    (check "X ^ -Y" .planar = .error (.consecutiveOperators .pow .sub 2) ∧
      (Fault.consecutiveOperators .pow .sub 2).PointsInto "X ^ -Y") ∧
    (parse ["X", "Y"] [⟨.number "1", 0⟩, ⟨.operator .sub, 1⟩, ⟨.name "sin", 2⟩, ⟨.leftParen, 5⟩,
        ⟨.name "X", 6⟩, ⟨.comma, 7⟩, ⟨.name "Y", 8⟩, ⟨.rightParen, 9⟩] =
        .error (.wrongArity .sin 2 "sin" 2) ∧
      (Fault.wrongArity .sin 2 "sin" 2).PointsInto "1-sin(X,Y)") := by
  have hcheck : check "X ^ -Y" .planar = .error (.consecutiveOperators .pow .sub 2) := by
    decide +kernel
  have hparse : parse ["X", "Y"] [⟨.number "1", 0⟩, ⟨.operator .sub, 1⟩, ⟨.name "sin", 2⟩,
      ⟨.leftParen, 5⟩, ⟨.name "X", 6⟩, ⟨.comma, 7⟩, ⟨.name "Y", 8⟩, ⟨.rightParen, 9⟩] =
      .error (.wrongArity .sin 2 "sin" 2) := by
    with_unfolding_all rfl
  exact ⟨⟨hcheck, (pointsInto_of_refusal _ _).2.1 _ hcheck⟩, hparse,
    (pointsInto_of_refusal _ _).2.2 _ _ (by decide +kernel) hparse⟩

end Formula
end PhasePortrait
