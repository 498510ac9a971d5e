import Mathlib.Data.List.Chain
import PhasePortrait.Proofs.Grammar.Derivation
import PhasePortrait.Proofs.Lexer.Numeral
import PhasePortrait.Proofs.Lexer.Scan

/-!
# Lexemes written one after the other

A list of lexemes is read back from its text unless two of them run together, which only numbers and
words do (`exists_tokenize`). No blanks are needed to keep the others apart.
-/
namespace PhasePortrait.Formula
open Number

/-- A letter, and letters, digits and underscores after it. -/
def Word (cs : List Char) : Prop := ∃ c rest, cs = c :: rest ∧ c.isAlpha ∧ ∀ d ∈ rest, isNameChar d

/-- The text of a lexeme is one that a scan takes. -/
def Spellable : Lexeme → Prop
  | .number text => Numeral text.toList
  | .name text => Word text.toList
  | _ => True

/-- Numbers and words go on with what follows them, if they can. -/
def goesOn : Lexeme → Bool
  | .number _ | .name _ => true
  | _ => false

/-- The characters of the lexemes. -/
def spelling (ls : List Lexeme) : List Char := ls.flatMap (·.text.toList)

@[simp] theorem spelling_nil : spelling [] = [] := rfl
@[simp] theorem spelling_cons (l : Lexeme) (ls : List Lexeme) :
    spelling (l :: ls) = l.text.toList ++ spelling ls := rfl
@[simp] theorem spelling_append (ls rs : List Lexeme) :
    spelling (ls ++ rs) = spelling ls ++ spelling rs := List.flatMap_append

theorem exists_mark {l : Lexeme} (h : goesOn l = false) :
    ∃ c, l.text.toList = [c] ∧ punctuation? c = some l := by
  cases l with
  | number _ => cases h
  | name _ => cases h
  | operator o => exact ⟨o.symbol, by cases o <;> rfl, by cases o <;> rfl⟩
  | leftParen => exact ⟨'(', rfl, rfl⟩
  | rightParen => exact ⟨')', rfl, rfl⟩
  | comma => exact ⟨',', rfl, rfl⟩

theorem breaks_of_punctuation {c : Char} {l : Lexeme} (h : punctuation? c = some l)
    (cs : List Char) : Breaks (c :: cs) := by
  rintro _ ⟨⟩
  have hall : marks.all fun c => !isNameChar c && c != '.' := by decide
  simpa using of_marks hall h

theorem breaks_spelling {ls : List Lexeme} (h : ∀ l ∈ ls.head?, goesOn l = false) :
    Breaks (spelling ls) := by
  cases ls with
  | nil => exact nofun
  | cons l ls =>
      obtain ⟨c, hc, hmark⟩ := exists_mark (h l rfl)
      rw [spelling_cons, hc]
      exact breaks_of_punctuation hmark _

/-- Neighbours that do not run together. -/
def Apart (a b : Lexeme) : Prop := goesOn a → goesOn b = false

theorem exists_startsNumber {cs : List Char} (h : Numeral cs) :
    ∃ c tail, cs = c :: tail ∧ ∀ rest, StartsNumber c (tail ++ rest) := by
  obtain ⟨m, x, rfl, hm, -⟩ := h
  cases hm with
  | whole hne hds =>
      obtain ⟨d, ds, rfl⟩ := List.exists_cons_of_ne_nil hne
      exact ⟨d, ds ++ x, rfl, fun _ => .inl (hds d List.mem_cons_self)⟩
  | @fraction ds es hne hds hes =>
      cases ds with
      | nil =>
          have hdigit := startsWithDigit_of_digits (hne.resolve_left (fun h => h rfl)) hes
          refine ⟨'.', es ++ x, rfl, fun rest => .inr ⟨rfl, ?_⟩⟩
          rw [List.append_assoc]
          exact hdigit (x ++ rest)
      | cons d ds =>
          exact ⟨d, ds ++ '.' :: es ++ x, by simp, fun _ => .inl (hds d List.mem_cons_self)⟩

theorem scans_numeral {p : Nat} {cs rest : List Char} {ts : List Token} (hcs : Numeral cs)
    (hrest : Breaks rest) (h : Scans (p + cs.length) rest ts) :
    Scans p (cs ++ rest) (⟨.number (String.ofList cs), p⟩ :: ts) := by
  have hsplit := splitNumber_of_numeral hcs hrest
  obtain ⟨c, tail, rfl, hstart⟩ := exists_startsNumber hcs
  rw [List.cons_append] at hsplit ⊢
  have hscans : Scans (p + (splitNumber (c :: (tail ++ rest))).1.length)
      (splitNumber (c :: (tail ++ rest))).2 ts := by rwa [hsplit]
  have hnumber := Scans.number (hstart rest) hscans
  rwa [hsplit] at hnumber

theorem scans_word {p : Nat} {c : Char} {tail rest : List Char} {ts : List Token} (hc : c.isAlpha)
    (htail : ∀ d ∈ tail, isNameChar d) (hrest : Breaks rest)
    (h : Scans (p + 1 + tail.length) rest ts) :
    Scans p (c :: tail ++ rest) (⟨.name (String.ofList (c :: tail)), p⟩ :: ts) := by
  have hstop : ∀ d ∈ rest.head?, isNameChar d = false := fun d hd => (hrest d hd).1
  have htake := takeWhile_append_of_stop htail hstop
  have hdrop := dropWhile_append_of_stop htail hstop
  have hscans : Scans (p + 1 + ((tail ++ rest).takeWhile isNameChar).length)
      ((tail ++ rest).dropWhile isNameChar) ts := by rwa [htake, hdrop]
  have hname := Scans.name hc hscans
  rwa [htake] at hname

theorem exists_scans {ls : List Lexeme} (hls : ∀ l ∈ ls, Spellable l) (hapart : ls.IsChain Apart)
    (p : Nat) : ∃ ts, Scans p (spelling ls) ts ∧ lexemes ts = ls := by
  induction ls generalizing p with
  | nil => exact ⟨[], .nil, rfl⟩
  | cons l ls ih =>
      have hl := hls l List.mem_cons_self
      obtain ⟨hnext, hchain⟩ := List.isChain_cons.mp hapart
      have hrest := ih (fun l' hl' => hls l' (List.mem_cons_of_mem _ hl')) hchain
      have hbreaks (hopen : goesOn l) : Breaks (spelling ls) :=
        breaks_spelling fun l' hl' => hnext l' hl' hopen
      rw [spelling_cons]
      by_cases hopen : goesOn l
      · cases l with
        | number text =>
            obtain ⟨ts, hts, rfl⟩ := hrest (p + text.toList.length)
            have hscans := scans_numeral hl (hbreaks rfl) hts
            rw [String.ofList_toList] at hscans
            exact ⟨_, hscans, rfl⟩
        | name text =>
            obtain ⟨c, tail, htext, hc, htail⟩ := hl
            obtain ⟨ts, hts, rfl⟩ := hrest (p + 1 + tail.length)
            have hscans := scans_word hc htail (hbreaks rfl) hts
            rw [← htext, String.ofList_toList] at hscans
            exact ⟨_, hscans, rfl⟩
        | _ => cases hopen
      · obtain ⟨c, hc, hmark⟩ := exists_mark (by simpa using hopen)
        obtain ⟨ts, hts, rfl⟩ := hrest (p + 1)
        rw [hc]
        exact ⟨⟨l, p⟩ :: ts, .mark hmark hts, rfl⟩

/-! ## Every character belongs to the alphabet -/

theorem inAlphabet_of_isNameChar {c : Char} (h : isNameChar c) : inAlphabet c := by
  rcases Bool.or_eq_true_iff.mp h with h | h <;> simp [inAlphabet, h]

theorem isNameChar_of_isAlphanum {c : Char} (h : c.isAlphanum) : isNameChar c :=
  Bool.or_eq_true_iff.mpr (.inl h)

theorem inAlphabet_of_isDigit {c : Char} (h : c.isDigit) : inAlphabet c :=
  inAlphabet_of_isNameChar (isNameChar_of_isAlphanum (isAlphanum_of_isDigit h))

theorem inAlphabet_of_punctuation {c : Char} {l : Lexeme} (h : punctuation? c = some l) :
    inAlphabet c :=
  of_marks (p := inAlphabet) (by decide) h

theorem inAlphabet_of_mantissa {cs : List Char} (h : Mantissa cs) : ∀ c ∈ cs, inAlphabet c := by
  cases h with
  | whole _ hds => exact fun c hc => inAlphabet_of_isDigit (hds c hc)
  | fraction _ hds hes =>
      intro c hc
      rcases List.mem_append.mp hc with hc | hc
      · exact inAlphabet_of_isDigit (hds c hc)
      · rcases List.mem_cons.mp hc with rfl | hc
        · rfl
        · exact inAlphabet_of_isDigit (hes c hc)

theorem inAlphabet_of_exponent {cs : List Char} (h : Exponent cs) : ∀ c ∈ cs, inAlphabet c := by
  have hmarks : ['e', 'E'].all inAlphabet := by decide
  have hsigns : ['+', '-'].all inAlphabet := by decide
  cases h with
  | none => exact nofun
  | unsigned hmark _ hds =>
      rintro c (_ | ⟨_, hc⟩)
      · exact List.all_eq_true.mp hmarks _ hmark
      · exact inAlphabet_of_isDigit (hds c hc)
  | signed hmark hsign _ hds =>
      rintro c (_ | ⟨_, _ | ⟨_, hc⟩⟩)
      · exact List.all_eq_true.mp hmarks _ hmark
      · exact List.all_eq_true.mp hsigns _ hsign
      · exact inAlphabet_of_isDigit (hds c hc)

theorem inAlphabet_of_spellable {l : Lexeme} (h : Spellable l) :
    ∀ c ∈ l.text.toList, inAlphabet c := by
  by_cases hopen : goesOn l
  · cases l with
    | number text =>
        obtain ⟨m, x, htext, hm, hx⟩ := h
        rw [Lexeme.text, htext]
        intro c hc
        rcases List.mem_append.mp hc with hc | hc
        · exact inAlphabet_of_mantissa hm c hc
        · exact inAlphabet_of_exponent hx c hc
    | name text =>
        obtain ⟨c, tail, htext, hc, htail⟩ := h
        rw [Lexeme.text, htext]
        rintro d (_ | ⟨_, hd⟩)
        · exact inAlphabet_of_isNameChar (isNameChar_of_isAlphanum (isAlphanum_of_isAlpha hc))
        · exact inAlphabet_of_isNameChar (htail d hd)
    | _ => cases hopen
  · obtain ⟨c, hc, hmark⟩ := exists_mark (by simpa using hopen)
    rw [hc]
    intro d hd
    obtain rfl := List.mem_singleton.mp hd
    exact inAlphabet_of_punctuation hmark

/-- Lexemes are read back from their text. -/
theorem exists_tokenize {text : String} {ls : List Lexeme} (htext : text.toList = spelling ls)
    (hls : ∀ l ∈ ls, Spellable l) (hapart : ls.IsChain Apart) :
    ∃ ts, tokenize text = .ok ts ∧ lexemes ts = ls := by
  obtain ⟨ts, hscans, hlexemes⟩ := exists_scans hls hapart 0
  refine ⟨ts, tokenize_eq_ok_iff.mpr ⟨?_, by rwa [htext]⟩, hlexemes⟩
  rw [htext]
  intro c hc
  obtain ⟨l, hl, hc⟩ := List.mem_flatMap.mp hc
  simp [isForeign, inAlphabet_of_spellable (hls l hl) c hc]

end PhasePortrait.Formula
