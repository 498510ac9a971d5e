import Mathlib.Logic.Relation
import PhasePortrait.Proofs.Grammar.Agreement
import PhasePortrait.Proofs.Lexer.Munch
import PhasePortrait.Proofs.Names.Construction
import PhasePortrait.Proofs.Text.Trimming

/-!
# Blanks between the tokens

Blanks that are put into a text without cutting a token only move the tokens behind them
(`decomposes_pushed`). Nothing but the rule against a doubled operator looks at positions, and it
finds fewer of them the wider a text is spaced. So a formula stays one, with the same tree and the
same compiled line (`compile_of_spaced`). Blanks at the ends of a text are put in this way, too.

## Main definitions

* `Token.pushed i n t` — the token `t`, with `n` characters put in before place `i` of its text.
* `Spaced text text'` — `text'` is `text` with blanks put in at one place, inside no token.
-/
namespace PhasePortrait

/-- A token after so many characters were put in before place `i`. -/
def Token.pushed (i n : Nat) (t : Token) : Token :=
  if i ≤ t.position then ⟨t.lexeme, t.position + n⟩ else t

namespace Token
variable {i n : Nat} {t : Token}

@[simp] theorem lexeme_pushed : (t.pushed i n).lexeme = t.lexeme := by
  rw [pushed]
  split <;> rfl

theorem position_pushed :
    (t.pushed i n).position = if i ≤ t.position then t.position + n else t.position := by
  rw [pushed]
  split <;> rfl

theorem stop_pushed : (t.pushed i n).stop = if i ≤ t.position then t.stop + n else t.stop := by
  rw [stop, position_pushed, text, lexeme_pushed, stop]
  split
  · exact Nat.add_right_comm _ _ _
  · rfl

end Token

namespace Formula

theorem lexemes_pushed (i n : Nat) (ts : List Token) :
    lexemes (ts.map (Token.pushed i n)) = lexemes ts := by
  simp [lexemes]

/-! ## Lexemes stay the longest ones -/

theorem inAlphabet_of_ofKind {l : Lexeme} {cs : List Char} (h : OfKind l cs) :
    ∀ c ∈ cs, inAlphabet c := by
  cases l with
  | number _ =>
    have hspelled := inAlphabet_of_spellable (l := .number (String.ofList cs))
    rw [Spellable, Lexeme.text, String.toList_ofList] at hspelled
    exact hspelled h
  | name _ =>
    have hspelled := inAlphabet_of_spellable (l := .name (String.ofList cs))
    rw [Spellable, Lexeme.text, String.toList_ofList] at hspelled
    exact hspelled h
  | _ =>
    rw [(ofKind_of_not_goesOn rfl cs).mp h]
    exact inAlphabet_of_spellable trivial

theorem not_isBlank_of_inAlphabet {c : Char} (h : inAlphabet c) : Text.isBlank c = false := by
  rcases cases_of_inAlphabet h with h | rfl | rfl | h
  · exact not_isBlank_of_isAlphanum h
  · decide +kernel
  · decide +kernel
  · have hall : marks.all fun c => !Text.isBlank c := by decide +kernel
    simpa using List.all_eq_true.mp hall c h

/-- A prefix without blanks ends before the first blank. -/
theorem prefix_of_prefix_append {ds before blanks after : List Char}
    (hds : ∀ c ∈ ds, Text.isBlank c = false) (hblanks : ∀ c ∈ blanks, Text.isBlank c)
    (h : ds <+: before ++ (blanks ++ after)) : ds <+: before ++ after := by
  cases blanks with
  | nil => exact h
  | cons b blanks =>
    have hshort : ds.length ≤ before.length := by
      by_contra hlong
      have hb : b ∈ ds := by
        rw [List.prefix_iff_getElem?] at h
        have hget := h before.length (by omega)
        rw [List.getElem?_append_right (Nat.le_refl _), Nat.sub_self] at hget
        obtain rfl : b = ds[before.length] := Option.some.inj hget
        exact List.getElem_mem _
      have hblank := hblanks b List.mem_cons_self
      rw [hds b hb] at hblank
      cases hblank
    exact (List.prefix_of_prefix_length_le h (List.prefix_append _ _) hshort).trans
      (List.prefix_append _ _)

/-- Blanks behind a lexeme do not let it go on. -/
theorem Taken.spaced {l : Lexeme} {before blanks after : List Char} (h : Taken l (before ++ after))
    (hlength : l.text.toList.length ≤ before.length) (hblanks : ∀ c ∈ blanks, Text.isBlank c) :
    Taken l (before ++ (blanks ++ after)) where
  formed := h.formed
  spelled := (List.prefix_of_prefix_length_le h.spelled (List.prefix_append _ _) hlength).trans
    (List.prefix_append _ _)
  longest ds hds hbegins := h.longest ds hds
    (prefix_of_prefix_append (fun c hc => not_isBlank_of_inAlphabet (inAlphabet_of_ofKind hds c hc))
      hblanks hbegins)

/-! ## The tokens of a spaced text -/

section
variable {before blanks after : List Char} {ts : List Token}

theorem taken_pushed {t : Token} (h : Taken t.lexeme ((before ++ after).drop t.position))
    (hblanks : ∀ c ∈ blanks, Text.isBlank c)
    (hwhole : t.stop ≤ before.length ∨ before.length ≤ t.position) :
    Taken (t.pushed before.length blanks.length).lexeme
      ((before ++ (blanks ++ after)).drop (t.pushed before.length blanks.length).position) := by
  rw [Token.lexeme_pushed, Token.position_pushed]
  split
  · next hbehind =>
    obtain ⟨k, hk⟩ := Nat.exists_eq_add_of_le hbehind
    rw [hk, List.drop_length_add_append] at h
    rw [hk, Nat.add_assoc, List.drop_length_add_append, Nat.add_comm k, List.drop_length_add_append]
    exact h
  · next hbefore =>
    have hstop := hwhole.resolve_right hbefore
    have hle : t.position ≤ before.length := Nat.le_of_not_le hbefore
    rw [List.drop_append_of_le_length hle] at h ⊢
    refine h.spaced ?_ hblanks
    rw [List.length_drop]
    exact Nat.le_sub_of_add_le' hstop

/-- Blanks that cut no token push the tokens behind them, and change nothing else. -/
theorem decomposes_pushed (h : Decomposes (before ++ after) ts)
    (hblanks : ∀ c ∈ blanks, Text.isBlank c)
    (hwhole : ∀ t ∈ ts, t.stop ≤ before.length ∨ before.length ≤ t.position) :
    Decomposes (before ++ (blanks ++ after))
      (ts.map (Token.pushed before.length blanks.length)) where
  le_position _ _ := Nat.zero_le _
  apart := by
    rw [List.pairwise_map]
    refine h.apart.imp_of_mem fun {t u} ht hu htu => ?_
    have := hwhole t ht
    have := hwhole u hu
    have : t.position ≤ t.stop := Nat.le_add_right _ _
    rw [Token.stop_pushed, Token.position_pushed]
    split <;> split <;> omega
  taken := List.forall_mem_map.mpr fun t ht => taken_pushed (h.taken t ht) hblanks (hwhole t ht)
  blank i c _ hc houtside := by
    -- The text consists of what stood before the blanks, the blanks, and what stood behind them.
    rw [List.forall_mem_map] at houtside
    rcases Nat.lt_or_ge i before.length with hi | hi
    · rw [List.getElem?_append_left hi] at hc
      refine h.blank i c (Nat.zero_le _) (by rwa [List.getElem?_append_left hi]) fun t ht => ?_
      have hpushed := houtside t ht
      have := hwhole t ht
      rw [Token.position_pushed, Token.stop_pushed] at hpushed
      split at hpushed <;> omega
    · rw [List.getElem?_append_right hi] at hc
      rcases Nat.lt_or_ge (i - before.length) blanks.length with hj | hj
      · rw [List.getElem?_append_left hj] at hc
        exact hblanks c (List.mem_of_getElem? hc)
      · rw [List.getElem?_append_right hj] at hc
        have hc' : (before ++ after)[i - blanks.length]? = some c := by
          rw [List.getElem?_append_right (by omega), ← hc]
          congr 1
          omega
        refine h.blank _ c (Nat.zero_le _) hc' fun t ht => ?_
        have hpushed := houtside t ht
        have := hwhole t ht
        rw [Token.position_pushed, Token.stop_pushed] at hpushed
        split at hpushed <;> omega

/-- Blanks bring no two minus signs together. -/
theorem doubledMinus_of_pushed {i n : Nat} (h : DoubledMinus (ts.map (Token.pushed i n))) :
    DoubledMinus ts := by
  obtain ⟨p, hp, hq⟩ := h
  obtain ⟨t, ht, htp⟩ := List.mem_map.mp hp
  obtain ⟨u, hu, huq⟩ := List.mem_map.mp hq
  have htl : t.lexeme = .operator .sub := by rw [← Token.lexeme_pushed (i := i) (n := n), htp]
  have hul : u.lexeme = .operator .sub := by rw [← Token.lexeme_pushed (i := i) (n := n), huq]
  have hnext : u.position = t.position + 1 := by
    have htp := congrArg Token.position htp
    have huq := congrArg Token.position huq
    rw [Token.position_pushed] at htp huq
    split at htp <;> split at huq <;> dsimp only at htp huq <;> omega
  refine ⟨t.position, ?_, ?_⟩
  · rwa [← htl]
  · rwa [← hul, ← hnext]

end

/-! ## A spaced formula -/

/-- Blanks are put into a text at one place: at an end, between two tokens or beside other blanks,
but inside no token. -/
def Spaced (text text' : String) : Prop :=
  ∃ before blanks after ts, text.toList = before ++ after ∧
    text'.toList = before ++ (blanks ++ after) ∧ (∀ c ∈ blanks, Text.isBlank c) ∧
    tokenize text = .ok ts ∧ ∀ t ∈ ts, t.stop ≤ before.length ∨ before.length ≤ t.position

theorem Spaced.exists_tokenize {text text' : String} (h : Spaced text text') :
    ∃ ts i n, tokenize text = .ok ts ∧ tokenize text' = .ok (ts.map (Token.pushed i n)) := by
  obtain ⟨before, blanks, after, ts, htext, htext', hblanks, htokens, hwhole⟩ := h
  refine ⟨ts, before.length, blanks.length, htokens, ?_⟩
  rw [tokenize_eq_ok_iff_and_decomposes, htext] at htokens
  rw [tokenize_eq_ok_iff_and_decomposes, htext']
  refine ⟨fun c hc => ?_, decomposes_pushed htokens.2 hblanks hwhole⟩
  rcases List.mem_append.mp hc with hc | hc
  · exact htokens.1 c (List.mem_append_left _ hc)
  · rcases List.mem_append.mp hc with hc | hc
    · exact .inl (hblanks c hc)
    · exact htokens.1 c (List.mem_append_right _ hc)

theorem not_doubledMinus_of_check {text : String} {s : Scope} {ts : List Token}
    (h : check text s = .ok ts) : ¬DoubledMinus ts := by
  obtain ⟨-, htokens, hshape, -, -⟩ := check_eq_ok_iff.mp h
  obtain ⟨-, -, -, hdoubled, -⟩ := shapeFault_eq_none_iff.mp hshape
  rw [doubledMinus_iff (tokenize_eq_ok_iff.mp htokens).2.pairwise]
  rintro ⟨p, hseam⟩
  have := hdoubled _ _ hseam
  simp [doubledAt] at this

section
variable {text text' : String} {s : Scope} {ts us : List Token} {t : Tree String}

theorem parse_congr (h : parse s.names ts = .ok t) (hlexemes : lexemes us = lexemes ts) :
    parse s.names us = .ok t := by
  rw [parse, parseAll_eq_ok_iff, hlexemes]
  exact (parseAll_eq_ok_iff ts t).mp h

/-- One more place with blanks. -/
theorem check_of_spaced (hspaced : Spaced text text') (hcheck : check text s = .ok ts)
    (hparse : parse s.names ts = .ok t) :
    ∃ ts', check text' s = .ok ts' ∧ lexemes ts' = lexemes ts := by
  obtain ⟨us, i, n, hus, htokens'⟩ := hspaced.exists_tokenize
  obtain ⟨-, htokens, hshape, hscope, -⟩ := check_eq_ok_iff.mp hcheck
  obtain rfl : us = ts := Except.ok.inj (hus.symm.trans htokens)
  have hlexemes := lexemes_pushed i n us
  refine ⟨_, ?_, hlexemes⟩
  refine check_eq_ok_of_parse htokens' ?_ hscope (parse_congr hparse hlexemes) fun hminus =>
    not_doubledMinus_of_check hcheck (doubledMinus_of_pushed hminus)
  rw [List.length_map]
  exact (shapeFault_eq_none_iff.mp hshape).1

/-- Any number of places with blanks. -/
theorem check_of_spaced_run (hspaced : Relation.ReflTransGen Spaced text text')
    (hcheck : check text s = .ok ts) (hparse : parse s.names ts = .ok t) :
    ∃ ts', check text' s = .ok ts' ∧ lexemes ts' = lexemes ts := by
  induction hspaced with
  | refl => exact ⟨ts, hcheck, rfl⟩
  | tail _ hstep ih =>
    obtain ⟨us, hus, hlexemes⟩ := ih
    obtain ⟨ts', hts', hlexemes'⟩ := check_of_spaced hstep hus (parse_congr hparse hlexemes)
    exact ⟨ts', hts', hlexemes'.trans hlexemes⟩

end

/-- **Blanks between the tokens do not matter.** A formula that compiles still does after blanks
were put in at any places outside its tokens: its tokens are the same lexemes in the same order,
these are read as the same tree, and the compiled formula is the same. -/
theorem compile_of_spaced {α : Type} [Elementary α] {text text' : String} {s : Scope}
    {c : Compiled α} (hcompile : compile text s = .ok c)
    (hspaced : Relation.ReflTransGen Spaced text text') :
    ∃ ts ts', check text s = .ok ts ∧ check text' s = .ok ts' ∧ lexemes ts' = lexemes ts ∧
      parse s.names ts = .ok c.tree ∧ parse s.names ts' = .ok c.tree ∧
      compile text' s = .ok c := by
  obtain ⟨tree, hread, hprepare⟩ := exists_of_bind hcompile
  obtain ⟨ts, hcheck, hparse⟩ := read_eq_ok_iff.mp hread
  obtain ⟨ts', hcheck', hlexemes⟩ := check_of_spaced_run hspaced hcheck hparse
  have hparse' := parse_congr hparse hlexemes
  obtain rfl : tree = c.tree := by rw [compiled_of_prepare hprepare]
  refine ⟨ts, ts', hcheck, hcheck', hlexemes, hparse, hparse', ?_⟩
  rw [compile, read_eq_ok_iff.mpr ⟨ts', hcheck', hparse'⟩]
  exact hprepare

theorem compile_of_spaced_minus :
    ∃ c : Compiled Float, compile "X+-2e3" .planar = .ok c ∧
      Relation.ReflTransGen Spaced "X+-2e3" "X\t+ -2e3" ∧
      ∃ ts ts', check "X+-2e3" .planar = .ok ts ∧ check "X\t+ -2e3" .planar = .ok ts' ∧
        lexemes ts' = lexemes ts ∧ parse Scope.planar.names ts = .ok c.tree ∧
        parse Scope.planar.names ts' = .ok c.tree ∧ compile "X\t+ -2e3" .planar = .ok c := by
  obtain ⟨c, hc⟩ : ∃ c : Compiled Float, compile "X+-2e3" .planar = .ok c :=
    exists_of_isOk (by decide +kernel)
  have hfirst : Spaced "X+-2e3" "X\t+-2e3" :=
    ⟨"X".toList, ['\t'], "+-2e3".toList, [⟨.name "X", 0⟩, ⟨.operator .add, 1⟩,
      ⟨.operator .sub, 2⟩, ⟨.number "2e3", 3⟩], by decide, by decide,
      List.forall_mem_singleton.mpr (by decide +kernel), by decide +kernel, by decide⟩
  have hsecond : Spaced "X\t+-2e3" "X\t+ -2e3" :=
    ⟨"X\t+".toList, [' '], "-2e3".toList, [⟨.name "X", 0⟩, ⟨.operator .add, 2⟩,
      ⟨.operator .sub, 3⟩, ⟨.number "2e3", 4⟩], by decide, by decide,
      List.forall_mem_singleton.mpr (by decide +kernel), by decide +kernel, by decide⟩
  have hspaced := (Relation.ReflTransGen.single hfirst).tail hsecond
  exact ⟨c, hc, hspaced, compile_of_spaced hc hspaced⟩

end Formula

/-! ## Blanks at the ends of a text -/

namespace Formula

theorem stop_le_length {cs : List Char} {ts : List Token} (h : Decomposes cs ts) :
    ∀ t ∈ ts, t.stop ≤ cs.length := by
  intro t ht
  have hspelled := (h.taken t ht).spelled.length_le
  have hlt := h.position_lt_stop t ht
  rw [List.length_drop] at hspelled
  rw [Token.stop, Token.text] at hlt ⊢
  omega

/-- A text has the words that it has without the blanks at its ends. -/
theorem exists_tokenize_of_strip {text : String} {us : List Token}
    (h : tokenize (Text.strip text) = .ok us) :
    ∃ ts, tokenize text = .ok ts ∧ lexemes ts = lexemes us := by
  obtain ⟨front, back, htext, hfront, hback⟩ := Text.exists_eq_of_strip text
  generalize Text.strip text = core at h htext
  have hleft : Spaced core (String.ofList (front ++ core.toList)) :=
    ⟨[], front, core.toList, us, rfl, String.toList_ofList, hfront, h,
      fun t _ => .inr (Nat.zero_le _)⟩
  obtain ⟨us', i, n, hus, hts⟩ := hleft.exists_tokenize
  have hright : Spaced (String.ofList (front ++ core.toList)) text := by
    refine ⟨front ++ core.toList, back, [], _, ?_, ?_, hback, hts, fun t ht => .inl ?_⟩
    · rw [String.toList_ofList, List.append_nil]
    · rw [List.append_nil, List.append_assoc]
      exact htext
    · have hle := stop_le_length (tokenize_eq_ok_iff_and_decomposes.mp hts).2 t ht
      rwa [String.toList_ofList] at hle
  obtain ⟨ts, j, m, hts', htokens⟩ := hright.exists_tokenize
  refine ⟨_, htokens, ?_⟩
  rw [lexemes_pushed, Except.ok.inj (hts'.symm.trans hts), lexemes_pushed,
    Except.ok.inj (hus.symm.trans h)]

end Formula
end PhasePortrait
