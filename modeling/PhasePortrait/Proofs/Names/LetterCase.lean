import Mathlib.Data.List.Forall2
import PhasePortrait.Proofs.Grammar.FirstRule
import PhasePortrait.Proofs.Grammar.Spacing
import PhasePortrait.Proofs.Lexer.Folding

/-!
# Letter case of functions and constants

Functions and constants are known in any letter case, declared names only in their own. A text that
shows some of its functions and constants in another case has the same tokens but for these words
(`tokenize_of_recased`). A function is never a declared name, and a constant is none if it is not
spelled like one; so the words mean what they meant before, and the same rules derive the same tree
(`Derives.respelled`).

The letter `e` of an exponent belongs to a number and not to a word, and a declared name may differ
from a constant in letter case only. Both keep their case.

## Main definitions

* `Token.spelling t text` — what `text` shows where the token `t` stands.
* `Recased s text text'` — `text'` is `text` with functions and constants in another letter case.
* `Respelled names l l'` — `l'` is `l`, or the same word in another case, declared in neither.
-/
namespace PhasePortrait

/-- The characters of a text where a token stands. -/
def Token.spelling (t : Token) (text : String) : String :=
  String.ofList ((text.toList.drop t.position).take t.text.toList.length)

/-- A token with the characters that a text has at its place. -/
def Token.recased (text : String) (t : Token) : Token :=
  match t.lexeme with
  | .number _ => ⟨.number (t.spelling text), t.position⟩
  | .name _ => ⟨.name (t.spelling text), t.position⟩
  | _ => t

namespace Formula

/-! ## The tokens of a text in another letter case -/

section
variable {text text' : String} {t : Token} {ts : List Token}

theorem length_lower (s : String) : (Text.lower s).toList.length = s.toList.length := by
  rw [Text.lower, String.toList_map, List.length_map]

/-- A token shows what its text has at its place. -/
theorem spelling_of_mem (h : tokenize text = .ok ts) (ht : t ∈ ts) : t.spelling text = t.text := by
  have htaken := (tokenize_eq_ok_iff_and_decomposes.mp h).2.taken t ht
  rw [Token.spelling, ← List.prefix_iff_eq_take.mp htaken.spelled]
  exact String.ofList_toList

theorem lower_spelling (hlower : Text.lower text' = Text.lower text) :
    Text.lower (t.spelling text') = Text.lower (t.spelling text) := by
  rw [Token.spelling, Token.spelling, lower_ofList, lower_ofList, List.map_take, List.map_take,
    List.map_drop, List.map_drop, lower_eq_lower_iff.mp hlower]

theorem recased_of_spelling (h : t.spelling text = t.text) : t.recased text = t := by
  obtain ⟨l, p⟩ := t
  cases l with
  | number _ => exact congrArg (fun s => (⟨.number s, p⟩ : Token)) h
  | name _ => exact congrArg (fun s => (⟨.name s, p⟩ : Token)) h
  | _ => rfl

theorem spelling_lower : t.lower.spelling text = t.spelling text := by
  obtain ⟨l, p⟩ := t
  have hlength : l.lower.text.toList.length = l.text.toList.length := by
    cases l <;> first | rfl | exact length_lower _
  rw [Token.spelling, Token.spelling, Token.text, Token.lower, hlength]

theorem recased_lower : t.lower.recased text = t.recased text := by
  have hspelling : t.lower.spelling text = t.spelling text := spelling_lower
  obtain ⟨l, p⟩ := t
  cases l with
  | number _ => exact congrArg (fun s => (⟨.number s, p⟩ : Token)) hspelling
  | name _ => exact congrArg (fun s => (⟨.name s, p⟩ : Token)) hspelling
  | _ => rfl

/-- The tokens of a text in another letter case are its tokens with what the new text shows. -/
theorem tokenize_of_recased (h : tokenize text = .ok ts)
    (hlower : Text.lower text' = Text.lower text) :
    tokenize text' = .ok (ts.map (Token.recased text')) := by
  obtain ⟨ts', hts', htokens⟩ := exists_tokenize_of_lower h hlower
  have hself : ts' = ts'.map (Token.recased text') := by
    refine (List.map_id ts').symm.trans (List.map_congr_left fun t' ht' => ?_)
    exact (recased_of_spelling (spelling_of_mem hts' ht')).symm
  have hcomp : Token.recased text' ∘ Token.lower = Token.recased text' :=
    funext fun _ => recased_lower
  have hmap := congrArg (List.map (Token.recased text')) htokens
  rw [List.map_map, List.map_map, hcomp, ← hself] at hmap
  rw [hts', hmap]

end

/-! ## Words in another letter case -/

/-- The same lexeme, or the same word in another letter case, declared in neither. -/
inductive Respelled (names : List String) : Lexeme → Lexeme → Prop
  | same {l} : Respelled names l l
  | word {m n} : Text.lower n = Text.lower m → m ∉ names → n ∉ names →
      Respelled names (.name m) (.name n)

section
variable {names : List String}

/-- A list that is related to two in a row is two in a row itself. -/
theorem exists_append_of_forall₂ {α β : Type} {R : α → β → Prop} {as bs : List α} {cs : List β}
    (h : List.Forall₂ R (as ++ bs) cs) :
    ∃ as' bs', cs = as' ++ bs' ∧ List.Forall₂ R as as' ∧ List.Forall₂ R bs bs' := by
  have htake := List.forall₂_take as.length h
  have hdrop := List.forall₂_drop as.length h
  rw [List.take_left] at htake
  rw [List.drop_left] at hdrop
  exact ⟨_, _, (List.take_append_drop as.length cs).symm, htake, hdrop⟩

theorem respelled_mark {l l' : Lexeme} (h : Respelled names l l') (hl : ∀ name, l ≠ .name name) :
    l' = l := by
  cases h with
  | same => rfl
  | word => exact absurd rfl (hl _)

theorem exists_of_respelled_cons {l : Lexeme} {rs ls' : List Lexeme}
    (h : List.Forall₂ (Respelled names) (l :: rs) ls') (hl : ∀ name, l ≠ .name name) :
    ∃ bs, ls' = l :: bs ∧ List.Forall₂ (Respelled names) rs bs := by
  cases h with
  | cons hfirst hrest =>
    obtain rfl := respelled_mark hfirst hl
    exact ⟨_, rfl, hrest⟩

theorem exists_of_respelled_append {l : Lexeme} {ls rs ls' : List Lexeme}
    (h : List.Forall₂ (Respelled names) (ls ++ l :: rs) ls') (hl : ∀ name, l ≠ .name name) :
    ∃ as bs, ls' = as ++ l :: bs ∧ List.Forall₂ (Respelled names) ls as ∧
      List.Forall₂ (Respelled names) rs bs := by
  obtain ⟨as, _, rfl, has, hrest⟩ := exists_append_of_forall₂ h
  obtain ⟨bs, rfl, hbs⟩ := exists_of_respelled_cons hrest hl
  exact ⟨as, bs, rfl, has, hbs⟩

/-- The arguments of a call, one by one. -/
theorem exists_of_respelled_separated (args : List (List Lexeme × Tree String))
    {ls' : List Lexeme} (h : List.Forall₂ (Respelled names) (separated (args.map Prod.fst)) ls') :
    ∃ args' : List (List Lexeme × Tree String), ls' = separated (args'.map Prod.fst) ∧
      args'.map Prod.snd = args.map Prod.snd ∧
      ∀ arg' ∈ args', ∃ arg ∈ args, arg'.2 = arg.2 ∧
        List.Forall₂ (Respelled names) arg.1 arg'.1 := by
  induction args generalizing ls' with
  | nil =>
    cases h
    exact ⟨[], rfl, rfl, nofun⟩
  | cons arg args ih =>
    cases args with
    | nil =>
      rw [List.map_singleton, separated_singleton] at h
      refine ⟨[(ls', arg.2)], (separated_singleton ls').symm, rfl, ?_⟩
      exact List.forall_mem_singleton.mpr ⟨arg, List.mem_singleton_self arg, rfl, h⟩
    | cons next args =>
      rw [List.map_cons, List.map_cons, separated_cons_cons] at h
      obtain ⟨as, bs, rfl, has, hbs⟩ := exists_of_respelled_append h nofun
      obtain ⟨args', rfl, htrees, hmem⟩ := ih hbs
      have hne : args' ≠ [] := by
        rintro rfl
        cases htrees
      obtain ⟨next', args', rfl⟩ := List.exists_cons_of_ne_nil hne
      refine ⟨(as, arg.2) :: next' :: args', (separated_cons_cons ..).symm, ?_, ?_⟩
      · exact congrArg (arg.2 :: ·) htrees
      · refine List.forall_mem_cons.mpr ⟨⟨arg, List.mem_cons_self, rfl, has⟩, fun arg' harg' => ?_⟩
        obtain ⟨a, ha, heq, hrel⟩ := hmem arg' harg'
        exact ⟨a, List.mem_cons_of_mem _ ha, heq, hrel⟩

/-- Functions and constants in another letter case derive the same tree. -/
theorem Derives.respelled {level : Level} {ls ls' : List Lexeme} {t : Tree String}
    (h : Derives (.ofNames names) level ls t) (hls : List.Forall₂ (Respelled names) ls ls') :
    Derives (.ofNames names) level ls' t := by
  induction h generalizing ls' with
  | product _ ih => exact .product (ih hls)
  | addition ho _ _ ihl ihr =>
    obtain ⟨as, bs, rfl, has, hbs⟩ := exists_of_respelled_append hls nofun
    exact .addition ho (ihl has) (ihr hbs)
  | signed _ ih => exact .signed (ih hls)
  | multiplication ho _ _ ihl ihr =>
    obtain ⟨as, bs, rfl, has, hbs⟩ := exists_of_respelled_append hls nofun
    exact .multiplication ho (ihl has) (ihr hbs)
  | power _ ih => exact .power (ih hls)
  | negation _ ih =>
    obtain ⟨bs, rfl, hbs⟩ := exists_of_respelled_cons hls nofun
    exact .negation (ih hbs)
  | primary _ ih => exact .primary (ih hls)
  | raising _ _ ihl ihr =>
    obtain ⟨as, bs, rfl, has, hbs⟩ := exists_of_respelled_append hls nofun
    exact .raising (ihl has) (ihr hbs)
  | number =>
    obtain ⟨bs, rfl, hbs⟩ := exists_of_respelled_cons hls nofun
    cases hbs
    exact .number
  | group _ ih =>
    obtain ⟨bs, rfl, hbs⟩ := exists_of_respelled_cons hls nofun
    obtain ⟨as, cs, rfl, has, hcs⟩ := exists_of_respelled_append hbs nofun
    cases hcs
    exact .group (ih has)
  | symbol hname =>
    cases hls with
    | cons hfirst hrest =>
      cases hrest
      cases hfirst with
      | same => exact .symbol hname
      | word _ hm _ => exact absurd hname hm
  | constant hname hc =>
    cases hls with
    | cons hfirst hrest =>
      cases hrest
      cases hfirst with
      | same => exact .constant hname hc
      | word hlower _ hn => exact .constant hn ((Constant.ofName?_congr hlower).trans hc)
  | @call name f args hf hne hcount _ ih =>
    cases hls with
    | @cons _ l' _ _ hfirst hrest =>
      obtain ⟨n, rfl, hn⟩ : ∃ n, l' = .name n ∧ Function.ofName? n = some f := by
        cases hfirst with
        | same => exact ⟨name, rfl, hf⟩
        | word hlower _ _ => exact ⟨_, rfl, (Function.ofName?_congr hlower).trans hf⟩
      obtain ⟨bs, rfl, hbs⟩ := exists_of_respelled_cons hrest nofun
      obtain ⟨inside, cs, rfl, hinside, hcs⟩ := exists_of_respelled_append hbs nofun
      cases hcs
      obtain ⟨args', rfl, htrees, hmem⟩ := exists_of_respelled_separated args hinside
      have hlength : args'.length = args.length := by simpa using congrArg List.length htrees
      rw [← htrees]
      refine .call args' hn ?_ (hlength ▸ hcount) fun arg' harg' => ?_
      · rintro rfl
        exact hne (List.length_eq_zero_iff.mp hlength.symm)
      · obtain ⟨arg, harg, heq, hrel⟩ := hmem arg' harg'
        rw [heq]
        exact ih arg harg hrel

end

/-! ## A formula in another letter case -/

/-- A word with a parenthesis right after it. -/
def Called (ts : List Token) (t : Token) : Prop :=
  ∃ name p, t.lexeme = .name name ∧ Seam ts (some t) (some ⟨.leftParen, p⟩)

/-- A word that is undeclared and a constant. -/
def NamesConstant (s : Scope) (t : Token) : Prop :=
  ∃ name, t.lexeme = .name name ∧ name ∉ s.names ∧ (Constant.ofName? name).isSome

/-- The second text is the first one with some letters in the other case: letters of words that a
parenthesis follows, and of words that are read as constants, none of which then spells a declared
name. -/
structure Recased (s : Scope) (text text' : String) (ts : List Token) : Prop where
  tokens : tokenize text = .ok ts
  lower : Text.lower text' = Text.lower text
  inside : ∀ i, text'.toList[i]? ≠ text.toList[i]? →
    ∃ t ∈ ts, (t.position ≤ i ∧ i < t.stop) ∧ (Called ts t ∨ NamesConstant s t)
  undeclared : ∀ t ∈ ts, NamesConstant s t → t.spelling text' ∉ s.names

/-- Two tokens do not overlap. -/
theorem DecomposesFrom.apart_of_ne {p : Nat} {cs : List Char} {ts : List Token} {t u : Token}
    (h : DecomposesFrom p cs ts) (ht : t ∈ ts) (hu : u ∈ ts) (hne : t ≠ u) :
    t.stop ≤ u.position ∨ u.stop ≤ t.position := by
  let Apart (t u : Token) : Prop := t.stop ≤ u.position ∨ u.stop ≤ t.position
  have : Std.Symm Apart := ⟨fun _ _ => Or.symm⟩
  have hapart : ts.Pairwise Apart := h.apart.imp Or.inl
  exact hapart.forall ht hu hne

theorem not_isSome_of_declared {s : Scope} (hscope : scopeFault s = none) {name : String}
    (hname : name ∈ s.names) : ¬(Function.ofName? name).isSome := by
  rw [scopeFault, Option.orElse_eq_orElse, Option.orElse_eq_or, Option.or_eq_none_iff,
    List.findSome?_eq_none_iff] at hscope
  have hlegal := declaredNameFault_eq_none_iff.mp (hscope.1 name hname)
  exact fun hfunction => hlegal (.inr hfunction)

section
variable {s : Scope} {text text' : String} {t : Token} {ts : List Token} {tree : Tree String}

/-- A word that must keep its case is shown as before. -/
theorem Recased.spelling_eq (h : Recased s text text' ts) (ht : t ∈ ts)
    (hother : ¬(Called ts t ∨ NamesConstant s t)) : t.spelling text' = t.text := by
  have hdecomposes := (tokenize_eq_ok_iff_and_decomposes.mp h.tokens).2
  rw [← spelling_of_mem h.tokens ht, Token.spelling, Token.spelling]
  congr 1
  refine List.ext_getElem? fun i => ?_
  rw [List.getElem?_take, List.getElem?_take, List.getElem?_drop, List.getElem?_drop]
  split
  · next hi =>
    by_contra hne
    obtain ⟨u, hu, hinside, hword⟩ := h.inside _ hne
    -- Tokens do not overlap, so the word that has changed here is the token itself.
    obtain rfl : u = t := by
      by_contra hdistinct
      have hstop : t.stop = t.position + t.text.toList.length := rfl
      rcases hdecomposes.apart_of_ne hu ht hdistinct with hle | hle <;> omega
    exact hother hword
  · rfl

/-- Of the lexemes of an accepted text, those that may be in another case are undeclared words, and
stay undeclared. -/
theorem Recased.respelled (h : Recased s text text' ts) (hcheck : check text s = .ok ts)
    (ht : t ∈ ts) : Respelled s.names t.lexeme (t.recased text').lexeme := by
  obtain ⟨-, -, -, hscope, hwords⟩ := check_eq_ok_iff.mp hcheck
  by_cases hword : Called ts t ∨ NamesConstant s t
  · obtain ⟨name, hname⟩ : ∃ name, t.lexeme = .name name := by
      rcases hword with ⟨name, -, hname, -⟩ | ⟨name, hname, -⟩ <;> exact ⟨name, hname⟩
    have hlower : Text.lower (t.spelling text') = Text.lower name := by
      rw [lower_spelling h.lower, spelling_of_mem h.tokens ht, Token.text, hname]
      rfl
    have hrecased : (t.recased text').lexeme = .name (t.spelling text') := by
      rw [Token.recased, hname]
    rw [hrecased, hname]
    rcases hword with ⟨_, q, hname', hseam⟩ | hconstant
    · -- A word that is called is a function in either case, and no function is declared.
      have hfunction : (Function.ofName? name).isSome := by
        obtain ⟨l, p⟩ := t
        obtain rfl : l = .name name := hname
        exact wordsFault_eq_none_iff.mp hwords name p _ hseam
      refine .word hlower (fun hmem => not_isSome_of_declared hscope hmem hfunction)
        fun hmem => not_isSome_of_declared hscope hmem ?_
      rwa [Function.ofName?_congr hlower]
    · obtain ⟨name', hname', hundeclared, -⟩ := id hconstant
      obtain rfl : name' = name := by
        rw [hname'] at hname
        exact Lexeme.name.inj hname
      exact .word hlower hundeclared (h.undeclared t ht hconstant)
  · rw [recased_of_spelling (h.spelling_eq ht hword)]
    exact .same

theorem forall₂_respelled (h : Recased s text text' ts) (hcheck : check text s = .ok ts) :
    List.Forall₂ (Respelled s.names) (lexemes ts) (lexemes (ts.map (Token.recased text'))) := by
  rw [lexemes, lexemes, List.forall₂_map_left_iff, List.forall₂_map_right_iff,
    List.forall₂_map_right_iff, List.forall₂_same]
  exact fun t ht => h.respelled hcheck ht

theorem recased_eq_operator_iff {o : Operator} {p : Nat} :
    t.recased text = ⟨.operator o, p⟩ ↔ t = ⟨.operator o, p⟩ := by
  obtain ⟨l, q⟩ := t
  cases l <;> simp [Token.recased]

theorem doubledMinus_of_recased (h : DoubledMinus (ts.map (Token.recased text))) :
    DoubledMinus ts := by
  obtain ⟨p, hp, hq⟩ := h
  obtain ⟨t, ht, htp⟩ := List.mem_map.mp hp
  obtain ⟨u, hu, huq⟩ := List.mem_map.mp hq
  exact ⟨p, recased_eq_operator_iff.mp htp ▸ ht, recased_eq_operator_iff.mp huq ▸ hu⟩

theorem parse_of_recased (h : Recased s text text' ts) (hcheck : check text s = .ok ts)
    (hparse : parse s.names ts = .ok tree) :
    parse s.names (ts.map (Token.recased text')) = .ok tree :=
  (parseAll_eq_ok_iff _ _).mpr
    (((parseAll_eq_ok_iff _ _).mp hparse).respelled (forall₂_respelled h hcheck))

theorem check_of_recased (h : Recased s text text' ts) (hcheck : check text s = .ok ts)
    (hparse : parse s.names ts = .ok tree) :
    check text' s = .ok (ts.map (Token.recased text')) := by
  obtain ⟨-, -, hshape, hscope, -⟩ := check_eq_ok_iff.mp hcheck
  refine check_eq_ok_of_parse (tokenize_of_recased h.tokens h.lower) ?_ hscope
    (parse_of_recased h hcheck hparse) fun hminus =>
      not_doubledMinus_of_check hcheck (doubledMinus_of_recased hminus)
  rw [List.length_map]
  exact (shapeFault_eq_none_iff.mp hshape).1

end

/-- **The letter case of functions and constants does not matter.** A formula that compiles still
does with letters of its functions and constants in the other case, as long as no constant then
spells a declared name: it is read as the same tree, and the compiled formula is the same. -/
theorem compile_of_recased {α : Type} [Elementary α] {text text' : String} {s : Scope}
    {ts : List Token} {c : Compiled α} (hcompile : compile text s = .ok c)
    (h : Recased s text text' ts) :
    ∃ ts', check text s = .ok ts ∧ check text' s = .ok ts' ∧ parse s.names ts = .ok c.tree ∧
      parse s.names ts' = .ok c.tree ∧ compile text' s = .ok c := by
  obtain ⟨tree, hread, hprepare⟩ := exists_of_bind hcompile
  obtain ⟨us, hcheck, hparse⟩ := read_eq_ok_iff.mp hread
  obtain rfl : us = ts := by
    obtain ⟨-, htokens, -⟩ := check_eq_ok_iff.mp hcheck
    exact Except.ok.inj (htokens.symm.trans h.tokens)
  have hcheck' := check_of_recased h hcheck hparse
  have hparse' := parse_of_recased h hcheck hparse
  obtain rfl : tree = c.tree := by rw [compiled_of_prepare hprepare]
  refine ⟨_, hcheck, hcheck', hparse, hparse', ?_⟩
  rw [compile, read_eq_ok_iff.mpr ⟨_, hcheck', hparse'⟩]
  exact hprepare

theorem compile_of_recased_constants :
    ∃ (ts : List Token) (c : Compiled Float),
      compile "Max(Pi*X,pI)-2e3*e" (.line ["pI"]) = .ok c ∧
      Recased (.line ["pI"]) "Max(Pi*X,pI)-2e3*e" "mAX(PI*X,pI)-2e3*E" ts ∧
      ∃ ts', check "Max(Pi*X,pI)-2e3*e" (.line ["pI"]) = .ok ts ∧
        check "mAX(PI*X,pI)-2e3*E" (.line ["pI"]) = .ok ts' ∧
        parse (Scope.line ["pI"]).names ts = .ok c.tree ∧
        parse (Scope.line ["pI"]).names ts' = .ok c.tree ∧
        compile "mAX(PI*X,pI)-2e3*E" (.line ["pI"]) = .ok c := by
  obtain ⟨c, hc⟩ : ∃ c : Compiled Float, compile "Max(Pi*X,pI)-2e3*e" (.line ["pI"]) = .ok c :=
    exists_of_isOk (by decide +kernel)
  have hrecased : Recased (.line ["pI"]) "Max(Pi*X,pI)-2e3*e" "mAX(PI*X,pI)-2e3*E"
      [⟨.name "Max", 0⟩, ⟨.leftParen, 3⟩, ⟨.name "Pi", 4⟩, ⟨.operator .mul, 6⟩, ⟨.name "X", 7⟩,
        ⟨.comma, 8⟩, ⟨.name "pI", 9⟩, ⟨.rightParen, 11⟩, ⟨.operator .sub, 12⟩, ⟨.number "2e3", 13⟩,
        ⟨.operator .mul, 16⟩, ⟨.name "e", 17⟩] := by
    refine ⟨by decide +kernel, lower_eq_lower_iff.mpr (by decide +kernel), fun i hi => ?_, ?_⟩
    · have hchanged : i < 3 ∨ i = 5 ∨ i = 17 := by
        by_cases hlength : i < 18
        · have hall : ∀ i < 18, "mAX(PI*X,pI)-2e3*E".toList[i]? ≠ "Max(Pi*X,pI)-2e3*e".toList[i]? →
              i < 3 ∨ i = 5 ∨ i = 17 := by decide +kernel
          exact hall i hlength hi
        · rw [List.getElem?_eq_none (Nat.le_of_not_lt hlength),
            List.getElem?_eq_none (Nat.le_of_not_lt hlength)] at hi
          exact absurd rfl hi
      rcases hchanged with hi | rfl | rfl
      · exact ⟨⟨.name "Max", 0⟩, by simp, ⟨Nat.zero_le i, hi⟩, .inl ⟨"Max", 3, rfl, [_], _, rfl,
          rfl, rfl⟩⟩
      · exact ⟨⟨.name "Pi", 4⟩, by simp, by decide, .inr ⟨"Pi", rfl, by decide, by decide +kernel⟩⟩
      · exact ⟨⟨.name "e", 17⟩, by simp, by decide, .inr ⟨"e", rfl, by decide, by decide +kernel⟩⟩
    · rintro t ht ⟨name, hname, hundeclared, -⟩ hmem
      have htext : t.text = name := by rw [Token.text, hname, Lexeme.text]
      refine hundeclared ?_
      rw [← htext]
      clear htext hundeclared hname
      revert t
      decide +kernel
  exact ⟨_, c, hc, hrecased, compile_of_recased hc hrecased⟩

end Formula
end PhasePortrait
