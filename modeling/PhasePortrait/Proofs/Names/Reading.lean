import PhasePortrait.Proofs.Grammar.Exactness
import PhasePortrait.Proofs.Grammar.Rules
import PhasePortrait.Proofs.Lexer.Scan
import PhasePortrait.Proofs.Terms.Lines

/-!
# Reading a formula over more names

The rules and the parser look at the declared names only to find out whether a word of the formula
is among them. So lists of legal names that agree on the words of a formula give the same tree, and
everything that this tree looks up is a word of the formula or built in.

## Main definitions

* `Tree.builtIns t` — the identifiers of the constants and functions that the tree `t` uses.
* `AgreeOn ls names names'` — two lists of names have the same members among the words of `ls`.
-/
namespace PhasePortrait

/-- The identifiers that a constant is looked up by, of its powers too. -/
def Constant.identifiers : Constant → List String
  | pi => [pi.name]
  | e => [e.name, Function.exp.name]

theorem Constant.within_of_identifiers {p : Symbol → Prop} {c : Constant}
    (h : ∀ i ∈ c.identifiers, p (.named i)) : c.Within p := by
  cases c with
  | pi => exact ⟨h _ (by simp [identifiers]), nofun⟩
  | e => exact ⟨h _ (by simp [identifiers]), fun _ => h _ (by simp [identifiers])⟩

namespace Tree
variable {ν : Type}

mutual
/-- The identifiers of the constants and functions that a tree uses, `^` among these. -/
def builtIns : Tree ν → List String
  | number _ | symbol _ => []
  | constant c => c.identifiers
  | negate t => builtIns t
  | binary o l r =>
    (if o = .pow then [Function.pow.identifier] else []) ++ (builtIns l ++ builtIns r)
  | call f args => f.identifier :: builtInsAll args

def builtInsAll : List (Tree ν) → List String
  | [] => []
  | t :: ts => builtIns t ++ builtInsAll ts
end

theorem mem_builtInsAll {ts : List (Tree ν)} {t : Tree ν} (h : t ∈ ts) {i : String}
    (hi : i ∈ t.builtIns) : i ∈ builtInsAll ts := by
  induction ts with
  | nil => cases h
  | cons u us ih =>
    rw [builtInsAll, List.mem_append]
    obtain rfl | h := List.mem_cons.mp h
    · exact .inl hi
    · exact .inr (ih h)

theorem forall_mem_builtIns_binary {P : String → Prop} {o : Operator} {l r : Tree ν} :
    (∀ i ∈ (binary o l r).builtIns, P i) ↔ (o = .pow → P Function.pow.identifier) ∧
      (∀ i ∈ l.builtIns, P i) ∧ ∀ i ∈ r.builtIns, P i := by
  rw [builtIns, List.forall_mem_append, List.forall_mem_append]
  refine and_congr_left fun _ => ?_
  split
  · next ho => simp [ho]
  · next ho => simp [ho]

theorem allWithin_iff {p : Symbol → Prop} {ts : List (Tree ν)} :
    AllWithin p ts ↔ ∀ t ∈ ts, t.Within p := by
  induction ts with
  | nil => simp [AllWithin]
  | cons t ts ih => simp [AllWithin, ih]

end Tree

namespace Formula

theorem mem_separated {lss : List (List Lexeme)} {ls : List Lexeme} (h : ls ∈ lss) {l : Lexeme}
    (hl : l ∈ ls) : l ∈ separated lss := by
  cases lss with
  | nil => cases h
  | cons first rest =>
    rw [separated_cons, List.mem_append, List.mem_flatMap]
    obtain rfl | h := List.mem_cons.mp h
    · exact .inl hl
    · exact .inr ⟨ls, h, List.mem_cons_of_mem _ hl⟩

/-! ## Names that agree -/

/-- The same words of a formula are among two lists of names. -/
def AgreeOn (ls : List Lexeme) (names names' : List String) : Prop :=
  ∀ name, Lexeme.name name ∈ ls → (name ∈ names ↔ name ∈ names')

namespace AgreeOn
variable {ls rs : List Lexeme} {names names' : List String}

theorem symm (h : AgreeOn ls names names') : AgreeOn ls names' names :=
  fun name hname => (h name hname).symm

theorem mono (h : AgreeOn rs names names') (hsub : ls ⊆ rs) : AgreeOn ls names names' :=
  fun name hname => h name (hsub hname)

theorem left {l : Lexeme} (h : AgreeOn (ls ++ l :: rs) names names') : AgreeOn ls names names' :=
  h.mono (by simp)

theorem right {l : Lexeme} (h : AgreeOn (ls ++ l :: rs) names names') : AgreeOn rs names names' :=
  h.mono (by simp)

end AgreeOn

theorem Derives.congr {names names' : List String} {level : Level} {ls : List Lexeme}
    {t : Tree String} (h : Derives (.ofNames names) level ls t) (hagree : AgreeOn ls names names') :
    Derives (.ofNames names') level ls t := by
  induction h with
  | product _ ih => exact .product (ih hagree)
  | addition ho _ _ ihl ihr => exact .addition ho (ihl hagree.left) (ihr hagree.right)
  | signed _ ih => exact .signed (ih hagree)
  | multiplication ho _ _ ihl ihr => exact .multiplication ho (ihl hagree.left) (ihr hagree.right)
  | power _ ih => exact .power (ih hagree)
  | negation _ ih => exact .negation (ih (hagree.mono (List.subset_cons_self _ _)))
  | primary _ ih => exact .primary (ih hagree)
  | raising _ _ ihl ihr => exact .raising (ihl hagree.left) (ihr hagree.right)
  | number => exact .number
  | group _ ih => exact .group (ih (hagree.mono (by simp)))
  | @symbol name hname => exact .symbol ((hagree name (by simp)).mp hname)
  | @constant name c hname hc =>
    exact .constant (fun h => hname ((hagree name (by simp)).mpr h)) hc
  | call args hf hne hcount _ ih =>
    refine .call args hf hne hcount fun arg harg => ih arg harg (hagree.mono ?_)
    intro l hl
    simp [mem_separated (List.mem_map_of_mem harg) hl]

theorem WordsKnown.congr {g g' : Grammar} {ts : List Token} (h : WordsKnown g ts)
    (hagree : AgreeOn (lexemes ts) g.names g'.names) : WordsKnown g' ts := by
  intro name position next hseam
  have hknown := h name position next hseam
  by_cases hnext : next.map Token.lexeme = some .leftParen
  · rw [hnext] at hknown ⊢
    exact hknown
  · have hmem : Lexeme.name name ∈ lexemes ts := by
      obtain ⟨before, after, rfl, hlast, -⟩ := hseam
      rw [lexemes_append, List.mem_append]
      exact .inl (List.mem_map_of_mem (List.mem_of_getLast? hlast))
    rw [known_iff hnext] at hknown ⊢
    exact hknown.imp_left (hagree name hmem).mp

theorem read_eq_ok_iff {text : String} {s : Scope} {t : Tree String} :
    read text s = .ok t ↔ ∃ ts, check text s = .ok ts ∧ parse s.names ts = .ok t := by
  constructor
  · exact exists_of_bind
  · rintro ⟨ts, hcheck, hparse⟩
    rw [read, hcheck]
    exact hparse

/-- Legal names that agree on the words of a formula do not change how it is read. -/
theorem read_congr {text : String} {s s' : Scope} (hlegal : scopeFault s' = none)
    (hagree : ∀ ts, tokenize text = .ok ts → AgreeOn (lexemes ts) s.names s'.names)
    {t : Tree String} (h : read text s = .ok t) : read text s' = .ok t := by
  obtain ⟨ts, hcheck, hparse⟩ := read_eq_ok_iff.mp h
  obtain ⟨hblank, htokens, hshape, -, hwords⟩ := check_eq_ok_iff.mp hcheck
  have hagree := hagree ts htokens
  refine read_eq_ok_iff.mpr ⟨ts, check_eq_ok_iff.mpr ⟨hblank, htokens, hshape, hlegal, ?_⟩, ?_⟩
  · exact wordsFault_eq_none_iff.mpr ((wordsFault_eq_none_iff.mp hwords).congr hagree)
  · exact (parseAll_eq_ok_iff ts t).mpr (((parseAll_eq_ok_iff ts t).mp hparse).congr hagree)

/-! ## What a tree looks up -/

/-- A tree looks up declared names that are words of the formula, and what is built in. -/
theorem Derives.within {p : Symbol → Prop} {g : Grammar} {level : Level} {ls : List Lexeme}
    {t : Tree String} (h : Derives g level ls t)
    (hnames : ∀ name, Lexeme.name name ∈ ls → name ∈ g.names → p (.named name))
    (hbuiltIns : ∀ i ∈ t.builtIns, p (.named i)) : t.Within p := by
  induction h with
  | product _ ih | signed _ ih | power _ ih | primary _ ih => exact ih hnames hbuiltIns
  | addition _ _ _ ihl ihr | multiplication _ _ _ ihl ihr | raising _ _ ihl ihr =>
    obtain ⟨hpow, hl, hr⟩ := Tree.forall_mem_builtIns_binary.mp hbuiltIns
    exact ⟨hpow, ihl (fun name hmem => hnames name (by simp [hmem])) hl,
      ihr (fun name hmem => hnames name (by simp [hmem])) hr⟩
  | negation _ ih => exact ih (fun name hmem => hnames name (by simp [hmem])) hbuiltIns
  | number => trivial
  | group _ ih => exact ih (fun name hmem => hnames name (by simp [hmem])) hbuiltIns
  | @symbol name hname => exact hnames name (by simp) hname
  | constant _ _ => exact Constant.within_of_identifiers hbuiltIns
  | call args _ _ _ _ ih =>
    obtain ⟨hf, hargs⟩ := List.forall_mem_cons.mp hbuiltIns
    refine ⟨hf, Tree.allWithin_iff.mpr (List.forall_mem_map.mpr fun arg harg => ?_)⟩
    refine ih arg harg (fun name hmem => hnames name ?_)
      fun i hi => hargs i (Tree.mem_builtInsAll (List.mem_map_of_mem harg) hi)
    simp [mem_separated (List.mem_map_of_mem harg) hmem]

end Formula

end PhasePortrait
