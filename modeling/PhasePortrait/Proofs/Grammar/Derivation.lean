import PhasePortrait.Formula.Parser

/-!
# The grammar of formulas

The grammar that the parser descends through, as rules of its own: a list of lexemes derives a tree
at a level of binding. Chains of sums and products are built from the left, powers from the right,
and a sign takes a whole power. Positions play no part, so the rules speak of lexemes; a token list
derives what its lexemes derive.

The words are resolved here too. A word before a parenthesis is a function in any letter case; any
other word is a declared name in its exact spelling, and a constant only if no such name has been
declared.

## Main definitions

* `Derives g level ls t` — the lexemes `ls` derive the tree `t` at a level.
* `lexemes ts` — the lexemes of a token list.
-/
namespace PhasePortrait.Formula

/-- The levels of binding, loosest first. -/
inductive Level where
  | sum | product | signed | power | primary
deriving DecidableEq, Repr

def lexemes (ts : List Token) : List Lexeme := ts.map Token.lexeme

@[simp] theorem lexemes_nil : lexemes [] = [] := rfl
@[simp] theorem lexemes_cons (t : Token) (ts : List Token) :
    lexemes (t :: ts) = t.lexeme :: lexemes ts := rfl
@[simp] theorem lexemes_append (ts us : List Token) :
    lexemes (ts ++ us) = lexemes ts ++ lexemes us := List.map_append

theorem exists_of_lexemes_cons {ts : List Token} {l : Lexeme} {ls : List Lexeme}
    (h : lexemes ts = l :: ls) : ∃ position us, ts = ⟨l, position⟩ :: us ∧ lexemes us = ls := by
  obtain ⟨⟨l, position⟩, us, rfl, rfl, rfl⟩ := List.map_eq_cons_iff.mp h
  exact ⟨position, us, rfl, rfl⟩

theorem exists_of_lexemes_append {ts : List Token} {ls rs : List Lexeme}
    (h : lexemes ts = ls ++ rs) : ∃ us vs, ts = us ++ vs ∧ lexemes us = ls ∧ lexemes vs = rs :=
  List.map_eq_append_iff.mp h

/-- Lists of lexemes with commas between them. -/
def separated (lss : List (List Lexeme)) : List Lexeme := [Lexeme.comma].intercalate lss

@[simp] theorem separated_singleton (ls : List Lexeme) : separated [ls] = ls := by
  simp [separated]

theorem separated_cons_cons (ls rs : List Lexeme) (lss : List (List Lexeme)) :
    separated (ls :: rs :: lss) = ls ++ .comma :: separated (rs :: lss) := by
  simp [separated]

theorem separated_cons (ls : List Lexeme) (lss : List (List Lexeme)) :
    separated (ls :: lss) = ls ++ lss.flatMap (.comma :: ·) := by
  induction lss generalizing ls with
  | nil => simp
  | cons rs rest ih => rw [separated_cons_cons, ih, List.flatMap_cons, List.cons_append]

theorem separated_concat {lss : List (List Lexeme)} (h : lss ≠ []) (ls : List Lexeme) :
    separated (lss ++ [ls]) = separated lss ++ .comma :: ls := by
  obtain ⟨rs, rest, rfl⟩ := List.exists_cons_of_ne_nil h
  rw [List.cons_append, separated_cons, separated_cons, List.flatMap_append]
  simp

/-- The rules. Each level starts with the one that binds tighter. The arguments of a call are sums
with commas between them, at least one, and as many as the function admits. -/
inductive Derives (g : Grammar) : Level → List Lexeme → Tree String → Prop where
  | product {ls t} : Derives g .product ls t → Derives g .sum ls t
  | addition {ls rs t u o} : o = .add ∨ o = .sub → Derives g .sum ls t → Derives g .product rs u →
      Derives g .sum (ls ++ .operator o :: rs) (.binary o t u)
  | signed {ls t} : Derives g .signed ls t → Derives g .product ls t
  | multiplication {ls rs t u o} : o = .mul ∨ o = .div → Derives g .product ls t →
      Derives g .signed rs u → Derives g .product (ls ++ .operator o :: rs) (.binary o t u)
  | power {ls t} : Derives g .power ls t → Derives g .signed ls t
  | negation {ls t} : Derives g .signed ls t → Derives g .signed (.operator .sub :: ls) (.negate t)
  | primary {ls t} : Derives g .primary ls t → Derives g .power ls t
  | raising {ls rs t u} : Derives g .primary ls t → Derives g .power rs u →
      Derives g .power (ls ++ .operator .pow :: rs) (.binary .pow t u)
  | number {text} : Derives g .primary [.number text] (.number text)
  | group {ls t} : Derives g .sum ls t → Derives g .primary (.leftParen :: (ls ++ [.rightParen])) t
  | symbol {name} : name ∈ g.names → Derives g .primary [.name name] (.symbol name)
  | constant {name c} : name ∉ g.names → Constant.ofName? name = some c →
      Derives g .primary [.name name] (.constant c)
  | call {name f} (args : List (List Lexeme × Tree String)) : Function.ofName? name = some f →
      args ≠ [] → g.admits f args.length → (∀ arg ∈ args, Derives g .sum arg.1 arg.2) →
      Derives g .primary
        (.name name :: .leftParen :: (separated (args.map Prod.fst) ++ [.rightParen]))
        (.call f (args.map Prod.snd))

/-- The operators that a phrase of a level leaves to the levels above it. -/
def Level.leaves : Level → Operator → Prop
  | .sum, _ => False
  | .product, o => o = .add ∨ o = .sub
  | .signed, o | .power, o => o ≠ .pow
  | .primary, _ => True

/-- The tokens start with no operator that a phrase of this level would go on with. -/
def StopsBefore (level : Level) (ts : List Token) : Prop :=
  ∀ o position rest, ts = ⟨.operator o, position⟩ :: rest → level.leaves o

theorem stopsBefore_operator {level : Level} {o : Operator} (h : level.leaves o) (position : Nat)
    (ts : List Token) : StopsBefore level (⟨.operator o, position⟩ :: ts) := by
  rintro _ _ _ ⟨⟩
  exact h

theorem StopsBefore.mono {level level' : Level} {ts : List Token} (h : StopsBefore level ts)
    (hle : ∀ o, level.leaves o → level'.leaves o) : StopsBefore level' ts :=
  fun o position rest heq => hle o (h o position rest heq)

end PhasePortrait.Formula
