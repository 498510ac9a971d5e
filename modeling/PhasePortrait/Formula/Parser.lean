import PhasePortrait.Formula.Fault
import PhasePortrait.Formula.Tree

/-!
# From tokens to trees

Recursive descent, loosest binding first:

    sum     = product (('+' | '-') product)*
    product = signed (('*' | '/') signed)*
    signed  = '-' signed | power
    power   = primary ('^' power)?
    primary = number | name '(' sum (',' sum)* ')' | name | '(' sum ')'

so a power binds tighter than a minus sign and groups to the right. Each step takes at least one
token, which its result carries as a proof, and the descent ends for that reason.
-/
namespace PhasePortrait.Formula

/-- What formulas are read over: the declared names, and how many arguments each function takes. -/
structure Grammar where
  names : List String
  admits : Function → Nat → Bool

/-- The grammar of formulas over declared names. -/
def Grammar.ofNames (names : List String) : Grammar := ⟨names, Function.admits⟩

/-- What was read, the last token that it took, and the tokens after it, fewer than `bound`. -/
structure Parsed (α : Type) (bound : Nat) where
  value : α
  last : Token
  rest : List Token
  shorter : rest.length < bound

namespace Parsed

def weaken {α : Type} {m n : Nat} (p : Parsed α m) (h : m ≤ n) : Parsed α n :=
  ⟨p.value, p.last, p.rest, Nat.lt_of_lt_of_le p.shorter h⟩

def map {α β : Type} {n : Nat} (g : α → β) (p : Parsed α n) : Parsed β n :=
  ⟨g p.value, p.last, p.rest, p.shorter⟩

end Parsed

/-- The fault of meeting the next token where something else should stand. After an operand, the
start of another one hints at a missing multiplication. -/
def unexpected (last : Option Token) : List Token → Fault
  | [] => .unexpectedEnd
  | t :: _ =>
    .unexpectedToken t.text t.position
      (t.lexeme.startsOperand && last.any (·.lexeme.endsOperand))

/-- Take a closing parenthesis. -/
def closing {α : Type} {n : Nat} (p : Parsed α n) : Except Fault (Parsed α n) :=
  match h : p.rest with
  | ⟨.rightParen, position⟩ :: rest =>
    .ok ⟨p.value, ⟨.rightParen, position⟩, rest, by have := p.shorter; rw [h] at this; simp at this; omega⟩
  | ts => .error (unexpected p.last ts)

/-- A name that is not called: declared names first, in their exact spelling. -/
def nameTree (names : List String) (name : String) (position : Nat) : Except Fault (Tree String) :=
  if names.contains name then .ok (.symbol name)
  else match Constant.ofName? name with
    | some c => .ok (.constant c)
    | none => .error (.unknownVariable name position)

mutual
def parseSum (g : Grammar) (ts : List Token) :
    Except Fault (Parsed (Tree String) ts.length) := do
  let p ← parseProduct g ts
  have := p.shorter
  let q ← sumTail g p.value p.last p.rest
  return q.weaken (by omega)
termination_by 8 * ts.length + 5

/-- Further terms of a sum, after `left`. -/
def sumTail (g : Grammar) (left : Tree String) (last : Token) (ts : List Token) :
    Except Fault (Parsed (Tree String) (ts.length + 1)) :=
  match ts with
  | ⟨.operator o, position⟩ :: rest =>
    if o = .add ∨ o = .sub then do
      let p ← parseProduct g rest
      have := p.shorter
      let q ← sumTail g (.binary o left p.value) p.last p.rest
      return q.weaken (by simp only [List.length_cons]; omega)
    else .ok ⟨left, last, ⟨.operator o, position⟩ :: rest, Nat.lt_succ_self _⟩
  | ts => .ok ⟨left, last, ts, Nat.lt_succ_self _⟩
termination_by 8 * ts.length

def parseProduct (g : Grammar) (ts : List Token) :
    Except Fault (Parsed (Tree String) ts.length) := do
  let p ← parseSigned g ts
  have := p.shorter
  let q ← productTail g p.value p.last p.rest
  return q.weaken (by omega)
termination_by 8 * ts.length + 4

/-- Further factors of a product, after `left`. -/
def productTail (g : Grammar) (left : Tree String) (last : Token) (ts : List Token) :
    Except Fault (Parsed (Tree String) (ts.length + 1)) :=
  match ts with
  | ⟨.operator o, position⟩ :: rest =>
    if o = .mul ∨ o = .div then do
      let p ← parseSigned g rest
      have := p.shorter
      let q ← productTail g (.binary o left p.value) p.last p.rest
      return q.weaken (by simp only [List.length_cons]; omega)
    else .ok ⟨left, last, ⟨.operator o, position⟩ :: rest, Nat.lt_succ_self _⟩
  | ts => .ok ⟨left, last, ts, Nat.lt_succ_self _⟩
termination_by 8 * ts.length

def parseSigned (g : Grammar) (ts : List Token) :
    Except Fault (Parsed (Tree String) ts.length) :=
  match ts with
  | ⟨.operator .sub, _⟩ :: rest => do
    let p ← parseSigned g rest
    return (p.map .negate).weaken (by simp)
  | ts => parsePower g ts
termination_by 8 * ts.length + 3

def parsePower (g : Grammar) (ts : List Token) :
    Except Fault (Parsed (Tree String) ts.length) := do
  let p ← parsePrimary g ts
  have := p.shorter
  match h : p.rest with
  | ⟨.operator .pow, _⟩ :: rest =>
    have : rest.length + 1 = p.rest.length := by rw [h, List.length_cons]
    let q ← parsePower g rest
    return (q.map (.binary .pow p.value)).weaken (by omega)
  | _ => return p
termination_by 8 * ts.length + 2

def parsePrimary (g : Grammar) (ts : List Token) :
    Except Fault (Parsed (Tree String) ts.length) :=
  match ts with
  | ⟨.number text, position⟩ :: rest =>
    .ok ⟨.number text, ⟨.number text, position⟩, rest, Nat.lt_succ_self _⟩
  | ⟨.leftParen, _⟩ :: rest => do
    let p ← parseSum g rest
    let q ← closing p
    return q.weaken (by simp)
  | ⟨.name name, position⟩ :: ⟨.leftParen, _⟩ :: rest =>
    match Function.ofName? name with
    | none => .error (.unknownFunction name position)
    | some f => do
      let first ← parseSum g rest
      have := first.shorter
      let args ← argsTail g [first.value] first.last first.rest
      let p ← closing args
      if g.admits f p.value.length then
        return (p.map (.call f)).weaken (by simp only [List.length_cons]; omega)
      else throw (.wrongArity f p.value.length name position)
  | ⟨.name name, position⟩ :: rest => do
    let t ← nameTree g.names name position
    return ⟨t, ⟨.name name, position⟩, rest, Nat.lt_succ_self _⟩
  | ts => .error (unexpected none ts)
termination_by 8 * ts.length + 1

/-- Further arguments of a call, after those in `args`. -/
def argsTail (g : Grammar) (args : List (Tree String)) (last : Token) (ts : List Token) :
    Except Fault (Parsed (List (Tree String)) (ts.length + 1)) :=
  match ts with
  | ⟨.comma, _⟩ :: rest => do
    let p ← parseSum g rest
    have := p.shorter
    let q ← argsTail g (args ++ [p.value]) p.last p.rest
    return q.weaken (by simp only [List.length_cons]; omega)
  | ts => .ok ⟨args, last, ts, Nat.lt_succ_self _⟩
termination_by 8 * ts.length
end

/-- The tree of all the tokens. -/
def parseAll (g : Grammar) (ts : List Token) : Except Fault (Tree String) := do
  let p ← parseSum g ts
  if p.rest.isEmpty then return p.value else throw (unexpected p.last p.rest)

/-- The tree of all the tokens, over declared names. -/
def parse (names : List String) (ts : List Token) : Except Fault (Tree String) :=
  parseAll (Grammar.ofNames names) ts

end PhasePortrait.Formula
