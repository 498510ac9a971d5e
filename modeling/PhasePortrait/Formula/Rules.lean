import PhasePortrait.Formula.Lexer

/-!
# Rules before parsing

Checks on the token stream that give a formula's faults a name of their own: length, parentheses,
operators, declared names, and the words it uses, in this order. Each rule is the first fault that
some place of the stream shows. State variables are written in capitals; in the form with a single
variable the other names are parameters, which have to be declared.
-/
namespace PhasePortrait

/-- The declared names. Without a parameter list a formula may only use its variables. -/
structure Scope where
  vars : List String
  parameters : Option (List String)
deriving DecidableEq, Repr

namespace Scope

def planar : Scope := ⟨["X", "Y"], none⟩

def line (parameters : List String) : Scope := ⟨["X"], some parameters⟩

/-- The variables, then the parameters. -/
def names (s : Scope) : List String := s.vars ++ s.parameters.getD []

@[simp] theorem names_planar : planar.names = ["X", "Y"] := rfl

@[simp] theorem names_line (parameters : List String) :
    (line parameters).names = "X" :: parameters := rfl

end Scope

namespace Formula

def maxTokens : Nat := 256

def lengthFault (ts : List Token) : Option Fault :=
  if maxTokens < ts.length then some (.tooLong ts.length) else none

/-- The parentheses, with `depth` of them open before. -/
def balanceFault : Nat → List Token → Option Fault
  | 0, [] => none
  | depth + 1, [] => some (.unmatchedLeft (depth + 1))
  | depth, ⟨.leftParen, _⟩ :: ts => balanceFault (depth + 1) ts
  | 0, ⟨.rightParen, position⟩ :: _ => some (.unmatchedRight position)
  | depth + 1, ⟨.rightParen, _⟩ :: ts => balanceFault depth ts
  | depth, _ :: ts => balanceFault depth ts

/-- Each token with the next one. -/
def neighbours (ts : List Token) : List (Token × Token) := ts.zip ts.tail

def emptyParenthesesAt : Token × Token → Option Fault
  | (⟨.leftParen, position⟩, ⟨.rightParen, _⟩) => some (.emptyParentheses position)
  | _ => none

def parenthesesFault (ts : List Token) : Option Fault :=
  balanceFault 0 ts <|> (neighbours ts).findSome? emptyParenthesesAt

/-- The same operator twice without a gap. -/
def doubledAt : Token × Token → Option Fault
  | (⟨.operator first, p⟩, ⟨.operator second, q⟩) =>
    if first = second ∧ q = p + 1 then some (.doubledOperator first p) else none
  | _ => none

/-- An operator other than a minus sign at the start of a group. -/
def leadingAt : Option Token × Token → Option Fault
  | (before, ⟨.operator o, position⟩) =>
    if o ≠ .sub && (before.all fun t => t.lexeme = .leftParen || t.lexeme = .comma)
    then some (.leadingOperator o position) else none
  | _ => none

/-- An operator at the end of a group. -/
def trailingAt : Token × Option Token → Option Fault
  | (⟨.operator o, position⟩, after) =>
    if after.all fun t => t.lexeme = .rightParen || t.lexeme = .comma
    then some (.trailingOperator o position) else none
  | _ => none

/-- Two operators in a row, unless the second one can be a sign. -/
def consecutiveAt : Token × Token → Option Fault
  | (⟨.operator first, position⟩, ⟨.operator second, _⟩) =>
    if second = .sub ∧ first ≠ .pow then none
    else some (.consecutiveOperators first second position)
  | _ => none

def operatorsFault (ts : List Token) : Option Fault :=
  (neighbours ts).findSome? doubledAt
    <|> ((none :: ts.map some).zip ts).findSome? leadingAt
    <|> (ts.zip (ts.tail.map some ++ [none])).findSome? trailingAt
    <|> (neighbours ts).findSome? consecutiveAt

/-- Declared names start with a letter and go on with letters, digits and underscores. -/
def isIdentifier (name : String) : Bool :=
  match name.toList with
  | [] => false
  | c :: cs => Text.isLetter c && (c :: cs).all fun d => Text.isAlphaNumeric d || d == '_'

def declaredNameFault (name : String) : Option Fault :=
  if !isIdentifier name then some (.notIdentifier name (Text.quoted name))
  else if (Function.ofName? name).isSome then some (.functionName name)
  else none

def scopeFault (s : Scope) : Option Fault :=
  s.names.findSome? declaredNameFault
    <|> (s.parameters.getD []).findSome? fun name =>
      if s.vars.contains name then some (.stateVariableName name) else none

/-- The words of a formula, each with its position and whether it is called. -/
def words (ts : List Token) : List (String × Nat × Bool) :=
  (ts.zip (ts.tail.map some ++ [none])).filterMap fun
    | (⟨.name name, position⟩, after) =>
      some (name, position, after.any (·.lexeme = .leftParen))
    | _ => none

/-- Called words that are no functions, each once. -/
def unknownCalls (ts : List Token) : List String :=
  ((words ts).filterMap fun (name, _, called) =>
    if called ∧ (Function.ofName? name).isNone then some name else none).eraseDups

/-- Words without a meaning of their own: not called, not declared, no constant. -/
def looseWords (names : List String) (ts : List Token) : List (String × Nat) :=
  (words ts).filterMap fun (name, position, called) =>
    if called ∨ names.contains name ∨ (Constant.ofName? name).isSome then none
    else some (name, position)

def bareFunctionAt : String × Nat → Option Fault
  | (name, position) =>
    if (Function.ofName? name).isSome then some (.bareFunction name position) else none

def isLowercase (name : String) : Bool := name == Text.lower name

/-- Loose words, sorted by case. -/
def looseFault (s : Scope) (loose : List String) : Option Fault :=
  let lowercase := loose.filter isLowercase
  let other := loose.filter (!isLowercase ·)
  match s.parameters, lowercase, other with
  | none, first :: others, _ => some (.lowercaseVariables first others)
  | none, [], first :: others => some (.unknownVariables first others s.vars)
  | some _, _, first :: others => some (.foreignVariables first others)
  | some declared, first :: others, [] => some (.undeclaredParameters first others declared)
  | _, [], [] => none

def unknownCallsFault : List String → Option Fault
  | [] => none
  | first :: others => some (.unknownFunctions first others)

def wordsFault (s : Scope) (ts : List Token) : Option Fault :=
  let loose := looseWords s.names ts
  loose.findSome? bareFunctionAt
    <|> unknownCallsFault (unknownCalls ts)
    <|> looseFault s (loose.map Prod.fst).eraseDups

/-- The rules that hold for any declared names. -/
def shapeFault (ts : List Token) : Option Fault :=
  lengthFault ts <|> parenthesesFault ts <|> operatorsFault ts

/-- Tokens of a text that is not blank and keeps the rules that need no declared names. -/
def checkShape (text : String) : Except Fault (List Token) := do
  if Text.isBlankText text then throw .empty
  let ts ← tokenize text
  match shapeFault ts with
  | some fault => throw fault
  | none => return ts

/-- The tokens of a text that keeps every rule. -/
def check (text : String) (s : Scope) : Except Fault (List Token) := do
  let ts ← checkShape text
  match scopeFault s <|> wordsFault s ts with
  | some fault => throw fault
  | none => return ts

end Formula

end PhasePortrait
