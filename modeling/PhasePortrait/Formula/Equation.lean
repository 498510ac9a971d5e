import PhasePortrait.Formula.Battery
import PhasePortrait.Formula.Parser
import PhasePortrait.Formula.Value

/-!
# Equations

An equation is a formula that went through every stage: the rules, the parser and the battery. It
keeps the fault of the first stage that refused it, and evaluates to `nan` everywhere then. The one
thing that cannot be made into an equation at all is an otherwise good formula two of whose declared
names stand as one identifier.
-/
namespace PhasePortrait
open Scalar

/-- An accepted formula: its tree, the line of arithmetic that it is compiled into, and the symbols
that its declared names stand as in it. -/
structure Compiled (α : Type) where
  tree : Tree String
  line : Line α
  symbols : List Symbol

structure Equation (α : Type) where
  text : String
  scope : Scope
  outcome : Except Fault (Compiled α)

/-- An equation was asked for its value at too many or too few numbers. -/
structure CountMismatch where
  vars : List String
  given : Nat
deriving DecidableEq, Repr

def CountMismatch.message (m : CountMismatch) : String :=
  let names := Text.joined m.vars
  s!"evaluate() takes {m.vars.length} values ({names}), got {m.given}"

/-- Why there is no equation. -/
inductive NoEquation where
  | repeatedName
deriving DecidableEq, Repr

namespace Formula

/-- How an evaluation looks to the battery: a whole operand is no number. -/
def outcomeOf {α : Type} : Except Stop (Operand α) → Outcome Empty
  | .ok x => if x.whole then .notNumber else .number
  | .error .divisionByZero | .error .overflow => .undefined
  | .error (.notCallable _) => .failure "'numpy.float64' object is not callable"

variable {α : Type} [Elementary α]

/-- Tree of a text, read over declared names. -/
def read (text : String) (s : Scope) : Except Fault (Tree String) := do
  let tokens ← check text s
  parse s.names tokens

/-- The line of arithmetic of a tree over declared names. -/
def lineOf (tree : Tree String) (names : List String) : Line α :=
  ((Term.ofTree .compiled tree).hideNames names).line.map Scalar.ofDecimal

/-- Compile a tree and try it out. -/
def prepare (tree : Tree String) (s : Scope) : Except Fault (Compiled α) :=
  let c : Compiled α := ⟨tree, lineOf tree s.names, Symbol.ofNames s.names⟩
  let evaluator (_ : Nat) (args : List α) : Outcome Empty :=
    outcomeOf (c.line.eval (c.symbols.zip (args.map (Operand.ofValue false))))
  match (Battery.smokeTest evaluator s).2 with
  | some interruption => .error interruption.fault
  | none => .ok c

/-- Compile a text. How deep a formula may be nested before the machine that reads it gives up,
which would be refused as a fault of syntax, is left out: it depends on that machine, and a formula
of no more than `maxTokens` tokens does not come near it. -/
def compile (text : String) (s : Scope) : Except Fault (Compiled α) := do
  let tree ← read text s
  prepare tree s

end Formula

namespace Equation
variable {α : Type} [Elementary α]

/-- The equation of a text over names that stand as different symbols. -/
def ofText (text : String) (s : Scope) : Equation α :=
  let text := Text.strip text
  ⟨text, s, Formula.compile text s⟩

/-- The equation of a text over any names. -/
def ofText? (text : String) (s : Scope) : Except NoEquation (Equation α) :=
  let stripped := Text.strip text
  match Formula.read stripped s with
  | .error fault => .ok ⟨stripped, s, .error fault⟩
  | .ok tree =>
    if (Symbol.ofNames s.names).Nodup then .ok ⟨stripped, s, Formula.prepare tree s⟩
    else .error .repeatedName

def isValid (q : Equation α) : Bool := q.outcome.isOk

def fault? (q : Equation α) : Option Fault :=
  match q.outcome with
  | .ok _ => none
  | .error fault => some fault

def errorMessage (q : Equation α) : String := (q.fault?.map Fault.message).getD ""

/-- The value at an operand for each declared name; a name without one is `nan`. -/
def value (q : Equation α) (operands : List (Operand α)) : α :=
  match q.outcome with
  | .ok c => c.line.value (c.symbols.zip operands)
  | .error _ => nan

theorem value_eq {q : Equation α} {c : Compiled α} (h : q.outcome = .ok c)
    (operands : List (Operand α)) : q.value operands = c.line.value (c.symbols.zip operands) := by
  rw [value, h]

/-- The value at one number for each variable, shielded. An invalid equation takes any count. -/
def evaluate (q : Equation α) (values : List α) : Except CountMismatch α :=
  match q.outcome with
  | .error _ => .ok nan
  | .ok _ =>
    if values.length = q.scope.vars.length then
      .ok (q.value (values.map (Operand.ofValue false)))
    else .error ⟨q.scope.vars, values.length⟩

/-- Values of the parameters in their order; missing ones are `nan`. -/
def parameterValues (parameters : List String) (given : List (String × α)) : List α :=
  parameters.map fun name => (given.lookup name).getD nan

/-- A single state variable, plain or shielded, with the parameters, always shielded. -/
def lineOperands (q : Equation α) (plain : Bool) (x : α) (given : List (String × α)) :
    List (Operand α) :=
  .ofValue plain x ::
    (parameterValues (q.scope.parameters.getD []) given).map (Operand.ofValue false)

def state (q : Equation α) : String :=
  match q.fault? with
  | none => "valid"
  | some fault => "invalid: " ++ fault.message

def outline (q : Equation α) : String :=
  let kind := if q.scope.parameters.isSome then "CompiledEquation1D" else "CompiledEquation"
  kind ++ "(" ++ Text.quoted q.text ++ ", " ++ q.state ++ ")"

end Equation

end PhasePortrait
