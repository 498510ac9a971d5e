import PhasePortrait.Formula.Token
import PhasePortrait.Text.Quoted

/-!
# Faults of formulas

Every reason to refuse a formula, with what its report needs, except for a nesting that is too deep
for the machine that reads the formula, which is left out. `Fault.kind` groups the reasons,
`Fault.token?` and `Fault.position?` point into the formula where there is a single culprit, and
`Fault.message` is the wording.
-/
namespace PhasePortrait

inductive FaultKind where
  | empty | invalidCharacter | mismatchedParentheses | emptyParentheses | doubleOperator
  | leadingOperator | trailingOperator | consecutiveOperators | unknownFunction
  | lowercaseVariable | unknownVariable | undeclaredParameter | nameCollision | syntaxError | arity
  | smokeTest
deriving DecidableEq, Repr

def FaultKind.label : FaultKind → String
  | empty => "empty"
  | invalidCharacter => "invalid_character"
  | mismatchedParentheses => "mismatched_parentheses"
  | emptyParentheses => "empty_parentheses"
  | doubleOperator => "double_operator"
  | leadingOperator => "leading_operator"
  | trailingOperator => "trailing_operator"
  | consecutiveOperators => "consecutive_operators"
  | unknownFunction => "unknown_function"
  | lowercaseVariable => "lowercase_variable"
  | unknownVariable => "unknown_variable"
  | undeclaredParameter => "undeclared_parameter"
  | nameCollision => "name_collision"
  | syntaxError => "syntax"
  | arity => "arity"
  | smokeTest => "smoke_test"

inductive Fault where
  | empty
  /-- Characters outside the alphabet, each once, and where the first of them stands. -/
  | invalidCharacters (first : Char) (others : List Char) (position : Nat)
  /-- A dot without digits. -/
  | loneDot (position : Nat)
  | tooLong (count : Nat)
  | unmatchedRight (position : Nat)
  | unmatchedLeft (count : Nat)
  | emptyParentheses (position : Nat)
  | doubledOperator (o : Operator) (position : Nat)
  | leadingOperator (o : Operator) (position : Nat)
  | trailingOperator (o : Operator) (position : Nat)
  | consecutiveOperators (first second : Operator) (position : Nat)
  /-- A declared name that is no identifier, as it is and as it is shown. -/
  | notIdentifier (name shown : String)
  | functionName (name : String)
  | stateVariableName (name : String)
  /-- A function that is not called. -/
  | bareFunction (name : String) (position : Nat)
  | unknownFunctions (first : String) (others : List String)
  | lowercaseVariables (first : String) (others : List String)
  | unknownVariables (first : String) (others known : List String)
  /-- As `unknownVariables`, in a formula with a single variable. -/
  | foreignVariables (first : String) (others : List String)
  | undeclaredParameters (first : String) (others declared : List String)
  | unexpectedEnd
  /-- A token that fits nothing here; `product` if it may stand after a missing `*`. -/
  | unexpectedToken (text : String) (position : Nat) (product : Bool)
  | unknownVariable (name : String) (position : Nat)
  | unknownFunction (name : String) (position : Nat)
  | wrongArity (f : Function) (given : Nat) (name : String) (position : Nat)
  /-- The formula cannot be evaluated at the point that is shown. -/
  | failedAt (point reason : String)
deriving DecidableEq, Repr

namespace Fault
open FaultKind (syntaxError)

def kind : Fault → FaultKind
  | empty => .empty
  | invalidCharacters .. => .invalidCharacter
  | unmatchedRight _ | unmatchedLeft _ => .mismatchedParentheses
  | emptyParentheses _ => .emptyParentheses
  | doubledOperator .. => .doubleOperator
  | leadingOperator .. => .leadingOperator
  | trailingOperator .. => .trailingOperator
  | consecutiveOperators .. => .consecutiveOperators
  | notIdentifier .. | functionName _ | stateVariableName _ => .nameCollision
  | unknownFunctions .. | unknownFunction .. => .unknownFunction
  | lowercaseVariables .. => .lowercaseVariable
  | unknownVariables .. | foreignVariables .. | unknownVariable .. => .unknownVariable
  | undeclaredParameters .. => .undeclaredParameter
  | loneDot _ | tooLong _ | bareFunction .. | unexpectedEnd | unexpectedToken .. => syntaxError
  | wrongArity .. => .arity
  | failedAt .. => .smokeTest

def token? : Fault → Option String
  | invalidCharacters first .. => some first.toString
  | loneDot _ => some "."
  | unmatchedRight _ => some ")"
  | unmatchedLeft _ => some "("
  | emptyParentheses _ => some "()"
  | doubledOperator o _ => some (o.text ++ o.text)
  | leadingOperator o _ | trailingOperator o _ => some o.text
  | consecutiveOperators first second _ => some (first.text ++ second.text)
  | notIdentifier name _ | functionName name | stateVariableName name => some name
  | bareFunction name _ => some name
  | unknownFunctions first _ | lowercaseVariables first _ | foreignVariables first _ => some first
  | unknownVariables first .. | undeclaredParameters first .. => some first
  | unexpectedToken text .. => some text
  | unknownVariable name _ | unknownFunction name _ => some name
  | wrongArity _ _ name _ => some name
  | empty | tooLong _ | unexpectedEnd | failedAt .. => none

def position? : Fault → Option Nat
  | invalidCharacters _ _ p | loneDot p | unmatchedRight p | emptyParentheses p => some p
  | doubledOperator _ p | leadingOperator _ p | trailingOperator _ p => some p
  | consecutiveOperators _ _ p | bareFunction _ p | unexpectedToken _ p _ => some p
  | unknownVariable _ p | unknownFunction _ p | wrongArity _ _ _ p => some p
  | _ => none

/-- How many arguments a function takes, in words. -/
def arityText (f : Function) : String :=
  let count := if f.isVariadic then "at least " ++ toString f.minArgs else toString f.minArgs
  if count = "1" then "1 argument" else count ++ " arguments"

def message : Fault → String
  | empty => "Equation cannot be empty"
  | invalidCharacters first others _ =>
    "Invalid characters: " ++ Text.joined ((first :: others).map Char.toString)
  | loneDot p => s!"Invalid syntax: '.' at position {p} is not a number"
  | tooLong count => s!"Invalid syntax: expression is too long ({count} tokens, at most 256)"
  | unmatchedRight p =>
    s!"Invalid syntax: mismatched parentheses, unexpected ')' at position {p}"
  | unmatchedLeft count => s!"Invalid syntax: mismatched parentheses, {count} unclosed '('"
  | emptyParentheses p => s!"Invalid syntax: empty parentheses at position {p}"
  | doubledOperator o _ =>
    s!"Invalid syntax: double operator '{o.text}{o.text}' is not allowed"
      ++ if o = .mul then " (use ^ for powers)" else ""
  | leadingOperator o _ => s!"Invalid syntax: expression cannot start with '{o.text}'"
  | trailingOperator o _ => s!"Invalid syntax: expression cannot end with operator '{o.text}'"
  | consecutiveOperators first second _ =>
    s!"Invalid syntax: consecutive operators '{first.text}{second.text}'"
  | notIdentifier _ shown => s!"Invalid name: {shown} is not an identifier"
  | functionName name => s!"Name collision: '{name}' is a built-in function"
  | stateVariableName name => s!"Name collision: '{name}' is the state variable"
  | bareFunction name _ => s!"Invalid syntax: function '{name}' must be followed by '('"
  | unknownFunctions first others =>
    "Unknown function: " ++ Text.joined (first :: others) ++ ". Allowed: "
      ++ Text.joined (Function.all.map Function.name)
  | lowercaseVariables first others =>
    "Use uppercase variables. Found: " ++ Text.joined (first :: others) ++ ". Use: "
      ++ Text.joined ((first :: others).map Text.upper)
  | unknownVariables first others known =>
    "Unknown variable: " ++ Text.joined (first :: others) ++ ". Use: " ++ Text.joined known
  | foreignVariables first others =>
    "Unknown variable: " ++ Text.joined (first :: others) ++ ". Use X for the variable."
  | undeclaredParameters first others declared =>
    "Undeclared parameter: " ++ Text.joined (first :: others) ++ ". Declare parameters: ["
      ++ Text.joined declared ++ "]"
  | unexpectedEnd => "Invalid syntax: unexpected end of expression"
  | unexpectedToken text p product =>
    s!"Invalid syntax: unexpected '{text}' at position {p}"
      ++ if product then " (use * for multiplication)" else ""
  | unknownVariable name _ => s!"Unknown variable: {name}"
  | unknownFunction name _ => s!"Unknown function: {name}"
  | wrongArity f given _ _ => s!"Function {f.name} expects {arityText f}, got {given}"
  | failedAt point reason => s!"Validation failed at ({point}): {reason}"

end Fault

end PhasePortrait
