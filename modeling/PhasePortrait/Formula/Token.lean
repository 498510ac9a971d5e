import PhasePortrait.Formula.Vocabulary

/-!
# Tokens

A token is a lexeme with the position of its first character, counted in code points from the start
of the formula.
-/
namespace PhasePortrait

inductive Lexeme where
  | number (text : String)
  | name (text : String)
  | operator (o : Operator)
  | leftParen
  | rightParen
  | comma
deriving DecidableEq, Repr

namespace Lexeme

def text : Lexeme → String
  | number t => t
  | name t => t
  | operator o => o.text
  | leftParen => "("
  | rightParen => ")"
  | comma => ","

/-- The class a lexeme is listed under. -/
def className : Lexeme → String
  | number _ => "NUMBER"
  | name _ => "IDENT"
  | operator _ => "OP"
  | leftParen => "LPAREN"
  | rightParen => "RPAREN"
  | comma => "COMMA"

/-- Lexemes that an operand can start with. -/
def startsOperand : Lexeme → Bool
  | number _ | name _ | leftParen => true
  | _ => false

/-- Lexemes that an operand can end with. -/
def endsOperand : Lexeme → Bool
  | number _ | name _ | rightParen => true
  | _ => false

end Lexeme

structure Token where
  lexeme : Lexeme
  position : Nat
deriving DecidableEq, Repr

abbrev Token.text (t : Token) : String := t.lexeme.text

end PhasePortrait
