import PhasePortrait.Formula.Fault
import PhasePortrait.Number.Lexeme

/-!
# From text to tokens

`tokenize` takes the longest number or name at each place and drops blanks. Characters outside the
alphabet are reported before anything else.
-/
namespace PhasePortrait.Formula
open Number

/-- The characters a formula may consist of, blanks apart. -/
def inAlphabet (c : Char) : Bool :=
  c.isAlphanum || c == '_' || c == '.' || c == '(' || c == ')' || c == ','
    || (Operator.ofChar? c).isSome

def isForeign (c : Char) : Bool := !Text.isBlank c && !inAlphabet c

def isNameChar (c : Char) : Bool := c.isAlphanum || c == '_'

theorem length_dropWhile_le (p : Char → Bool) (cs : List Char) :
    (cs.dropWhile p).length ≤ cs.length :=
  (List.dropWhile_suffix p).length_le

def punctuation? : Char → Option Lexeme
  | '(' => some .leftParen
  | ')' => some .rightParen
  | ',' => some .comma
  | c => (Operator.ofChar? c).map .operator

/-- Tokens of a text whose first character stands at the given position. -/
def scan (position : Nat) (cs : List Char) : Except Fault (List Token) :=
  match cs with
  | [] => .ok []
  | c :: rest =>
    if Text.isBlank c then scan (position + 1) rest
    else if h : c.isDigit || c == '.' then
      if c == '.' && !startsWithDigit rest then .error (.loneDot position)
      else do
        let lexeme := (splitNumber (c :: rest)).1
        have : (splitNumber (c :: rest)).2.length < (c :: rest).length := length_splitNumber_lt h
        let tokens ← scan (position + lexeme.length) (splitNumber (c :: rest)).2
        return ⟨.number (String.ofList lexeme), position⟩ :: tokens
    else if c.isAlpha then do
      let tail := rest.takeWhile isNameChar
      have := length_dropWhile_le isNameChar rest
      let tokens ← scan (position + 1 + tail.length) (rest.dropWhile isNameChar)
      return ⟨.name (String.ofList (c :: tail)), position⟩ :: tokens
    else
      match punctuation? c with
      | some lexeme => do
        let tokens ← scan (position + 1) rest
        return ⟨lexeme, position⟩ :: tokens
      | none => .error (.invalidCharacters c [] position)
termination_by cs.length
decreasing_by all_goals (simp only [List.length_cons] at *; omega)

/-- The characters outside the alphabet, each once, in order of appearance. -/
def foreignCharacters (cs : List Char) : List Char := (cs.filter isForeign).eraseDups

def tokenize (text : String) : Except Fault (List Token) :=
  let cs := text.toList
  match foreignCharacters cs with
  | first :: others => .error (.invalidCharacters first others (cs.idxOf first))
  | [] => scan 0 cs

end PhasePortrait.Formula
