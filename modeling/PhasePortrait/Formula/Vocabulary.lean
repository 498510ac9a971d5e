import PhasePortrait.Text.Basic

/-!
# Functions, constants and operators

The fixed words of the formula language. Functions and constants may be written in any letter case;
`Function.ofName?` and `Constant.ofName?` fold it away.
-/
namespace PhasePortrait

inductive Function where
  | abs | acos | asin | atan | ceil | cos | cosh | exp | floor | ln | log | log10 | max | min | pow
  | round | sign | sin | sinh | sqrt | tan | tanh
deriving DecidableEq, Repr

namespace Function

def name : Function → String
  | abs => "abs" | acos => "acos" | asin => "asin" | atan => "atan" | ceil => "ceil"
  | cos => "cos" | cosh => "cosh" | exp => "exp" | floor => "floor" | ln => "ln" | log => "log"
  | log10 => "log10" | max => "max" | min => "min" | pow => "pow" | round => "round"
  | sign => "sign" | sin => "sin" | sinh => "sinh" | sqrt => "sqrt" | tan => "tan"
  | tanh => "tanh"

/-- Every function, by name in alphabetical order. -/
def all : List Function :=
  [abs, acos, asin, atan, ceil, cos, cosh, exp, floor, ln, log, log10, max, min, pow, round, sign,
    sin, sinh, sqrt, tan, tanh]

theorem mem_all (f : Function) : f ∈ all := by cases f <;> decide

/-- The function with a name, in any letter case. -/
def ofName? (s : String) : Option Function := all.find? fun f => f.name == Text.lower s

@[simp] theorem ofName?_name (f : Function) : ofName? f.name = some f := by
  cases f <;> decide +kernel

/-- Names that are read alike agree up to letter case. -/
theorem ofName?_congr {s t : String} (h : Text.lower s = Text.lower t) : ofName? s = ofName? t := by
  unfold ofName?
  rw [h]

/-- The identifier that a function is called by in a line of arithmetic. -/
def identifier (f : Function) : String := "safe_" ++ f.name

/-- The least number of arguments. -/
def minArgs : Function → Nat
  | pow | min | max => 2
  | _ => 1

/-- Only `min` and `max` take any larger number of arguments. -/
def isVariadic : Function → Bool
  | min | max => true
  | _ => false

def admits (f : Function) (count : Nat) : Bool :=
  f.minArgs ≤ count && (f.isVariadic || count ≤ f.minArgs)

end Function

inductive Constant where
  | pi
  | e
deriving DecidableEq, Repr

namespace Constant

def name : Constant → String
  | pi => "pi"
  | e => "e"

/-- The constant with a name, in any letter case. -/
def ofName? (s : String) : Option Constant := [pi, e].find? fun c => c.name == Text.lower s

@[simp] theorem ofName?_name (c : Constant) : ofName? c.name = some c := by
  cases c <;> decide +kernel

theorem ofName?_congr {s t : String} (h : Text.lower s = Text.lower t) : ofName? s = ofName? t := by
  unfold ofName?
  rw [h]

end Constant

/-- Binary operators; `sub` is also the sign of a negation. -/
inductive Operator where
  | add | sub | mul | div | pow
deriving DecidableEq, Repr

namespace Operator

def symbol : Operator → Char
  | add => '+' | sub => '-' | mul => '*' | div => '/' | pow => '^'

def text (o : Operator) : String := o.symbol.toString

def all : List Operator := [add, sub, mul, div, pow]

def ofChar? (c : Char) : Option Operator := all.find? fun o => o.symbol == c

@[simp] theorem ofChar?_symbol (o : Operator) : ofChar? o.symbol = some o := by
  cases o <;> rfl

theorem ofChar?_eq_some_iff {c : Char} {o : Operator} : ofChar? c = some o ↔ c = o.symbol := by
  refine ⟨fun h => ?_, fun h => h ▸ ofChar?_symbol o⟩
  have := List.find?_some h
  exact (beq_iff_eq.mp this).symm

end Operator

end PhasePortrait
