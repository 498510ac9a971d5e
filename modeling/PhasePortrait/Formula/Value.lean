import PhasePortrait.Formula.Apply
import PhasePortrait.Formula.Line

/-!
# Values of formulas

A line of arithmetic is evaluated over bindings of its symbols. Operands are plain or shielded.
Literals are plain, and so is what is computed from plain operands alone; constants, values of
functions and whatever they touch are shielded. Dividing plain by plain zero stops the evaluation,
and so does a power of plain numbers that divides by zero or overflows, while a shielded operand
turns the outcome into an infinity or `nan` that the evaluation goes on with.

Operands are also whole or not. Whole literals are whole, and so are sums, differences and products
of whole operands, and their values under the functions that only round, compare or drop a sign. A
whole zero has no sign.

The value of a formula is the number it arrives at, if it arrives at a finite one, and `nan`
otherwise. A formula that arrives at a whole operand has no value at all: the battery refuses it.

Declared names also reach beyond the symbols of a formula: a declared `pi` or `e` stands for the
constant in any spelling, and a declared name that is the identifier of a function takes the
function's place, after which calls of it fail.
-/
namespace PhasePortrait
open Scalar

structure Operand (α : Type) where
  value : α
  plain : Bool
  whole : Bool

/-- Values of symbols. -/
abbrev Bindings (α : Type) := List (Symbol × Operand α)

inductive Stop where
  | divisionByZero
  | overflow
  | notCallable (f : Function)
deriving DecidableEq, Repr

variable {α : Type} [Elementary α]

namespace Function

/-- Functions whose value at whole numbers is whole. -/
def keepsWhole : Function → Bool
  | abs | ceil | floor | max | min | sign => true
  | _ => false

end Function

namespace Operand

/-- A number that is no whole operand. -/
def ofValue (plain : Bool) (value : α) : Operand α := ⟨value, plain, false⟩

/-- A whole operand; its zero has no sign. -/
def ofWhole (plain : Bool) (value : α) : Operand α :=
  ⟨if isZero value then 0.0 else value, plain, true⟩

def ofNumber (plain whole : Bool) (value : α) : Operand α :=
  if whole then ofWhole plain value else ofValue plain value

/-- Arithmetic on operands; the outcome is plain if both are, and whole if both are. -/
def arithmetic (op : α → α → α) (a b : Operand α) : Operand α :=
  ofNumber (a.plain && b.plain) (a.whole && b.whole) (op a.value b.value)

def divide (a b : Operand α) : Except Stop (Operand α) :=
  if a.plain && b.plain && isZero b.value then .error .divisionByZero
  else .ok (ofValue (a.plain && b.plain) (a.value / b.value))

def negate (a : Operand α) : Operand α := ofNumber a.plain a.whole (-a.value)

def wholeNumber (n : Int) : α := if n < 0 then -(n.natAbs : α) else (n.natAbs : α)

/-- A whole power. -/
def raise (a : Operand α) (n : Int) : Except Stop (Operand α) :=
  let v := Elementary.pow a.value (wholeNumber n)
  if a.plain && isZero a.value && n < 0 then .error .divisionByZero
  else if a.plain && isFinite a.value && !isFinite v then .error .overflow
  else .ok (ofNumber a.plain (a.whole && 0 ≤ n) v)

end Operand

namespace Bindings

/-- Whether a function's identifier has been declared. -/
def replaces (b : Bindings α) (identifier : String) : Bool :=
  (b.lookup (.named identifier)).isSome

/-- The value of a symbol; symbols without a value have none. -/
def value (b : Bindings α) (s : Symbol) : Operand α :=
  (b.lookup s).getD (Operand.ofValue false nan)

/-- The value of a constant, unless a declared name has taken its place. -/
def constant (b : Bindings α) (c : Constant) : Operand α :=
  (b.lookup (.named c.name)).getD (Operand.ofValue false c.value)

/-- Call a function unless a declared name has taken its place. -/
def call (b : Bindings α) (f : Function) (args : List (Operand α)) : Except Stop (Operand α) :=
  if b.replaces f.identifier then .error (.notCallable f)
  else .ok (Operand.ofNumber false (f.keepsWhole && args.all Operand.whole)
    (f.apply (args.map Operand.value)))

/-- A whole power of `e`. -/
def exponential (b : Bindings α) (n : Int) : Except Stop (Operand α) :=
  if b.replaces Function.exp.name then .error (.notCallable .exp)
  else .ok (Operand.ofValue false (Elementary.exp (Operand.wholeNumber n)))

def combine (b : Bindings α) (o : Operator) (x y : Operand α) : Except Stop (Operand α) :=
  match o with
  | .add => .ok (Operand.arithmetic (· + ·) x y)
  | .sub => .ok (Operand.arithmetic (· - ·) x y)
  | .mul => .ok (Operand.arithmetic (· * ·) x y)
  | .div => Operand.divide x y
  | .pow => b.call .pow [x, y]

end Bindings

namespace Line

mutual
/-- Operands are evaluated from left to right, and a stop ends the whole evaluation. -/
def eval (b : Bindings α) : Line α → Except Stop (Operand α)
  | literal v => .ok (Operand.ofValue true v)
  | whole n => .ok (Operand.ofWhole true (n : α))
  | undefined => .ok (Operand.ofValue true nan)
  | symbol s => .ok (b.value s)
  | constant c => .ok (b.constant c)
  | negate t => do
    let x ← eval b t
    return x.negate
  | binary o l r => do
    let x ← eval b l
    let y ← eval b r
    b.combine o x y
  | power t n => do
    let x ← eval b t
    x.raise n
  | exponential n => b.exponential n
  | call f ts => do
    let xs ← evalAll b ts
    b.call f xs

def evalAll (b : Bindings α) : List (Line α) → Except Stop (List (Operand α))
  | [] => .ok []
  | t :: ts => do
    let x ← eval b t
    let xs ← evalAll b ts
    return x :: xs
end

/-- The finite number that a line arrives at, or `nan`. -/
def value (b : Bindings α) (t : Line α) : α :=
  match t.eval b with
  | .ok x => finiteOrNaN x.value
  | .error _ => nan

end Line

end PhasePortrait
