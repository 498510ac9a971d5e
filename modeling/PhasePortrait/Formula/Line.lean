import PhasePortrait.Formula.WrittenOrder

/-!
# Lines of arithmetic

A term is written down as a line of arithmetic before it is evaluated: whole and decimal literals,
symbols, constants and calls, put together by signs, sums, differences, products and quotients that
are worked off from left to right. Each approximate number becomes a decimal literal of as many
digits as it is known to.

A product is written as a sign, its other factors, and a division by the bases of its inverse
powers. A negative leading number gives the sign and is then combined with what follows it. Parts
are set apart by parentheses if they bind no stronger than the product does; under a sign a product
binds as weakly as a sum, so the products in it are written out without parentheses, and their
factors and divisors join the line.
-/
namespace PhasePortrait

/-- A line of arithmetic with literals of any type `ν`. -/
inductive Line (ν : Type) where
  | literal (v : ν)
  | whole (n : Nat)
  | undefined
  | symbol (s : Symbol)
  | constant (c : Constant)
  | negate (operand : Line ν)
  | binary (o : Operator) (left right : Line ν)
  /-- A whole power. -/
  | power (base : Line ν) (n : Int)
  /-- A whole power of `e`. -/
  | exponential (n : Int)
  | call (f : Function) (args : List (Line ν))
deriving Repr, Inhabited

namespace Line
variable {ν μ : Type}

mutual
/-- Replace every literal. -/
def map (g : ν → μ) : Line ν → Line μ
  | literal v => literal (g v)
  | whole n => whole n
  | undefined => undefined
  | symbol s => symbol s
  | constant c => constant c
  | negate x => negate (map g x)
  | binary o x y => binary o (map g x) (map g y)
  | power x n => power (map g x) n
  | exponential n => exponential n
  | call f xs => call f (mapAll g xs)

def mapAll (g : ν → μ) : List (Line ν) → List (Line μ)
  | [] => []
  | x :: xs => map g x :: mapAll g xs
end

end Line

/-- A part of a line: a first operand, and operators with further operands, perhaps behind a
sign. -/
structure Run where
  negative : Bool
  first : Line Decimal
  rest : List (Operator × Line Decimal)

namespace Run

def ofLine (x : Line Decimal) : Run := ⟨false, x, []⟩

def applyAll (first : Line Decimal) (rest : List (Operator × Line Decimal)) : Line Decimal :=
  rest.foldl (fun x (o, y) => .binary o x y) first

/-- The run without its sign. -/
def unsigned (r : Run) : Line Decimal := applyAll r.first r.rest

/-- The run as it stands: a sign belongs to the first operand. -/
def line (r : Run) : Line Decimal :=
  applyAll (if r.negative then .negate r.first else r.first) r.rest

/-- The run as factors of a longer one. -/
def factors (r : Run) : List (Operator × Line Decimal) :=
  (.mul, if r.negative then .negate r.first else r.first) :: r.rest

/-- A run of factors, the first of which has nothing before it. -/
def ofFactors (negative : Bool) : List (Operator × Line Decimal) → Run
  | (_, x) :: rest => ⟨negative, x, rest⟩
  | [] => ⟨negative, .whole 1, []⟩

/-- Runs one after the other, each joined by its sign. -/
def joined : List Run → Line Decimal
  | [] => .whole 0
  | first :: rest =>
    rest.foldl (fun x r => .binary (if r.negative then .sub else .add) x r.unsigned) first.line

def ofNumber (c : Coefficient) : Run :=
  match c with
  | .ratio n 1 => ⟨n < 0, .whole n.natAbs, []⟩
  | .ratio n d => ⟨n < 0, .whole n.natAbs, [(.div, .whole d)]⟩
  | .approx x => ⟨x.isNegative, .literal x.toDecimal, []⟩

end Run

namespace Term

/-- How strongly the parts of a line hold together. -/
inductive Binding where
  | sum | product | sign | power | call | atom
deriving DecidableEq, Repr

def Binding.strength : Binding → Nat
  | sum => 0 | product => 1 | sign => 2 | power => 3 | call => 4 | atom => 5

def Binding.ofNumber (c : Coefficient) : Binding :=
  match c with
  | .ratio _ 1 | .approx _ => if c.isNegative then .sum else .atom
  | .ratio .. => if c.isNegative then .sum else .product

/-- How strongly a term holds together; behind a minus sign, no stronger than a sum. -/
def binding : Term → Binding
  | number c => .ofNumber c
  | product (number c :: _) => if c.isNegative then .sum else .product
  | product _ => .product
  | sum _ => .sum
  | power .. => .power
  | call .. | exponential _ => .call
  | symbol _ | constant _ | undefined => .atom

/-- The base and exponent that a factor divides by. -/
def divisor? : Term → Option (Term × Nat)
  | power b (number (.ratio n 1)) => if n < 0 then some (b, n.natAbs) else none
  | _ => none

variable (keyOf : Term → Key)

/-- A sign, and the factors behind it: a leading negative number is combined with the rest. -/
def signedFactors (t : Term) : Bool × List Term :=
  let (c, rest) := Combination.splitNumber t
  let unsigned := if c.isNegative then t.combination.scaled c.neg rest else t
  match unsigned with
  | product fs => (c.isNegative, writtenFactors keyOf fs)
  | t => (c.isNegative, [t])

/-- Write a term, nested at most so deep, given how to write its parts. -/
def runWith (part : Term → Run) : Term → Run
  | number c => .ofNumber c
  | symbol s => .ofLine (.symbol s)
  | constant c => .ofLine (.constant c)
  | undefined => .ofLine .undefined
  | exponential n => .ofLine (.exponential n)
  | power b (number (.ratio n 1)) => .ofLine (.power (part b).line n)
  | power b e => .ofLine (.call .pow [(part b).line, (part e).line])
  | call f ts => .ofLine (.call f (ts.map fun t => (part t).line))
  | sum ts =>
    let runs := (writtenTerms keyOf ts).map fun
      | sum us => .ofLine (part (sum us)).line
      | t => part t
    .ofLine (Run.joined runs)
  | product fs =>
    let t := product fs
    let (negative, factors) := signedFactors keyOf t
    let numerators := factors.filter fun f => (divisor? f).isNone
    let divisors := (factors.filterMap divisor?).map fun (b, n) =>
      if n = 1 then (part b).line else .power (part b).line n
    let level := if negative && numerators.length ≤ 1 then Binding.sign else t.binding
    let apart (f : Term) : List (Operator × Line Decimal) :=
      if f.binding.strength ≤ level.strength then [(.mul, (part f).line)] else (part f).factors
    let numerators := match numerators with
      | [] => [(.mul, .whole 1)]
      | fs => fs.flatMap apart
    let divisor := match divisors with
      | [] => []
      | d :: ds => [(.div, ds.foldl (fun x y => .binary .mul x y) d)]
    Run.ofFactors negative (numerators ++ divisor)

/-- Write a term to a depth. -/
def run : Nat → Term → Run
  | 0, _ => .ofLine .undefined
  | depth + 1, t => runWith keyOf (run depth) t

/-- The line of arithmetic that a term is written as. -/
def line (t : Term) : Line Decimal :=
  let depth := t.ample
  let file := t.keys depth
  (run (filedKey file depth) depth t).line

end Term

end PhasePortrait
