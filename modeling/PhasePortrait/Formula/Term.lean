import PhasePortrait.Formula.Coefficient
import PhasePortrait.Formula.Symbol
import PhasePortrait.Formula.Tree
import PhasePortrait.Number.Reading
import PhasePortrait.Number.Written

/-!
# Formulas as symbolic terms

A formula is turned into a term over sums, products and powers, without simplification beyond what
writing it so entails: a difference adds a negation, a quotient multiplies by an inverse power, and
a negation moves into a number or into the leading number of a product.

Terms are made in two styles. A formula is echoed with whole numbers kept exact and functions as
mathematical ones, equal arguments of `min` and `max` taken once. It is compiled with every number
approximate and every function and power as a call. A whole number that is kept exact is read from
its digits, of which there may not be too many; a formula with a longer one has no echo.
-/
namespace PhasePortrait

inductive Term where
  | number (c : Coefficient)
  | symbol (s : Symbol)
  | constant (c : Constant)
  /-- The quotient of a number by zero. -/
  | undefined
  /-- A whole power of `e`, as a call of the exponential function. -/
  | exponential (n : Int)
  | sum (terms : List Term)
  | product (factors : List Term)
  | power (base exponent : Term)
  | call (f : Function) (args : List Term)
deriving Repr, Inhabited

namespace Term

mutual
/-- Equality of terms, part by part. -/
def same : Term → Term → Bool
  | number a, number b => a == b
  | symbol a, symbol b => a == b
  | constant a, constant b => a == b
  | undefined, undefined => true
  | exponential m, exponential n => m == n
  | sum ts, sum us => sameAll ts us
  | product ts, product us => sameAll ts us
  | power a m, power b n => same a b && same m n
  | call f ts, call g us => f == g && sameAll ts us
  | _, _ => false

def sameAll : List Term → List Term → Bool
  | [], [] => true
  | t :: ts, u :: us => same t u && sameAll ts us
  | _, _ => false
end

instance : BEq Term := ⟨same⟩

def integer (n : Int) : Term := number (.ofInt n)

def isNumber : Term → Bool
  | number _ => true
  | _ => false

/-- A product of any number of factors; one factor stands for itself. -/
def ofFactors : List Term → Term
  | [] => integer 1
  | [t] => t
  | ts => product ts

/-- The negation of a product after its exact leading number `c`, which has taken the sign. A second
number takes the product of both, and one of `-1` into itself. -/
def negateAfter (c : Coefficient) : List Term → Term
  | number m :: rest =>
    if c = .one then ofFactors (number m :: rest)
    else if c = .minusOne then ofFactors (number m.neg :: rest)
    else ofFactors (product [number m, number c] :: rest)
  | rest => if c = .one then ofFactors rest else product (number c :: rest)

/-- The negation of a term. -/
def negate : Term → Term
  | number c => number c.neg
  | product (number c :: rest) =>
    if c.isExact then negateAfter c.neg rest else product (number c.neg :: rest)
  | product ts => product (integer (-1) :: ts)
  | t => product [integer (-1), t]

def inverse (t : Term) : Term := power t (integer (-1))

def divide (a b : Term) : Term :=
  if a == integer 1 then inverse b else product [a, inverse b]

/-- What a style decides: how numbers, powers and calls are made. -/
structure Style where
  ofNumber : String → Term
  ofPower : Term → Term → Term
  ofCall : Function → List Term → Term

namespace Style

/-- A number text: whole if it is all digits, approximate otherwise. -/
def echoedNumber (text : String) : Term :=
  if text.toList.all Char.isDigit then integer (Decimal.ofDigits text.toList)
  else number (.approx (Approx.ofText text))

/-- Whether a number text is echoed: a whole number only with as many digits as are read. -/
def echoes (text : String) : Bool :=
  !text.toList.all Char.isDigit || text.toList.length ≤ Reading.maxDigits

/-- Each argument of `min` or `max` once; a single one stands for itself. -/
def extremum (f : Function) (args : List Term) : Term :=
  match args.eraseDups with
  | [t] => t
  | ts => call f ts

def echoedCall (f : Function) (args : List Term) : Term :=
  match f, args with
  | .sqrt, [a] => power a (number .half)
  | .pow, [a, b] => power a b
  | .ln, args => call .log args
  | .min, args => extremum .min args
  | .max, args => extremum .max args
  | f, args => call f args

def echo : Style := ⟨echoedNumber, power, echoedCall⟩

def compiled : Style :=
  ⟨fun text => number (.approx (Approx.ofText text)), fun a b => call .pow [a, b],
    call⟩

end Style

def ofBinary (style : Style) (o : Operator) (a b : Term) : Term :=
  match o with
  | .add => sum [a, b]
  | .sub => sum [a, negate b]
  | .mul => product [a, b]
  | .div => divide a b
  | .pow => style.ofPower a b

mutual
def ofTree (style : Style) : Tree String → Term
  | .number text => style.ofNumber text
  | .symbol name => symbol (.named name)
  | .constant c => constant c
  | .negate t => negate (ofTree style t)
  | .binary o l r => ofBinary style o (ofTree style l) (ofTree style r)
  | .call f args => style.ofCall f (ofTrees style args)

def ofTrees (style : Style) : List (Tree String) → List Term
  | [] => []
  | t :: ts => ofTree style t :: ofTrees style ts
end

/-- The echo of a formula, if all its numbers are echoed. -/
def echo? (t : Tree String) : Option Term :=
  if t.numbers.all Style.echoes then some (ofTree .echo t) else none

mutual
/-- Names of the symbols, as often as they occur. -/
def symbols : Term → List String
  | symbol s => [s.label]
  | sum ts => symbolsAll ts
  | product ts => symbolsAll ts
  | power a b => symbols a ++ symbols b
  | call _ ts => symbolsAll ts
  | number _ | constant _ | undefined | exponential _ => []

def symbolsAll : List Term → List String
  | [] => []
  | t :: ts => symbols t ++ symbolsAll ts
end

/-- Names of the symbols, each once and sorted. -/
def freeSymbols (t : Term) : List String :=
  sortBy (fun a b => !(decide (b < a))) t.symbols.eraseDups

/-- How a function is called in a term. -/
def functionName : Function → String
  | .abs => "Abs"
  | .ceil => "ceiling"
  | .min => "Min"
  | .max => "Max"
  | f => f.name

def constantName : Constant → String
  | .pi => "pi"
  | .e => "E"

/-- An exact number as it is, an approximate one with ten significant digits. -/
def numberText : Coefficient → String
  | .ratio n 1 => toString n
  | .ratio n d => toString n ++ "/" ++ toString d
  | .approx x => "Float(" ++ Written.answer 9 x.toFloat ++ ")"

def applied (name : String) (args : List String) : String := name ++ "(" ++ Text.joined args ++ ")"

mutual
/-- The term in words. Arguments of `min` and `max` have no order of their own and are sorted. -/
def outline : Term → String
  | number c => numberText c
  | symbol s => s.label
  | constant c => constantName c
  | undefined => "zoo"
  | exponential n => applied "exp" [toString n]
  | sum ts => applied "Add" (outlineAll ts)
  | product ts => applied "Mul" (outlineAll ts)
  | power a b => applied "Pow" [outline a, outline b]
  | call f ts =>
    let args := outlineAll ts
    applied (functionName f)
      (if f = .min ∨ f = .max then sortBy (fun a b => !(decide (b < a))) args else args)

def outlineAll : List Term → List String
  | [] => []
  | t :: ts => outline t :: outlineAll ts
end

end Term

end PhasePortrait
