import PhasePortrait.Formula.Apply
import PhasePortrait.Formula.Combine
import PhasePortrait.Formula.Key
import PhasePortrait.Number.Double

/-!
# The order that terms are written in

Factors are written in the order of their keys. The terms of a sum are written by falling exponents
of the bases that their factors are powers of, taken in the order of the keys of these bases; terms
with the same exponents by rising numbers. A sum of a positive number and a single negative multiple
starts with the number.

The base of a factor that is itself a product is the combined product of its bases. So keys depend
on the order of sums, and this order on keys of terms that are no part of the formula:
`Term.nextKey` gives the key of a term from the keys of other terms, and `Term.filedKey` gets
these from the keys on file or works them out to a depth.
-/
namespace PhasePortrait

namespace Term
open Combination

/-! ## Values of closed terms -/

mutual
/-- The value of a term without symbols and calls. -/
def closedValue : Term → Float
  | number c => c.toFloat
  | constant c => c.value
  | exponential n => Elementary.exp (Float.ofInt n)
  | sum ts => (closedValues ts).foldl (· + ·) 0.0
  | product ts => (closedValues ts).foldl (· * ·) 1.0
  | power b (number (.ratio n _)) => Float.pow (closedValue b) (Float.ofInt n)
  | undefined | symbol _ | power .. | call .. => Scalar.nan

def closedValues : List Term → List Float
  | [] => []
  | t :: ts => closedValue t :: closedValues ts
end

/-! ## Terms of a sum -/

mutual
/-- The base and the exponent of a factor. If the factors of a product have one exponent in common,
so does the product. -/
def factorBase : Term → Term × Int
  | product ts =>
    match factorBases ts with
    | (b, n) :: rest =>
      if rest.all fun (_, m) => m == n then
        ((product ts).combination.ofProduct (b :: rest.map Prod.fst), n)
      else (product ts, 1)
    | [] => (product ts, 1)
  | power b (number (.ratio n 1)) => (b, n)
  | exponential n => (constant .e, n)
  | t => (t, 1)

def factorBases : List Term → List (Term × Int)
  | [] => []
  | t :: ts => factorBase t :: factorBases ts
end

/-- A term of a sum with its number and its exponents by base, as it is sorted among others. -/
structure Summand where
  term : Term
  number : Float
  powers : List (Term × Int)

namespace Summand

def ofTerm (t : Term) : Summand :=
  let (c, rest) := splitNumber t
  let factors := match rest with
    | product fs => fs
    | t => [t]
  let (closed, others) := factors.partition isClosed
  ⟨t, (closed.map closedValue).foldl (· * ·) c.toFloat, others.map factorBase⟩

/-- The exponent of a base. Of factors with the same base the last one counts. -/
def exponent (s : Summand) (base : Term) : Int := (s.powers.reverse.lookup base).getD 0

/-- Falling exponents of the given bases, then rising numbers. -/
def compare : List Term → Summand → Summand → Ordering
  | [], a, b =>
    if a.number < b.number then .lt else if b.number < a.number then .gt else .eq
  | base :: bases, a, b =>
    (Ord.compare (b.exponent base) (a.exponent base)).then (compare bases a b)

end Summand

def isNumeral : Term → Bool
  | number _ | constant _ => true
  | _ => false

def isPositiveNumeral : Term → Bool
  | number c => !c.isNegative && !c.isZero
  | constant _ => true
  | _ => false

/-- A product of a negative number and one more factor. -/
def isNegatedFactor : Term → Bool
  | product [number c, _] => c.isNegative
  | product [t, number c] => !t.isNumeral && c.isNegative
  | _ => false

variable (keyOf : Term → Key)

def byExponents (ts : List Term) : List Term :=
  let summands := ts.map Summand.ofTerm
  let bases := (summands.flatMap fun s => s.powers.map Prod.fst).eraseDups
  let bases := (Key.sortOn keyOf bases).map Prod.snd
  (sortBy (fun a b => Summand.compare bases a b != .gt) summands).map Summand.term

/-- The terms of a sum as they are written. -/
def writtenTerms (ts : List Term) : List Term :=
  match ts.filter isNumeral ++ ts.filter fun t => !t.isNumeral with
  | [a, b] => if a.isPositiveNumeral && b.isNegatedFactor then [a, b] else byExponents keyOf ts
  | _ => byExponents keyOf ts

/-! ## Factors of a product -/

/-- The factors of a product as they are written, with their keys. A leading negative number is
written as minus one and its magnitude. -/
def keyedFactors (fs : List Term) : List (Key × Term) :=
  Key.sortOn keyOf <| match fs with
    | number c :: rest =>
      if c.isNegative && c != .minusOne then integer (-1) :: number c.neg :: rest else fs
    | _ => fs

/-- The factors of a product as they are written. -/
def writtenFactors (fs : List Term) : List Term := (keyedFactors keyOf fs).map Prod.snd

/-! ## Keys of terms -/

/-- The key of a term apart from its exponent and its leading number. -/
def nextBaseKey : Term → Key
  | number c => .ofDigits c
  | symbol s => .ofSymbol s
  | constant c => .ofConstant c
  | undefined => .undefined
  | exponential n => .ofExponential n
  | sum ts => .ofSum ((writtenTerms keyOf ts).map keyOf)
  | product fs => .ofProduct ((keyedFactors keyOf fs).map Prod.fst)
  | power b e => .ofPower (keyOf b) (keyOf e)
  | call f ts => .ofCall f (ts.map keyOf)

def nextKey : Term → Key
  | number c => .ofNumber c
  | t =>
    let (c, u) := splitNumber t
    match u with
    | power (constant .e) (number (.ratio n 1)) => (Key.ofExponential n).raised 1 c
    | power b (number (.ratio n 1)) => (nextBaseKey keyOf b).raised n c
    | u => (nextBaseKey keyOf u).raised 1 c

/-- The key of a term: one on file, or worked out to a depth. -/
def filedKey (file : List (Term × Key)) : Nat → Term → Key
  | 0, _ => .undefined
  | depth + 1, t =>
    match file.lookup t with
    | some key => key
    | none => nextKey (filedKey file depth) t

mutual
/-- A term and its parts, each after its own parts. -/
def parts : Term → List Term
  | sum ts => partsAll ts ++ [sum ts]
  | product ts => partsAll ts ++ [product ts]
  | power b e => parts b ++ parts e ++ [power b e]
  | call f ts => partsAll ts ++ [call f ts]
  | t => [t]

def partsAll : List Term → List Term
  | [] => []
  | t :: ts => parts t ++ partsAll ts
end

/-- The keys of a term and its parts, worked out to a depth. -/
def keys (depth : Nat) (t : Term) : List (Term × Key) :=
  t.parts.eraseDups.foldl (fun file u => (u, filedKey file depth u) :: file) []

end Term

end PhasePortrait
