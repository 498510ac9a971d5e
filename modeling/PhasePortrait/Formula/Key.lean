import PhasePortrait.Formula.Term

/-!
# Keys of terms

The factors of a product are written in the order of their keys. A key looks through the leading
number and the exponent of a term, so that numbers come first, then constants, symbols, products,
sums, powers of powers and calls, each together with its powers and multiples.
-/
namespace PhasePortrait

/-- What a term is filed under: its kind and name, the keys of its parts, and then its exponent and
its leading number. -/
inductive Key where
  | mk (rank : Nat) (name : String) (parts : List Key) (exponent : Int) (number : Coefficient)
deriving Repr, Inhabited

namespace Key

mutual
def compare : Key → Key → Ordering
  | mk rank₁ name₁ parts₁ exponent₁ number₁, mk rank₂ name₂ parts₂ exponent₂ number₂ =>
    (Ord.compare rank₁ rank₂).then <| (Ord.compare name₁ name₂).then <|
    (Ord.compare parts₁.length parts₂.length).then <| (compareAll parts₁ parts₂).then <|
    (Ord.compare exponent₁ exponent₂).then <| number₁.compare number₂

def compareAll : List Key → List Key → Ordering
  | a :: as, b :: bs => (compare a b).then (compareAll as bs)
  | _, _ => .eq
end

/-- Things with their keys, in the order of the keys. -/
def sortOn {α : Type} (key : α → Key) (xs : List α) : List (Key × α) :=
  sortBy (fun a b => a.1.compare b.1 != .gt) (xs.map fun x => (key x, x))

/-- The key of a power, or of a multiple of one. -/
def raised (n : Int) (number : Coefficient) : Key → Key
  | mk rank name parts _ _ => mk rank name parts n number

/-! ## Keys by kind -/

def ofNumber (c : Coefficient) : Key := mk 0 "" [] 1 c

/-- A number that stands behind another one is filed by its digits. -/
def ofDigits (c : Coefficient) : Key :=
  let digits := match c with
    | .ratio .. => Term.numberText c
    | .approx x => Written.signText x.isNegative ++ Written.allDigits x.toDecimal
  mk 0 digits [] 1 .one

def undefined : Key := mk 1 "" [] 1 .one

def ofConstant : Constant → Key
  | .e => mk 2 "" [] 1 .one
  | .pi => mk 3 "" [] 1 .one

def ofSymbol (s : Symbol) : Key := mk 4 s.label [] 1 .one

/-- A product by its factors as they are written. -/
def ofProduct (factors : List Key) : Key := mk 5 "" factors 1 .one

/-- A sum by its terms as they are written. -/
def ofSum (terms : List Key) : Key := mk 6 "" terms 1 .one

def ofPower (base exponent : Key) : Key := mk 7 "" [base, exponent] 1 .one

def ofCall (f : Function) (args : List Key) : Key := mk 8 f.identifier args 1 .one

def ofExponential (n : Int) : Key := mk 9 "" [ofNumber (.ofInt n)] 1 .one

end Key

end PhasePortrait
