import PhasePortrait.Formula.Term

/-!
# An order on terms

`Term.compare` is the order in which sums and products keep their parts when they are combined:
by kind of term first, then part by part.
-/
namespace PhasePortrait

namespace Term

/-- Position of a term among the kinds of terms. Kinds that share a position have a name. -/
def kind : Term → Nat × String
  | number c => (c.rank, "")
  | constant .e => (10, "")
  | constant .pi => (11, "")
  | symbol _ => (12, "")
  | power .. => (13, "")
  | product _ => (14, "")
  | sum _ => (15, "")
  | undefined => (16, "")
  | exponential _ => (17, "")
  | call f _ => (18, f.identifier)

def compareNumbers (a b : Coefficient) : Ordering :=
  (Ord.compare a.rank b.rank).then (a.comparePartwise b)

mutual
def compare (t u : Term) : Ordering :=
  (Ord.compare t.kind.1 u.kind.1).then <| (Ord.compare t.kind.2 u.kind.2).then <|
  match t, u with
  | number a, number b => a.comparePartwise b
  | symbol a, symbol b => Ord.compare a.label b.label
  | exponential m, exponential n => compareNumbers (.ofInt m) (.ofInt n)
  | power a m, power b n => (compare a b).then (compare m n)
  | product ts, product us => (Ord.compare ts.length us.length).then (compareAll ts us)
  | sum ts, sum us => (Ord.compare ts.length us.length).then (compareAll ts us)
  | call _ ts, call _ us => (Ord.compare ts.length us.length).then (compareAll ts us)
  | _, _ => .eq

def compareAll : List Term → List Term → Ordering
  | t :: ts, u :: us => (compare t u).then (compareAll ts us)
  | _, _ => .eq
end

/-- Parts in the order that combined sums and products keep. -/
def sortParts (ts : List Term) : List Term := sortBy (fun a b => a.compare b != .gt) ts

mutual
/-- Whether no symbol and no call occurs. -/
def isClosed : Term → Bool
  | number _ | constant _ | undefined | exponential _ => true
  | symbol _ | call .. => false
  | sum ts => allClosed ts
  | product ts => allClosed ts
  | power b e => isClosed b && isClosed e

def allClosed : List Term → Bool
  | [] => true
  | t :: ts => isClosed t && allClosed ts
end

end Term

end PhasePortrait
