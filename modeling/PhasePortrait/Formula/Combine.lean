import PhasePortrait.Formula.TermOrder

/-!
# Combining terms

A sum, product or power whose parts may be combined: numbers are added or multiplied up, like terms
and powers of one base are collected, nested sums and products are spread out, a number times a sum
is distributed, and a power of a product is a product of powers. Parts are kept in the order of
`Term.compare`.

The parts themselves need not be combined. What is put together from them is combined again, at
most to a given depth; `Combination.level` gives the rules for a depth, and terms are left as they
are below it.
-/
namespace PhasePortrait

/-- Ways to make a sum, a product and a whole power. -/
structure Combination where
  ofSum : List Term → Term
  ofProduct : List Term → Term
  ofPower : Term → Int → Term

namespace Combination
open Term

/-- Nothing is combined. -/
def bare : Combination := ⟨sum, ofFactors, fun b n => power b (integer n)⟩

/-! ## Parts -/

/-- The leading number of a product, one for other terms, and the rest. -/
def splitNumber : Term → Coefficient × Term
  | product (number c :: rest) => (c, ofFactors rest)
  | t => (.one, t)

/-- The base and the exponent of a term as a factor. -/
def baseAndExponent : Term → Term × Int
  | power b (number (.ratio n 1)) => (b, n)
  | exponential n => (constant .e, n)
  | t => (t, 1)

/-- Terms free of products: first those that are none, then the factors of the others. -/
def spreadProducts : Nat → List Term → List Term
  | 0, ts => ts
  | _ + 1, [] => []
  | depth + 1, ts =>
    ts.filter (fun | product _ => false | _ => true)
      ++ spreadProducts depth (ts.flatMap fun | product fs => fs | _ => [])

/-- Terms free of sums: first those that are none, then the terms of the others. -/
def spreadSums : Nat → List Term → List Term
  | 0, ts => ts
  | _ + 1, [] => []
  | depth + 1, ts =>
    ts.filter (fun | sum _ => false | _ => true)
      ++ spreadSums depth (ts.flatMap fun | sum us => us | _ => [])

/-- Add to the amount kept for a term, at its first place. -/
def collect {κ : Type} (add : κ → κ → κ) (kept : List (Term × κ)) (item : Term × κ) :
    List (Term × κ) :=
  if kept.any fun (t, _) => t == item.1 then
    kept.map fun (t, a) => if t == item.1 then (t, add a item.2) else (t, a)
  else kept ++ [item]

/-- A number met in a sum or product, if the term is one. -/
def number? : Term → Option (Option Coefficient)
  | number c => some (some c)
  | undefined => some none
  | power (number c) (number (.ratio n 1)) => some (c.pow? n)
  | _ => none

/-- The numbers among terms, or nothing if one of them is undefined. -/
def numbers? (ts : List Term) : Option (List Coefficient) := (ts.filterMap number?).mapM id

variable (lower : Combination)

/-! ## Negation and multiples -/

def negated : Term → Term
  | sum ts => lower.ofProduct [integer (-1), sum ts]
  | t => t.negate

/-- A multiple of a term, the number staying apart from a sum. -/
def scaled (c : Coefficient) (t : Term) : Term :=
  if t == integer 1 then number c
  else if c = .one then t
  else if c = .minusOne then lower.negated t
  else match t with
    | sum ts => product [number c, sum ts]
    | product (number d :: rest) =>
      let e := d.mul c
      ofFactors (if e.same .one then rest else number e :: rest)
    | product fs => product (number c :: fs)
    | t =>
      let m := lower.ofProduct [number c, t]
      if m.isNumber && !t.isNumber then product [number c, t] else m

/-! ## Powers -/

/-- A whole power of a sum with approximate numbers other than its inverse: the largest number is
taken out. -/
def sumPower (ts : List Term) (n : Int) : Term :=
  let parts := ts.map fun
    | number c => (c, integer 1)
    | t => splitNumber t
  let big := parts.foldl (fun big (c, _) => if c.abs.compare big != .lt then c.abs else big)
    Coefficient.minusOne
  if n = -1 ∨ parts.all (fun (c, _) => c.isExact) ∨ big.same .one then power (sum ts) (integer n)
  else
    let rest := parts.map fun (c, t) =>
      let d := if c = big then .one else if c = big.neg then .minusOne else c.div big
      lower.ofProduct [number d, t]
    lower.ofProduct [lower.ofPower (number big) n, lower.ofPower (lower.ofSum rest) n]

/-- A power of a product, factor by factor. -/
def productPower (fs : List Term) (n : Int) : Term :=
  lower.ofProduct [lower.ofProduct (fs.map fun f => power f (integer n)),
    power (integer 1) (integer n)]

def nextPower (b : Term) (n : Int) : Term :=
  if n = 0 then integer 1
  else if n = 1 then b
  else match b with
    | number c => ((c.pow? n).map number).getD undefined
    | undefined => undefined
    | constant .e => exponential n
    | exponential m => if m * n = 1 then constant .e else exponential (m * n)
    | power b (number (.ratio m 1)) => lower.ofPower b (m * n)
    | product (number c :: rest) =>
      let fs := number c :: rest
      if c.isNegative && (product fs).isClosed then
        let positive := negate (product fs)
        if n % 2 = 0 then
          match positive with
          | product gs => lower.productPower gs n
          | t => lower.ofPower t n
        else lower.negated (lower.ofPower positive n)
      else lower.productPower fs n
    | product fs => lower.productPower fs n
    | sum ts =>
      if (sum ts).isClosed then power (sum ts) (integer n) else lower.sumPower ts n
    | t => power t (integer n)

/-! ## Products -/

/-- The powers of collected bases, and these bases with their exponents as far as a power is one of
another base. -/
def raised (powers : List (Term × Int)) : List Term × List (Term × Int) :=
  let items := (powers.filter fun (_, n) => n != 0).map fun (b, n) =>
    let p := if n = 1 then b else lower.ofPower b n
    match b, p with
    | power .., p => (p, (b, n))
    | _, power .. => (p, baseAndExponent p)
    | b, p => (p, (b, n))
  items.unzip

/-- Powers of collected bases, collected once more if two of them turn out to have one base. -/
def raisedTwice (powers : List (Term × Int)) : List Term :=
  let (parts, again) := lower.raised powers
  let collected := again.foldl (collect (· + ·)) []
  if collected.length < again.length then (lower.raised collected).1 else parts

/-- Put a number in front of sorted factors. A number and a sum are distributed. -/
def inFront (c : Coefficient) (fs : List Term) : List Term :=
  let fs := sortParts fs
  match if c = .one then fs else number c :: fs with
  | [number c, sum ts] => [lower.ofSum (ts.map fun t => lower.ofProduct [number c, t])]
  | fs => fs

/-- The factors of a combined product. -/
def factors (depth : Nat) (ts : List Term) : List Term :=
  let ts := spreadProducts depth ts
  match numbers? ts with
  | none => [undefined]
  | some cs =>
    let c := cs.foldl Coefficient.mul .one
    let powers := (ts.filter fun t => (number? t).isNone).map baseAndExponent
    let parts := lower.raisedTwice (powers.foldl (collect (· + ·)) [])
    if parts.contains undefined then [undefined]
    else if c.isZero then [number c]
    else
      match numbers? (parts.filter isNumber) with
      | none => [undefined]
      | some more =>
        lower.inFront (more.foldl Coefficient.mul c) (parts.filter fun t => !t.isNumber)

/-- An exact number times a sum, which may have a number of its own. -/
def timesSum (c r : Coefficient) (ts : List Term) : Term :=
  if r = .one then lower.ofSum (ts.map (lower.scaled c))
  else
    let d := c.mul r
    if d = .one then sum ts else product [number d, sum ts]

def nextProduct (depth : Nat) (ts : List Term) : Term :=
  match ts.filter (· != integer 1) with
  | [] => integer 1
  | [t] => t
  | [a, b] =>
    let isExact : Term → Bool := fun | number c => c.isExact | _ => false
    let (a, b) := if isExact b then (b, a) else (a, b)
    match a, splitNumber b with
    | number c, (r, sum us) =>
      if c.isExact && !c.isZero then lower.timesSum c r us
      else ofFactors (lower.factors depth [a, b])
    | _, _ => ofFactors (lower.factors depth [a, b])
  | ts => ofFactors (lower.factors depth ts)

/-! ## Sums -/

/-- A multiple of a term as part of a sum. -/
def multiple (t : Term) (c : Coefficient) : Term :=
  if c = .one then t
  else match t with
    | product fs => product (number c :: fs)
    | sum ts => product [number c, sum ts]
    | t => lower.ofProduct [number c, t]

/-- A sum of any number of terms; one term stands for itself. -/
def ofTerms : List Term → Term
  | [] => integer 0
  | [t] => t
  | ts => sum ts

/-- Collect like terms and put the number in front. -/
def collectedSum (depth : Nat) (ts : List Term) : Term :=
  let ts := spreadSums depth ts
  match numbers? ts with
  | none => undefined
  | some cs =>
    let c := cs.foldl Coefficient.add .zero
    let items := (ts.filter fun t => (number? t).isNone).map splitNumber
    let kept := (items.map fun (c, t) => (t, c)).foldl (collect Coefficient.add) []
    let terms := (kept.filter fun (_, c) => !c.isZero).map fun (t, c) => lower.multiple t c
    ofTerms (if c = .zero then sortParts terms else number c :: sortParts terms)

def nextSum (depth : Nat) (ts : List Term) : Term :=
  match ts.filter (· != integer 0) with
  | [] => integer 0
  | [t] => t
  | [number (.ratio n d), product fs] | [product fs, number (.ratio n d)] =>
    sum [number (.ratio n d), product fs]
  | ts => lower.collectedSum depth ts

/-! ## Levels -/

def next (depth : Nat) : Combination :=
  ⟨lower.nextSum depth, lower.nextProduct depth, lower.nextPower⟩

/-- The rules to a depth. -/
def level : Nat → Combination
  | 0 => bare
  | depth + 1 => (level depth).next (depth + 1)

end Combination

namespace Term

mutual
/-- How deep a term is nested. -/
def depth : Term → Nat
  | sum ts => depthAll ts + 1
  | product ts => depthAll ts + 1
  | power b e => max (depth b) (depth e) + 1
  | call _ ts => depthAll ts + 1
  | number _ | symbol _ | constant _ | undefined | exponential _ => 1

def depthAll : List Term → Nat
  | [] => 0
  | t :: ts => max (depth t) (depthAll ts)
end

/-- A depth to which all parts of a term and what is combined from them are combined. -/
def ample (t : Term) : Nat := 4 * t.depth + 16

/-- The rules for parts of a term. -/
def combination (t : Term) : Combination := .level t.ample

mutual
/-- Put a symbol in the place of another. Every term around it is combined anew, all others stay as
they are. -/
def rename (rules : Combination) (old new : Symbol) : Term → Term × Bool
  | symbol s => if s = old then (symbol new, true) else (symbol s, false)
  | sum ts =>
    let (us, changed) := renameAll rules old new ts
    (if changed then rules.ofSum us else sum ts, changed)
  | product ts =>
    let (us, changed) := renameAll rules old new ts
    (if changed then rules.ofProduct us else product ts, changed)
  | power b e =>
    let (a, changed) := rename rules old new b
    match changed, e with
    | true, number (.ratio n 1) => (rules.ofPower a n, true)
    | _, _ => (power a e, changed)
  | call f ts =>
    let (us, changed) := renameAll rules old new ts
    (call f us, changed)
  | t => (t, false)

def renameAll (rules : Combination) (old new : Symbol) : List Term → List Term × Bool
  | [] => ([], false)
  | t :: ts =>
    let (u, changed) := rename rules old new t
    let (us, others) := renameAll rules old new ts
    (u :: us, changed || others)
end

/-- Hide declared names behind their placeholders, one after the other. -/
def hideNames (names : List String) (t : Term) : Term :=
  (Symbol.hidden names).zipIdx.foldl
    (fun t ((name, _), index) => (rename t.combination (.named name) (.placeholder index) t).1) t

end Term

end PhasePortrait
