import PhasePortrait.Formula.Vocabulary

/-!
# Formula trees

The structure of a formula, with numbers of any type `ν`: the parser leaves them as they are
written, evaluation replaces them by scalars.
-/
namespace PhasePortrait

inductive Tree (ν : Type) where
  | number (value : ν)
  | symbol (name : String)
  | constant (c : Constant)
  | negate (operand : Tree ν)
  | binary (o : Operator) (left right : Tree ν)
  | call (f : Function) (args : List (Tree ν))
deriving Repr, Inhabited

namespace Tree
variable {ν μ : Type}

mutual
/-- Replace every number. -/
def map (g : ν → μ) : Tree ν → Tree μ
  | number v => number (g v)
  | symbol name => symbol name
  | constant c => constant c
  | negate t => negate (map g t)
  | binary o l r => binary o (map g l) (map g r)
  | call f args => call f (mapAll g args)

def mapAll (g : ν → μ) : List (Tree ν) → List (Tree μ)
  | [] => []
  | t :: ts => map g t :: mapAll g ts
end

mutual
/-- The tree in words, numbers as they are written. -/
def outline : Tree String → String
  | number text => s!"Number({text})"
  | symbol name => s!"Variable({name})"
  | constant c => s!"Constant({c.name})"
  | negate t => "Negate(" ++ outline t ++ ")"
  | binary o l r => s!"BinaryOp('{o.text}', " ++ outline l ++ ", " ++ outline r ++ ")"
  | call f args => s!"Call('{f.name}', [" ++ Text.joined (outlineAll args) ++ "])"

def outlineAll : List (Tree String) → List String
  | [] => []
  | t :: ts => outline t :: outlineAll ts
end

mutual
/-- The numbers of a tree, from left to right. -/
def numbers : Tree ν → List ν
  | number v => [v]
  | symbol _ | constant _ => []
  | negate t => numbers t
  | binary _ l r => numbers l ++ numbers r
  | call _ args => numbersAll args

def numbersAll : List (Tree ν) → List ν
  | [] => []
  | t :: ts => numbers t ++ numbersAll ts
end

theorem mapAll_eq_map (g : ν → μ) (ts : List (Tree ν)) : mapAll g ts = ts.map (map g) := by
  induction ts with
  | nil => rfl
  | cons t ts ih => simp [mapAll, ih]

@[simp] theorem length_mapAll (g : ν → μ) (ts : List (Tree ν)) :
    (mapAll g ts).length = ts.length := by
  rw [mapAll_eq_map, List.length_map]

end Tree

end PhasePortrait
