import PhasePortrait.Formula.Sorting
import PhasePortrait.Text.Compatibility

/-!
# Symbols

A formula is compiled into a line of arithmetic in which its declared names stand as identifiers. A
name stands for itself there if it is an identifier and no reserved word; identifiers are the same
if they agree up to compatibility forms. Any other name is hidden behind a placeholder of its own.
-/
namespace PhasePortrait

inductive Symbol where
  | named (name : String)
  | placeholder (index : Nat)
deriving DecidableEq, Repr, Inhabited

namespace Symbol

/-- Words with a meaning of their own in a line of arithmetic. -/
def reservedWords : List String :=
  ["False", "None", "True", "and", "as", "assert", "async", "await", "break", "class", "continue",
    "def", "del", "elif", "else", "except", "finally", "for", "from", "global", "if", "import",
    "in", "is", "lambda", "nonlocal", "not", "or", "pass", "raise", "return", "try", "while",
    "with", "yield"]

/-- Whether a name can stand for itself. -/
def isWritable (name : String) : Bool :=
  match name.toList with
  | c :: cs =>
    Text.isIdentifierStart c && cs.all Text.isIdentifierPart && !reservedWords.contains name
  | [] => false

/-- How a symbol is sorted among others. Placeholders sort by their number, under a capital. -/
def label : Symbol → String
  | named name => name
  | placeholder index => "Dummy_" ++ toString (100 + index)

/-- Declared names that need a placeholder, with their positions, from the last in sorted order to
the first. -/
def hidden (names : List String) : List (String × Nat) :=
  let unwritable := names.zipIdx.filter fun (name, _) => !isWritable name
  sortBy (fun (a, i) (b, j) => b < a || (a == b && j ≤ i)) unwritable

/-- The symbols that declared names stand as. -/
def ofNames (names : List String) : List Symbol :=
  let hidden := hidden names
  names.zipIdx.map fun entry =>
    match hidden.idxOf? entry with
    | some index => placeholder index
    | none => named (Text.folded entry.1)

end Symbol

end PhasePortrait
