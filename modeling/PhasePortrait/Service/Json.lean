import PhasePortrait.Number.Written
import PhasePortrait.Text.Quoted

/-!
# JSON values

Whole numbers and doubles are kept apart, and objects keep their fields in order. `display` is the
text that a value has inside a message; `compact` is its text on the wire.
-/
namespace PhasePortrait

inductive Json where
  | null
  | bool (b : Bool)
  | int (n : Int)
  | float (x : Float)
  | text (s : String)
  | list (items : List Json)
  | object (fields : List (String × Json))
deriving Inhabited

namespace Json

/-- The fields of an object; other values have none. -/
def fields : Json → List (String × Json)
  | object fs => fs
  | _ => []

def get? (j : Json) (key : String) : Option Json := j.fields.lookup key

/-- Absent values: null, false, zero, and whatever is empty. -/
def isFalsy : Json → Bool
  | null | bool false | int 0 | text "" | list [] | object [] => true
  | float x => x == 0.0
  | _ => false

mutual
/-- A value as part of a larger one: text is quoted. -/
def shown : Json → String
  | null => "None"
  | bool b => if b then "True" else "False"
  | int n => toString n
  | float x => Written.shortest x
  | text s => Text.quoted s
  | list items => "[" ++ Text.joined (shownItems items) ++ "]"
  | object fs => "\x7b" ++ Text.joined (shownFields fs) ++ "\x7d"

def shownItems : List Json → List String
  | [] => []
  | j :: js => shown j :: shownItems js

def shownFields : List (String × Json) → List String
  | [] => []
  | (k, j) :: fs => (Text.quoted k ++ ": " ++ shown j) :: shownFields fs
end

/-- A value as it reads in a message: text stands for itself. -/
def display : Json → String
  | text s => s
  | j => shown j

/-- One character of a text on the wire. -/
def wireChar (c : Char) : List Char :=
  if c == '"' || c == '\\' then ['\\', c]
  else if c.toNat < 0x20 then '\\' :: 'u' :: Text.hexDigits 4 c.toNat
  else [c]

def wireText (s : String) : String :=
  String.ofList ('"' :: s.toList.flatMap wireChar ++ ['"'])

mutual
/-- The text of a value on the wire, without blanks. -/
def compact : Json → String
  | null => "null"
  | bool b => if b then "true" else "false"
  | int n => toString n
  | float x => if x.isNaN then "NaN" else if x.isInf then (if 0.0 < x then "Infinity" else "-Infinity")
    else Written.shortest x
  | text s => wireText s
  | list items => "[" ++ String.intercalate "," (compactItems items) ++ "]"
  | object fs => "\x7b" ++ String.intercalate "," (compactFields fs) ++ "\x7d"

def compactItems : List Json → List String
  | [] => []
  | j :: js => compact j :: compactItems js

def compactFields : List (String × Json) → List String
  | [] => []
  | (k, j) :: fs => (wireText k ++ ":" ++ compact j) :: compactFields fs
end

end Json

end PhasePortrait
