import PhasePortrait.Number.Lexeme
import PhasePortrait.Number.Reading
import PhasePortrait.Service.Entries
import PhasePortrait.Service.Json

/-!
# Reading JSON

`Json.read?` takes one value with blanks around it. Beyond the standard it knows `NaN`, `Infinity`
and `-Infinity`, allows a byte order mark at the start, and of a repeated key keeps the last value.
Half a surrogate pair becomes the replacement character.
-/
namespace PhasePortrait.Json

def isSpace (c : Char) : Bool := c == ' ' || c == '\t' || c == '\n' || c == '\r'

def skipSpace (cs : List Char) : List Char := cs.dropWhile isSpace

def hexValue? (c : Char) : Option Nat :=
  if c.isDigit then some (c.toNat - '0'.toNat)
  else if 'a' ≤ c ∧ c ≤ 'f' then some (c.toNat - 'a'.toNat + 10)
  else if 'A' ≤ c ∧ c ≤ 'F' then some (c.toNat - 'A'.toNat + 10)
  else none

/-- Four hexadecimal digits. -/
def readUnit? : List Char → Option (Nat × List Char)
  | a :: b :: c :: d :: rest => do
    let digits ← [a, b, c, d].mapM hexValue?
    return (digits.foldl (16 * · + ·) 0, rest)
  | _ => none

def isHigh (unit : Nat) : Bool := 0xd800 ≤ unit && unit < 0xdc00
def isLow (unit : Nat) : Bool := 0xdc00 ≤ unit && unit < 0xe000

def unitChar (unit : Nat) : Char :=
  if isHigh unit || isLow unit then '\ufffd' else Char.ofNat unit

/-- The character of an escaped unit, which may be the first half of a pair. -/
def readEscapedUnit? (cs : List Char) : Option (Char × List Char) := do
  let (unit, rest) ← readUnit? cs
  let pair : Option (Char × List Char) := do
    guard (isHigh unit)
    let '\\' :: 'u' :: after := rest | none
    let (second, after) ← readUnit? after
    guard (isLow second)
    return (Char.ofNat (0x10000 + (unit - 0xd800) * 0x400 + (second - 0xdc00)), after)
  return pair.getD (unitChar unit, rest)

def simpleEscape? : Char → Option Char
  | '"' => some '"'
  | '\\' => some '\\'
  | '/' => some '/'
  | 'b' => some '\x08'
  | 'f' => some '\x0c'
  | 'n' => some '\n'
  | 'r' => some '\r'
  | 't' => some '\t'
  | _ => none

/-- The rest of a text after its opening quote; `taken` holds what was read, backwards. -/
def readTextAux : Nat → List Char → List Char → Option (String × List Char)
  | 0, _, _ => none
  | fuel + 1, taken, cs =>
    match cs with
    | [] => none
    | '"' :: rest => some (String.ofList taken.reverse, rest)
    | '\\' :: 'u' :: rest => do
      let (c, rest) ← readEscapedUnit? rest
      readTextAux fuel (c :: taken) rest
    | '\\' :: e :: rest => do
      let c ← simpleEscape? e
      readTextAux fuel (c :: taken) rest
    | c :: rest => if c.toNat < 0x20 then none else readTextAux fuel (c :: taken) rest

def readText? (cs : List Char) : Option (String × List Char) := readTextAux (cs.length + 1) [] cs

/-- Digits after a dot, if there are any. -/
def splitPlaces (cs : List Char) : List Char × List Char :=
  match cs with
  | '.' :: rest => if Number.startsWithDigit rest then Number.splitFraction cs else ([], cs)
  | _ => ([], cs)

/-- A number without its sign. A leading zero stands alone. -/
def readNumber? (negative : Bool) (cs : List Char) : Option (Json × List Char) :=
  let (whole, rest) := match cs with
    | '0' :: rest => (['0'], rest)
    | _ => (cs.takeWhile Char.isDigit, cs.dropWhile Char.isDigit)
  if whole.isEmpty then none
  else
    let (places, rest) := splitPlaces rest
    let (exponent, rest) := Number.splitExponent rest
    if places.isEmpty && exponent.isEmpty then
      if Reading.maxDigits < whole.length then none
      else
        let n : Int := Decimal.ofDigits whole
        some (int (if negative then -n else n), rest)
    else do
      let d ← Decimal.read? (whole ++ places ++ exponent)
      return (float (d.toFloat negative), rest)

/-- The words that stand for a value. -/
def literals : List (List Char × Json) :=
  [("null".toList, null), ("true".toList, bool true), ("false".toList, bool false),
    ("NaN".toList, float (0.0 / 0.0)), ("Infinity".toList, float (1.0 / 0.0)),
    ("-Infinity".toList, float (-1.0 / 0.0))]

def readLiteral? (cs : List Char) : Option (Json × List Char) :=
  literals.findSome? fun (word, value) =>
    if word.isPrefixOf cs then some (value, cs.drop word.length) else none

mutual
/-- One value; blanks before it have been skipped. -/
def readValue : Nat → List Char → Option (Json × List Char)
  | 0, _ => none
  | fuel + 1, cs =>
    match cs with
    | '"' :: rest => do
      let (s, rest) ← readText? rest
      return (text s, rest)
    | '[' :: rest =>
      match skipSpace rest with
      | ']' :: rest => some (list [], rest)
      | rest => do
        let (items, rest) ← readItems fuel #[] rest
        return (list items.toList, rest)
    | '\x7b' :: rest =>
      match skipSpace rest with
      | '\x7d' :: rest => some (object [], rest)
      | rest => do
        let (fs, rest) ← readFields fuel [] rest
        return (object fs, rest)
    | _ =>
      (readLiteral? cs).or <| match cs with
        | '-' :: rest => readNumber? true rest
        | _ => readNumber? false cs

/-- The items of a list from here to its end. -/
def readItems : Nat → Array Json → List Char → Option (Array Json × List Char)
  | 0, _, _ => none
  | fuel + 1, items, cs => do
    let (item, rest) ← readValue fuel cs
    match skipSpace rest with
    | ']' :: rest => some (items.push item, rest)
    | ',' :: rest => readItems fuel (items.push item) (skipSpace rest)
    | _ => none

/-- The fields of an object from here to its end. -/
def readFields : Nat → List (String × Json) → List Char → Option (List (String × Json) × List Char)
  | 0, _, _ => none
  | fuel + 1, fs, cs => do
    let '"' :: rest := cs | none
    let (key, rest) ← readText? rest
    let ':' :: rest := skipSpace rest | none
    let (value, rest) ← readValue fuel (skipSpace rest)
    let fs := Entries.set key value fs
    match skipSpace rest with
    | '\x7d' :: rest => some (fs, rest)
    | ',' :: rest => readFields fuel fs (skipSpace rest)
    | _ => none
end

/-- Read all of a text as one value. -/
def read? (s : String) : Option Json := do
  let cs := s.toList
  let cs := match cs with
    | '\ufeff' :: rest => rest
    | _ => cs
  let (value, rest) ← readValue (cs.length + 1) (skipSpace cs)
  guard (skipSpace rest).isEmpty
  return value

end PhasePortrait.Json
