import PhasePortrait.Number.Binary
import PhasePortrait.Text.Basic

/-!
# Numbers as people type them

A typed number may be surrounded by blanks, carry a sign, use the decimal digits of any script, and
have single underscores between digits. `readNumber?` also knows infinity and not-a-number by name;
`readWhole?` takes whole numbers only.
-/
namespace PhasePortrait.Reading

/-- Blanks that may surround a number: the information separators are not among them. -/
def surrounds (c : Char) : Bool :=
  Text.isBlank c && !(0x1c ≤ c.toNat && c.toNat ≤ 0x1f)

/-- Digits of any script as the digits `0` to `9`. -/
def plainDigit (c : Char) : Char :=
  match Text.digitValue? c with
  | some d => Nat.digitChar d
  | none => c

/-- Drop single underscores that stand between two digits; any other underscore stays. -/
def dropUnderscores : List Char → List Char
  | a :: '_' :: b :: rest =>
    if a.isDigit && b.isDigit then a :: dropUnderscores (b :: rest)
    else a :: '_' :: dropUnderscores (b :: rest)
  | c :: rest => c :: dropUnderscores rest
  | [] => []

/-- The sign and the rest of a typed number, in plain digits. -/
def signed (s : String) : Bool × List Char :=
  match dropUnderscores ((Text.trimEnds surrounds s.toList).map plainDigit) with
  | '-' :: cs => (true, cs)
  | '+' :: cs => (false, cs)
  | cs => (false, cs)

def readNumber? (s : String) : Option Float :=
  let (negative, cs) := signed s
  match (Text.lower (String.ofList cs)) with
  | "inf" | "infinity" => some (Float.ofBits (if negative then 0xfff0000000000000 else 0x7ff0000000000000))
  | "nan" => some (0.0 / 0.0)
  | _ => (Decimal.read? cs).map (·.toFloat negative)

/-- The longest whole number that is read, in digits. -/
def maxDigits : Nat := 4300

def readWhole? (s : String) : Option Int :=
  let (negative, cs) := signed s
  if cs.isEmpty || !cs.all Char.isDigit || maxDigits < cs.length then none
  else some (if negative then -(Decimal.ofDigits cs : Int) else Decimal.ofDigits cs)

end PhasePortrait.Reading
