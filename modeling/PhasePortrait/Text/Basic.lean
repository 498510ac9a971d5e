import PhasePortrait.Text.CharClass

/-!
# Trimming and splitting

Text is cut at single characters and freed from blanks at its ends. The working form is a list of
characters, so that positions count code points; `String` versions are given beside it.
-/
namespace PhasePortrait.Text

/-- Drop the members of a class at both ends. -/
def trimEnds (p : Char → Bool) (cs : List Char) : List Char :=
  ((cs.dropWhile p).reverse.dropWhile p).reverse

def strip (s : String) : String := String.ofList (trimEnds isBlank s.toList)

def isBlankText (s : String) : Bool := s.toList.all isBlank

/-- The pieces between the occurrences of a separator, at least one. -/
def pieces (sep : Char) (s : String) : List String :=
  (s.toList.splitOn sep).map String.ofList

/-- The parts before and after the first occurrence of a separator. -/
def cutAt? (sep : Char) (s : String) : Option (String × String) :=
  match s.toList.dropWhile (· != sep) with
  | [] => none
  | _ :: rest => some (String.ofList (s.toList.takeWhile (· != sep)), String.ofList rest)

def joined (names : List String) : String := String.intercalate ", " names

/-- Lower case of the unaccented letters; every built-in name is written in these. -/
def lower (s : String) : String := s.map Char.toLower

def upper (s : String) : String := s.map Char.toUpper

end PhasePortrait.Text
