/-!
# Numbers at the start of a text

`splitNumber` takes the longest unsigned number: digits, a dot with further digits, and an exponent
if digits follow its mark. Nothing is lost on the way (`splitNumber_append`).
-/
namespace PhasePortrait.Number

def startsWithDigit : List Char → Bool
  | c :: _ => c.isDigit
  | [] => false

/-- An exponent at the start of a text, empty unless digits follow its mark, and what comes after. -/
def splitExponent : List Char → List Char × List Char
  | mark :: cs =>
    if mark == 'e' || mark == 'E' then
      match cs with
      | sign :: digits =>
        if (sign == '+' || sign == '-') && startsWithDigit digits then
          (mark :: sign :: digits.takeWhile Char.isDigit, digits.dropWhile Char.isDigit)
        else if sign.isDigit then
          (mark :: (sign :: digits).takeWhile Char.isDigit, (sign :: digits).dropWhile Char.isDigit)
        else ([], mark :: cs)
      | [] => ([], [mark])
    else ([], mark :: cs)
  | [] => ([], [])

/-- A dot with the digits after it, and what comes after. -/
def splitFraction : List Char → List Char × List Char
  | '.' :: cs => ('.' :: cs.takeWhile Char.isDigit, cs.dropWhile Char.isDigit)
  | cs => ([], cs)

/-- The longest number at the start of a text, and what comes after. -/
def splitNumber (cs : List Char) : List Char × List Char :=
  let fraction := splitFraction (cs.dropWhile Char.isDigit)
  let exponent := splitExponent fraction.2
  (cs.takeWhile Char.isDigit ++ fraction.1 ++ exponent.1, exponent.2)

theorem splitExponent_append (cs : List Char) :
    (splitExponent cs).1 ++ (splitExponent cs).2 = cs := by
  unfold splitExponent
  split
  · split
    · split
      · split
        · simp
        · split
          · simp only [List.cons_append, List.takeWhile_append_dropWhile]
          · rfl
      · rfl
    · rfl
  · rfl

theorem splitFraction_append (cs : List Char) :
    (splitFraction cs).1 ++ (splitFraction cs).2 = cs := by
  unfold splitFraction
  split <;> simp

/-- A number and what comes after it make up the text. -/
theorem splitNumber_append (cs : List Char) : (splitNumber cs).1 ++ (splitNumber cs).2 = cs := by
  simp only [splitNumber, List.append_assoc, splitExponent_append, splitFraction_append,
    List.takeWhile_append_dropWhile]

/-- A digit or a dot is always taken. -/
theorem length_splitNumber_lt {c : Char} {cs : List Char} (h : c.isDigit || c == '.') :
    (splitNumber (c :: cs)).2.length < (c :: cs).length := by
  have key := congrArg List.length (splitNumber_append (c :: cs))
  have taken : 0 < (splitNumber (c :: cs)).1.length := by
    by_cases hd : c.isDigit
    · simp [splitNumber, hd]
    · obtain rfl : c = '.' := by simpa [hd] using h
      simp [splitNumber, splitFraction, hd]
  rw [List.length_append] at key
  omega

end PhasePortrait.Number
