import PhasePortrait.Number.Reading
import PhasePortrait.Service.Entries

/-!
# Parameter lists

Values of parameters, written as `name=value` with commas between them and blanks anywhere around
names and values. The first piece that is not of this form is reported.
-/
namespace PhasePortrait

inductive ParameterFault where
  | noEquals (piece : String)
  | badName (name : String)
  | badValue (value : String)
deriving DecidableEq, Repr

def ParameterFault.message : ParameterFault → String
  | noEquals piece => s!"Invalid parameter format: '{piece}'. Use format: name=value"
  | badName name => s!"Parameter name must be a lowercase identifier: '{name}'"
  | badValue value => s!"Parameter value must be a number: '{value}'"

namespace Parameters

def isLowerLetter (c : Char) : Bool := 'a' ≤ c && c ≤ 'z'

/-- A small letter, then small letters, digits and underscores. -/
def isName (name : String) : Bool :=
  match name.toList with
  | [] => false
  | c :: cs => isLowerLetter c && cs.all fun d => isLowerLetter d || d.isDigit || d == '_'

/-- Read one piece. -/
def readPiece (piece : String) : Except ParameterFault (String × Float) :=
  let piece := Text.strip piece
  match Text.cutAt? '=' piece with
  | none => .error (.noEquals piece)
  | some (name, value) =>
    let name := Text.strip name
    let value := Text.strip value
    if !isName name then .error (.badName name)
    else match Reading.readNumber? value with
      | some x => .ok (name, x)
      | none => .error (.badValue value)

/-- Read pieces in order, on top of the entries read before. -/
def readPieces (entries : List (String × Float)) :
    List String → Except ParameterFault (List (String × Float))
  | [] => .ok entries
  | piece :: rest => do
    let (name, value) ← readPiece piece
    readPieces (Entries.set name value entries) rest

/-- Read a list of parameters; a blank text holds none. -/
def read (text : String) : Except ParameterFault (List (String × Float)) :=
  if Text.isBlankText text then .ok [] else readPieces [] (Text.pieces ',' text)

end Parameters

end PhasePortrait
