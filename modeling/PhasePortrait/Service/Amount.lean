import PhasePortrait.Number.Reading
import PhasePortrait.Service.Failure
import PhasePortrait.Service.Json

/-!
# Numbers in requests

A number may be given as a JSON number, a truth value or a text, and left out where there is a
default. Whole numbers and doubles are kept apart.
-/
namespace PhasePortrait

inductive Amount where
  | whole (n : Int)
  | real (x : Float)

namespace Amount

/-- The nearest double. -/
def toFloat : Amount → Float
  | whole n => (Decimal.mk n.natAbs 0).toFloat (n < 0)
  | real x => x

def json : Amount → Json
  | whole n => .int n
  | real x => .float x

/-- A multiple, whole if the amount is. -/
def times (count : Nat) : Amount → Amount
  | whole n => whole (count * n)
  | real x => real (Float.ofNat count * x)

/-- A finite double without its places. -/
def truncate (negative : Bool) (mantissa : Nat) (exponent : Int) : Int :=
  let size : Int := if 0 ≤ exponent then (mantissa * Rounding.twoTo exponent.toNat : Nat)
    else (mantissa / Rounding.twoTo (-exponent).toNat : Nat)
  if negative then -size else size

/-- Whether a double is above a whole number, which is not rounded to compare them. -/
def isAbove (x : Float) (n : Int) : Bool :=
  match parts x with
  | .finite negative mantissa exponent =>
    let signed : Int := if negative then -mantissa else mantissa
    n * Rounding.twoTo (-exponent).toNat < signed * Rounding.twoTo exponent.toNat
  | .infinite negative => !negative
  | .nan => false

/-- Whole numbers that fit a signed or an unsigned machine word of 64 bits. -/
def fitsWord (n : Int) : Bool := -(Rounding.twoTo 63 : Int) ≤ n && n < Rounding.twoTo 64

/-- How reading a value can go wrong, before anyone has been told. -/
inductive Problem where
  | unreadable
  | notFinite
  | broken (cause : Breakdown)

def finiteReal (x : Float) : Except Problem Amount :=
  if x.isFinite then .ok (real x) else .error .notFinite

/-- A value as a finite double. -/
def readReal : Json → Except Problem Amount
  | .bool b => .ok (real (if b then 1.0 else 0.0))
  | .int n =>
    let x := (whole n).toFloat
    if x.isFinite then .ok (real x) else .error (.broken .overflow)
  | .float x => finiteReal x
  | .text s =>
    match Reading.readNumber? s with
    | some x => finiteReal x
    | none => .error .unreadable
  | _ => .error .unreadable

def wordSized (n : Int) : Except Problem Amount :=
  if fitsWord n then .ok (whole n) else .error (.broken .wideInteger)

/-- A value as a whole number; a double loses its places. -/
def readWhole : Json → Except Problem Amount
  | .bool b => .ok (whole (if b then 1 else 0))
  | .int n => wordSized n
  | .float x =>
    match parts x with
    | .finite negative m e => wordSized (truncate negative m e)
    | .infinite _ => .error (.broken .overflow)
    | .nan => .error .unreadable
  | .text s =>
    match Reading.readWhole? s with
    | some n => wordSized n
    | none => .error .unreadable
  | _ => .error .unreadable

/-- The number under a key, or the default where there is none. Null and empty text count as
nothing. -/
def readField {β : Type} (encode : Amount → β) (data : Json) (key label : String)
    (default : Option β) (integer : Bool) : Except Failure β :=
  match data.get? key with
  | none | some .null | some (.text "") =>
    match default with
    | some d => .ok d
    | none => .error (.validation (label ++ " is required"))
  | some value =>
    match (if integer then readWhole value else readReal value) with
    | .ok a => .ok (encode a)
    | .error .unreadable =>
      .error (.validation (label ++ " must be a valid " ++ if integer then "integer" else "number"))
    | .error .notFinite => .error (.validation (label ++ " must be finite"))
    | .error (.broken cause) => .error (.brokenDown cause)

end Amount

end PhasePortrait
