import PhasePortrait.Flow.Point

/-!
# Known models

Right-hand sides of two population models and of an oscillator.
-/
namespace PhasePortrait.Model
variable {α : Type} [Scalar α]

/-- Prey `x` and predators `y`: `x' = a x - b x y`, `y' = -c y + d x y`. -/
def lotkaVolterra (a b c d : α) : Rhs α 2 := .autonomous fun p =>
  let prey := p.x
  let predator := p.y
  ⟨a * prey - b * prey * predator, -c * predator + d * prey * predator⟩

/-- Sharks `s` and tuna `u`: `s' = -delta s + p s u`, `u' = beta u - q s u`. -/
def sharkTuna (delta p beta q : α) : Rhs α 2 := .autonomous fun point =>
  let sharks := point.x
  let tuna := point.y
  ⟨-delta * sharks + p * sharks * tuna, beta * tuna - q * sharks * tuna⟩

/-- The oscillator `x'' - mu (1 - x ^ 2) x' + x = 0` in position and velocity. -/
def vanDerPol (mu : α) : Rhs α 2 := .autonomous fun p =>
  let x := p.x
  let v := p.y
  ⟨v, mu * (1.0 - x * x) * v - x⟩

/-- A model by name and coefficients. -/
def ofName? (name : String) (args : List α) : Option (Rhs α 2) :=
  match name, args with
  | "lotka_volterra", [a, b, c, d] => some (lotkaVolterra a b c d)
  | "shark_tuna", [delta, p, beta, q] => some (sharkTuna delta p beta q)
  | "van_der_pol", [mu] => some (vanDerPol mu)
  | _, _ => none

end PhasePortrait.Model
