import PhasePortrait.Formula.Parser
import PhasePortrait.Proofs.Except

/-!
# What the descent reports

A step of the descent carries the proof that it used up tokens. `report` drops that proof, and one
equation for each step then says how its report comes from the reports of the steps it calls. These
equations are the only place where the steps are opened.
-/
namespace PhasePortrait.Formula

/-- The value, the last token taken and the tokens left. -/
abbrev Reading (α : Type) := α × Token × List Token

def report {α : Type} {n : Nat} : Except Fault (Parsed α n) → Except Fault (Reading α)
  | .ok p => .ok (p.value, p.last, p.rest)
  | .error fault => .error fault

section
variable {α β : Type} {m n : Nat}

@[simp] theorem report_ok (p : Parsed α n) :
    report (.ok p) = .ok (p.value, p.last, p.rest) := rfl
@[simp] theorem report_error (fault : Fault) :
    report (.error fault : Except Fault (Parsed α n)) = .error fault := rfl

/-- A step whose continuation only looks at what was reported. -/
theorem report_bind {x : Except Fault (Parsed α m)} {f : Parsed α m → Except Fault (Parsed β n)}
    {k : Reading α → Except Fault (Reading β)}
    (h : ∀ p, report (f p) = k (p.value, p.last, p.rest)) :
    report (x >>= f) = report x >>= k := by
  cases x with
  | error fault => rfl
  | ok p => exact h p

/-- A report that succeeds after a step has that step's report behind it. -/
theorem exists_of_report_bind {α β : Type} {n : Nat} {x : Except Fault (Parsed α n)}
    {k : Reading α → Except Fault (Reading β)} {r : Reading β} (h : report x >>= k = .ok r) :
    ∃ p : Parsed α n, report x = .ok (p.value, p.last, p.rest) ∧
      k (p.value, p.last, p.rest) = .ok r := by
  cases x with
  | error fault => cases h
  | ok p => exact ⟨p, rfl, h⟩

/-- Widening the bound is not reported. -/
theorem report_weaken {x : Except Fault (Parsed α m)} (h : m ≤ n) :
    report (x >>= fun p => pure (p.weaken h)) = report x := by
  cases x <;> rfl

end

variable (g : Grammar)

theorem report_parseSum (ts : List Token) :
    report (parseSum g ts) =
      report (parseProduct g ts) >>= fun (t, last, rest) => report (sumTail g t last rest) := by
  rw [parseSum]
  exact report_bind fun p => report_weaken _

theorem report_sumTail_cons {o : Operator} (h : o = .add ∨ o = .sub) (left : Tree String)
    (last : Token) (position : Nat) (rest : List Token) :
    report (sumTail g left last (⟨.operator o, position⟩ :: rest)) =
      report (parseProduct g rest) >>= fun (t, last, rest) =>
        report (sumTail g (.binary o left t) last rest) := by
  rw [sumTail, if_pos h]
  exact report_bind fun p => report_weaken _

theorem report_sumTail_of_not (left : Tree String) (last : Token) {ts : List Token}
    (h : ∀ o position rest, ts = ⟨.operator o, position⟩ :: rest → ¬(o = .add ∨ o = .sub)) :
    report (sumTail g left last ts) = .ok (left, last, ts) := by
  rw [sumTail.eq_def]
  split
  · rw [if_neg (h _ _ _ rfl)]
    rfl
  · rfl

theorem report_parseProduct (ts : List Token) :
    report (parseProduct g ts) =
      report (parseSigned g ts) >>= fun (t, last, rest) => report (productTail g t last rest) := by
  rw [parseProduct]
  exact report_bind fun p => report_weaken _

theorem report_productTail_cons {o : Operator} (h : o = .mul ∨ o = .div) (left : Tree String)
    (last : Token) (position : Nat) (rest : List Token) :
    report (productTail g left last (⟨.operator o, position⟩ :: rest)) =
      report (parseSigned g rest) >>= fun (t, last, rest) =>
        report (productTail g (.binary o left t) last rest) := by
  rw [productTail, if_pos h]
  exact report_bind fun p => report_weaken _

theorem report_productTail_of_not (left : Tree String) (last : Token) {ts : List Token}
    (h : ∀ o position rest, ts = ⟨.operator o, position⟩ :: rest → ¬(o = .mul ∨ o = .div)) :
    report (productTail g left last ts) = .ok (left, last, ts) := by
  rw [productTail.eq_def]
  split
  · rw [if_neg (h _ _ _ rfl)]
    rfl
  · rfl

theorem report_parseSigned_cons (position : Nat) (rest : List Token) :
    report (parseSigned g (⟨.operator .sub, position⟩ :: rest)) =
      report (parseSigned g rest) >>= fun (t, last, rest) => .ok (.negate t, last, rest) := by
  rw [parseSigned]
  exact report_bind fun p => rfl

theorem report_parseSigned_of_not {ts : List Token}
    (h : ∀ position rest, ts ≠ ⟨.operator .sub, position⟩ :: rest) :
    report (parseSigned g ts) = report (parsePower g ts) := by
  rw [parseSigned.eq_def]
  split
  · exact absurd rfl (h _ _)
  · rfl

/-- What is read after a primary: an exponent, if a caret follows. -/
def powerTail (base : Tree String) (last : Token) :
    List Token → Except Fault (Reading (Tree String))
  | ⟨.operator .pow, _⟩ :: rest =>
    report (parsePower g rest) >>= fun (t, last, rest) => .ok (.binary .pow base t, last, rest)
  | ts => .ok (base, last, ts)

theorem report_parsePower (ts : List Token) :
    report (parsePower g ts) =
      report (parsePrimary g ts) >>= fun (t, last, rest) => powerTail g t last rest := by
  rw [parsePower]
  refine report_bind fun p => ?_
  obtain ⟨t, last, rest, shorter⟩ := p
  unfold powerTail
  dsimp only
  split
  · exact report_bind fun p => rfl
  · next h =>
    split
    · exact (h _ _ rfl).elim
    · rfl

theorem report_parsePrimary_number (text : String) (position : Nat) (rest : List Token) :
    report (parsePrimary g (⟨.number text, position⟩ :: rest)) =
      .ok (.number text, ⟨.number text, position⟩, rest) := by
  rw [parsePrimary]
  rfl

/-- A closing parenthesis after what was read. -/
def closed {α : Type} : Reading α → Except Fault (Reading α)
  | (v, _, ⟨.rightParen, position⟩ :: rest) => .ok (v, ⟨.rightParen, position⟩, rest)
  | (_, last, ts) => .error (unexpected last ts)

theorem report_closing {α : Type} {n : Nat} (p : Parsed α n) :
    report (closing p) = closed (p.value, p.last, p.rest) := by
  obtain ⟨v, last, rest, shorter⟩ := p
  unfold closing closed
  dsimp only
  split <;> simp_all

theorem report_parsePrimary_group (position : Nat) (rest : List Token) :
    report (parsePrimary g (⟨.leftParen, position⟩ :: rest)) =
      report (parseSum g rest) >>= closed := by
  rw [parsePrimary]
  exact report_bind fun p => (report_weaken _).trans (report_closing p)

theorem report_parsePrimary_unknown {name : String} (h : Function.ofName? name = none)
    (position position' : Nat) (rest : List Token) :
    report (parsePrimary g (⟨.name name, position⟩ :: ⟨.leftParen, position'⟩ :: rest)) =
      .error (.unknownFunction name position) := by
  rw [parsePrimary, h]
  rfl

/-- The call of a function, if it admits as many arguments as were read. -/
def called (f : Function) (name : String) (position : Nat) :
    Reading (List (Tree String)) → Except Fault (Reading (Tree String))
  | (args, last, rest) =>
    if g.admits f args.length then .ok (.call f args, last, rest)
    else .error (.wrongArity f args.length name position)

theorem report_parsePrimary_call {name : String} {f : Function} (h : Function.ofName? name = some f)
    (position position' : Nat) (rest : List Token) :
    report (parsePrimary g (⟨.name name, position⟩ :: ⟨.leftParen, position'⟩ :: rest)) =
      report (parseSum g rest) >>= fun (t, last, rest) =>
        report (argsTail g [t] last rest) >>= closed >>= called g f name position := by
  rw [parsePrimary, h]
  refine report_bind fun p => ?_
  dsimp only
  rw [bind_assoc]
  refine report_bind fun args => ?_
  rw [← report_closing]
  refine report_bind fun q => ?_
  unfold called
  dsimp only
  split <;> rfl

theorem report_parsePrimary_name (name : String) (position : Nat) {rest : List Token}
    (h : ∀ position' rest', rest ≠ ⟨.leftParen, position'⟩ :: rest') :
    report (parsePrimary g (⟨.name name, position⟩ :: rest)) =
      nameTree g.names name position >>= fun t => .ok (t, ⟨.name name, position⟩, rest) := by
  rw [parsePrimary]
  · cases nameTree g.names name position <;> rfl
  · exact fun position' rest' => h position' rest'

theorem report_parsePrimary_of_not {ts : List Token}
    (hnumber : ∀ text position rest, ts ≠ ⟨.number text, position⟩ :: rest)
    (hgroup : ∀ position rest, ts ≠ ⟨.leftParen, position⟩ :: rest)
    (hname : ∀ name position rest, ts ≠ ⟨.name name, position⟩ :: rest) :
    report (parsePrimary g ts) = .error (unexpected none ts) := by
  rw [parsePrimary.eq_def]
  split
  · exact absurd rfl (hnumber _ _ _)
  · exact absurd rfl (hgroup _ _)
  · exact absurd rfl (hname _ _ _)
  · exact absurd rfl (hname _ _ _)
  · rfl

theorem report_argsTail_cons (args : List (Tree String)) (last : Token) (position : Nat)
    (rest : List Token) :
    report (argsTail g args last (⟨.comma, position⟩ :: rest)) =
      report (parseSum g rest) >>= fun (t, last, rest) =>
        report (argsTail g (args ++ [t]) last rest) := by
  rw [argsTail]
  exact report_bind fun p => report_weaken _

theorem report_argsTail_of_not (args : List (Tree String)) (last : Token) {ts : List Token}
    (h : ∀ position rest, ts ≠ ⟨.comma, position⟩ :: rest) :
    report (argsTail g args last ts) = .ok (args, last, ts) := by
  rw [argsTail.eq_def]
  split
  · exact absurd rfl (h _ _)
  · rfl

theorem parseAll_eq (ts : List Token) :
    parseAll g ts = report (parseSum g ts) >>= fun (t, last, rest) =>
      if rest.isEmpty then .ok t else .error (unexpected last rest) := by
  unfold parseAll
  cases parseSum g ts <;> rfl

end PhasePortrait.Formula
