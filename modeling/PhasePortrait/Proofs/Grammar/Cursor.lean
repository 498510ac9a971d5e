import PhasePortrait.Proofs.Grammar.Derivation
import PhasePortrait.Proofs.Grammar.Descent

/-!
# Reading tokens one at a time

A cursor walks the tokens from left to right. It knows what may come next, which parentheses are
open and how many arguments each open call has begun, and it stops at the first token that fits
nothing. The walk is the descent without its tree: it accepts and refuses the same token lists, with
the same faults (`run_start`). What the descent spreads over its steps is a single transition here,
so that facts about neighbouring tokens and about nesting go by induction on the list.
-/
namespace PhasePortrait.Formula

/-- An open parenthesis: of a group, or of a call with the number of arguments that it has begun. -/
inductive Frame where
  | group
  | call (f : Function) (begun : Nat) (name : String) (position : Nat)
deriving DecidableEq, Repr

/-- What comes next. -/
inductive Mode where
  /-- An operand, which may have a sign or not. -/
  | operand (signed : Bool)
  /-- After a word, which is called if a parenthesis follows. -/
  | word (name : String) (position : Nat)
  /-- Something after the operand that ended with this token. -/
  | operator (last : Token)
deriving DecidableEq, Repr

structure Cursor where
  mode : Mode
  opened : List Frame
deriving DecidableEq, Repr

namespace Cursor

def start : Cursor := ⟨.operand true, []⟩

variable (g : Grammar)

/-- Past a token that follows an operand. -/
def pastOperand (last : Token) (opened : List Frame) (t : Token) : Except Fault Cursor :=
  match t.lexeme, opened with
  | .operator o, fs => .ok ⟨.operand (o ≠ .pow), fs⟩
  | .rightParen, .group :: fs => .ok ⟨.operator t, fs⟩
  | .rightParen, .call f begun name position :: fs =>
    if g.admits f begun then .ok ⟨.operator t, fs⟩ else .error (.wrongArity f begun name position)
  | .comma, .call f begun name position :: fs =>
    .ok ⟨.operand true, .call f (begun + 1) name position :: fs⟩
  | _, _ => .error (unexpected last [t])

/-- Past one token. -/
def step (c : Cursor) (t : Token) : Except Fault Cursor :=
  match c.mode, t.lexeme with
  | .operand _, .number _ => .ok ⟨.operator t, c.opened⟩
  | .operand _, .name name => .ok ⟨.word name t.position, c.opened⟩
  | .operand _, .leftParen => .ok ⟨.operand true, .group :: c.opened⟩
  | .operand true, .operator .sub => .ok ⟨.operand true, c.opened⟩
  | .operand _, _ => .error (unexpected none [t])
  | .word name position, .leftParen =>
    match Function.ofName? name with
    | some f => .ok ⟨.operand true, .call f 1 name position :: c.opened⟩
    | none => .error (.unknownFunction name position)
  | .word name position, _ =>
    nameTree g.names name position >>= fun _ => pastOperand g ⟨.name name, position⟩ c.opened t
  | .operator last, _ => pastOperand g last c.opened t

/-- At the end of the tokens. -/
def finish (c : Cursor) : Except Fault Unit :=
  match c.mode, c.opened with
  | .operator _, [] => .ok ()
  | .word name position, [] => nameTree g.names name position >>= fun _ => .ok ()
  | .word name position, _ => nameTree g.names name position >>= fun _ => .error .unexpectedEnd
  | _, _ => .error .unexpectedEnd

/-- Past the tokens, one after the other. -/
def walk (c : Cursor) (ts : List Token) : Except Fault Cursor := ts.foldlM (step g) c

/-- Past all the tokens, which have to end there. -/
def run (c : Cursor) (ts : List Token) : Except Fault Unit := walk g c ts >>= finish g

@[simp] theorem walk_nil (c : Cursor) : walk g c [] = .ok c := rfl
@[simp] theorem walk_cons (c : Cursor) (t : Token) (ts : List Token) :
    walk g c (t :: ts) = step g c t >>= fun c => walk g c ts := rfl

theorem walk_append (c : Cursor) (ts us : List Token) :
    walk g c (ts ++ us) = walk g c ts >>= fun c => walk g c us := List.foldlM_append

@[simp] theorem run_nil (c : Cursor) : run g c [] = finish g c := rfl

theorem run_cons (c : Cursor) (t : Token) (ts : List Token) :
    run g c (t :: ts) = step g c t >>= fun c => run g c ts := by
  rw [run, walk_cons, bind_assoc]
  rfl

/-- A word that is not called is an operand. -/
theorem step_word {name : String} {position : Nat} {t : Token} (h : t.lexeme ≠ .leftParen)
    (opened : List Frame) : step g ⟨.word name position, opened⟩ t =
      nameTree g.names name position >>= fun _ => pastOperand g ⟨.name name, position⟩ opened t := by
  obtain ⟨l, p⟩ := t
  cases l <;> first | rfl | exact absurd rfl h

/-- A refusal comes from the first token that a walk cannot go past, or from the end. -/
theorem exists_refusal {c : Cursor} {ts : List Token} {fault : Fault} (h : run g c ts = .error fault) :
    (∃ before t after c', ts = before ++ t :: after ∧ walk g c before = .ok c' ∧
      step g c' t = .error fault) ∨
    ∃ c', walk g c ts = .ok c' ∧ finish g c' = .error fault := by
  induction ts generalizing c with
  | nil => exact .inr ⟨c, rfl, h⟩
  | cons t ts ih =>
      rw [run_cons] at h
      cases hstep : step g c t with
      | error first =>
          rw [hstep] at h
          cases h
          exact .inl ⟨[], t, ts, c, rfl, rfl, hstep⟩
      | ok next =>
          rw [hstep] at h
          have hwalk (us : List Token) : walk g c (t :: us) = walk g next us := by
            rw [walk_cons, hstep]
            rfl
          rcases ih h with ⟨before, u, after, c', rfl, hc', hu⟩ | ⟨c', hc', hfinish⟩
          · exact .inl ⟨t :: before, u, after, c', rfl, (hwalk before).trans hc', hu⟩
          · exact .inr ⟨c', (hwalk ts).trans hc', hfinish⟩

end Cursor

open Cursor

variable {g : Grammar}

/-! ## The walk follows the descent -/

/-- From the end of the operand that was read, on through what is left. -/
def resume (g : Grammar) (opened : List Frame) (r : Except Fault (Reading (Tree String))) :
    Except Fault Unit :=
  r >>= fun (_, last, rest) => run g ⟨.operator last, opened⟩ rest

/-- The walk over a phrase is the walk over what the descent leaves of it. -/
structure Walks (g : Grammar) (level : Level) (signed : Bool) (ts : List Token)
    (r : Except Fault (Reading (Tree String))) : Prop where
  run_eq : ∀ opened, run g ⟨.operand signed, opened⟩ ts = resume g opened r
  stops : ∀ t last rest, r = .ok (t, last, rest) → StopsBefore level rest

/-- As `Walks`, for what follows an operand. -/
structure WalksOn (g : Grammar) (level level' : Level) (last : Token) (ts : List Token)
    (r : Except Fault (Reading (Tree String))) : Prop where
  run_eq : ∀ opened, run g ⟨.operator last, opened⟩ ts = resume g opened r
  stops : StopsBefore level ts → ∀ t last rest, r = .ok (t, last, rest) → StopsBefore level' rest

/-- As `WalksOn`, inside a call. -/
structure WalksArguments (g : Grammar) (values : List (Tree String)) (last : Token)
    (ts : List Token) (r : Except Fault (Reading (List (Tree String)))) : Prop where
  run_eq : ∀ f name position opened,
    run g ⟨.operator last, .call f values.length name position :: opened⟩ ts =
      r >>= fun (vs, last, rest) =>
        run g ⟨.operator last, .call f vs.length name position :: opened⟩ rest
  stops : StopsBefore .sum ts → ∀ vs last rest, r = .ok (vs, last, rest) →
    StopsBefore .sum rest ∧ ∀ position us, rest ≠ ⟨.comma, position⟩ :: us

theorem resume_bind {α : Type} (opened : List Frame) (x : Except Fault α)
    (k : α → Except Fault (Reading (Tree String))) :
    resume g opened (x >>= k) = x >>= fun r => resume g opened (k r) :=
  bind_assoc _ _ _

theorem walks_then {level level' : Level} {signed : Bool} {ts : List Token} {n : Nat}
    {x : Except Fault (Parsed (Tree String) n)}
    {k : Reading (Tree String) → Except Fault (Reading (Tree String))}
    (hx : Walks g level signed ts (report x))
    (hk : ∀ p : Parsed (Tree String) n,
      WalksOn g level level' p.last p.rest (k (p.value, p.last, p.rest))) :
    Walks g level' signed ts (report x >>= k) := by
  constructor
  · intro opened
    rw [hx.run_eq, resume_bind]
    cases x with
    | error fault => rfl
    | ok p => exact (hk p).run_eq opened
  · intro t last rest h
    obtain ⟨p, hp, hr⟩ := exists_of_report_bind h
    exact (hk p).stops (hx.stops _ _ _ hp) _ _ _ hr

theorem walksOn_done {level level' : Level} (left : Tree String) (last : Token) {ts : List Token}
    (h : ∀ o position rest, ts = ⟨.operator o, position⟩ :: rest → level.leaves o →
      level'.leaves o) : WalksOn g level level' last ts (.ok (left, last, ts)) := by
  refine ⟨fun _ => rfl, ?_⟩
  rintro hts _ _ _ ⟨⟩ o position rest heq
  exact h o position rest heq (hts o position rest heq)

/-- Past an operator and the operand on its right. -/
theorem walksOn_operand {level level₁ level' : Level} {signed : Bool} {last : Token} {o : Operator}
    {position : Nat} {ts : List Token} {n : Nat} {x : Except Fault (Parsed (Tree String) n)}
    {k : Reading (Tree String) → Except Fault (Reading (Tree String))}
    (hsigned : decide (o ≠ .pow) = signed) (hx : Walks g level₁ signed ts (report x))
    (hk : ∀ p : Parsed (Tree String) n,
      WalksOn g level₁ level' p.last p.rest (k (p.value, p.last, p.rest))) :
    WalksOn g level level' last (⟨.operator o, position⟩ :: ts) (report x >>= k) := by
  subst hsigned
  exact ⟨(walks_then hx hk).run_eq, fun _ => (walks_then hx hk).stops⟩

theorem walks_negation {position : Nat} {ts : List Token}
    (h : Walks g .signed true ts (report (parseSigned g ts))) :
    Walks g .signed true (⟨.operator .sub, position⟩ :: ts)
      (report (parseSigned g (⟨.operator .sub, position⟩ :: ts))) := by
  rw [report_parseSigned_cons]
  have hrest := walks_then (k := fun r => .ok (.negate r.1, r.2)) h fun p =>
    walksOn_done (.negate p.value) p.last fun _ _ _ _ h => h
  exact ⟨hrest.run_eq, hrest.stops⟩

/-- Without a minus sign it makes no difference whether one may come. -/
theorem run_operand_of_not {ts : List Token}
    (h : ∀ position rest, ts ≠ ⟨.operator .sub, position⟩ :: rest) (opened : List Frame) :
    run g ⟨.operand true, opened⟩ ts = run g ⟨.operand false, opened⟩ ts := by
  rcases ts with _ | ⟨⟨l, position⟩, rest⟩
  · rfl
  · rw [run_cons, run_cons]
    cases l with
    | operator o => cases o <;> first | rfl | exact absurd rfl (h _ _)
    | _ => rfl

theorem walks_power {ts : List Token} (hx : Walks g .primary false ts (report (parsePrimary g ts)))
    (hk : ∀ (p : Parsed (Tree String) ts.length) position rest,
      p.rest = ⟨.operator .pow, position⟩ :: rest →
        Walks g .power false rest (report (parsePower g rest))) :
    Walks g .power false ts (report (parsePower g ts)) := by
  rw [report_parsePower]
  refine walks_then hx fun p => ?_
  dsimp only
  unfold powerTail
  split
  · next position rest hrest =>
    rw [hrest]
    exact walksOn_operand (o := .pow) (k := fun r => .ok (.binary .pow p.value r.1, r.2)) rfl
      (hk p position rest hrest) fun q => walksOn_done _ _ fun _ _ _ _ h => h
  · next h =>
    refine walksOn_done _ _ ?_
    rintro o position rest heq - rfl
    exact h _ _ heq

/-- The walk out of a group is the closing of the group. -/
theorem run_group {ts : List Token} (h : StopsBefore .sum ts) (t : Tree String) (last : Token)
    (opened : List Frame) :
    run g ⟨.operator last, .group :: opened⟩ ts = resume g opened (closed (t, last, ts)) := by
  rcases ts with _ | ⟨⟨l, position⟩, rest⟩
  · rfl
  · rw [run_cons]
    cases l with
    | operator o => exact (h o position rest rfl).elim
    | _ => rfl

/-- The walk out of a call is the closing of the call, with its arguments counted. -/
theorem run_call {ts : List Token} (h : StopsBefore .sum ts)
    (hcomma : ∀ position rest, ts ≠ ⟨.comma, position⟩ :: rest) (f : Function) (name : String)
    (position : Nat) (values : List (Tree String)) (last : Token) (opened : List Frame) :
    run g ⟨.operator last, .call f values.length name position :: opened⟩ ts =
      resume g opened (closed (values, last, ts) >>= called g f name position) := by
  rcases ts with _ | ⟨⟨l, position'⟩, rest⟩
  · rfl
  · rw [run_cons]
    cases l with
    | operator o => exact (h o position' rest rfl).elim
    | comma => exact absurd rfl (hcomma position' rest)
    | rightParen =>
        change _ = resume g opened
          (called g f name position (values, ⟨.rightParen, position'⟩, rest))
        unfold called
        simp only [step, pastOperand]
        split <;> rfl
    | _ => rfl

theorem walks_group {position : Nat} {ts : List Token}
    (h : Walks g .sum true ts (report (parseSum g ts))) :
    Walks g .primary false (⟨.leftParen, position⟩ :: ts)
      (report (parsePrimary g (⟨.leftParen, position⟩ :: ts))) := by
  rw [report_parsePrimary_group]
  refine ⟨fun opened => ?_, fun _ _ _ _ _ _ _ _ => trivial⟩
  rw [resume_bind]
  refine (h.run_eq (.group :: opened)).trans ?_
  cases hx : report (parseSum g ts) with
  | error fault => rfl
  | ok r => exact run_group (h.stops _ _ _ hx) r.1 r.2.1 opened

theorem walks_call {name : String} {f : Function} (hf : Function.ofName? name = some f)
    {position position' : Nat} {ts : List Token}
    (h : Walks g .sum true ts (report (parseSum g ts)))
    (hk : ∀ first : Parsed (Tree String) ts.length,
      WalksArguments g [first.value] first.last first.rest
        (report (argsTail g [first.value] first.last first.rest))) :
    Walks g .primary false (⟨.name name, position⟩ :: ⟨.leftParen, position'⟩ :: ts)
      (report (parsePrimary g (⟨.name name, position⟩ :: ⟨.leftParen, position'⟩ :: ts))) := by
  rw [report_parsePrimary_call g hf]
  refine ⟨fun opened => ?_, fun _ _ _ _ _ _ _ _ => trivial⟩
  have hstep : run g ⟨.operand false, opened⟩
      (⟨.name name, position⟩ :: ⟨.leftParen, position'⟩ :: ts) =
        run g ⟨.operand true, .call f 1 name position :: opened⟩ ts := by
    rw [run_cons]
    change run g ⟨.word name position, opened⟩ (⟨.leftParen, position'⟩ :: ts) = _
    rw [run_cons]
    simp only [step, hf]
    rfl
  rw [hstep, h.run_eq, resume_bind]
  cases hx : parseSum g ts with
  | error fault => rfl
  | ok first =>
      have hstops := h.stops _ _ _ (by rw [hx]; rfl)
      refine ((hk first).run_eq f name position opened).trans ?_
      change _ = resume g opened (report _ >>= closed >>= called g f name position)
      rw [bind_assoc, resume_bind]
      cases hargs : argsTail g [first.value] first.last first.rest with
      | error fault => rfl
      | ok args =>
          obtain ⟨hsum, hcomma⟩ := (hk first).stops hstops _ _ _ (by rw [hargs]; rfl)
          exact run_call hsum hcomma f name position args.value args.last opened

theorem run_operator_cons (last : Token) (opened : List Frame) (t : Token) (ts : List Token) :
    run g ⟨.operator last, opened⟩ (t :: ts) =
      pastOperand g last opened t >>= fun c => run g c ts := run_cons g _ t ts

theorem run_word {name : String} {position : Nat} {ts : List Token}
    (h : ∀ position' rest, ts ≠ ⟨.leftParen, position'⟩ :: rest) (opened : List Frame) :
    run g ⟨.word name position, opened⟩ ts =
      nameTree g.names name position >>= fun _ =>
        run g ⟨.operator ⟨.name name, position⟩, opened⟩ ts := by
  rcases ts with _ | ⟨⟨l, position'⟩, rest⟩
  · cases opened <;> rfl
  · rw [run_cons]
    cases l with
    | leftParen => exact absurd rfl (h position' rest)
    | _ =>
        simp only [step, bind_assoc, run_operator_cons]

theorem walks_name {name : String} {position : Nat} {ts : List Token}
    (h : ∀ position' rest, ts ≠ ⟨.leftParen, position'⟩ :: rest) :
    Walks g .primary false (⟨.name name, position⟩ :: ts)
      (report (parsePrimary g (⟨.name name, position⟩ :: ts))) := by
  rw [report_parsePrimary_name g name position h]
  refine ⟨fun opened => ?_, fun _ _ _ _ _ _ _ _ => trivial⟩
  refine (run_word h opened).trans ?_
  cases nameTree g.names name position <;> rfl

theorem walks_nothing {ts : List Token}
    (hnumber : ∀ text position rest, ts ≠ ⟨.number text, position⟩ :: rest)
    (hgroup : ∀ position rest, ts ≠ ⟨.leftParen, position⟩ :: rest)
    (hname : ∀ name position rest, ts ≠ ⟨.name name, position⟩ :: rest) :
    Walks g .primary false ts (report (parsePrimary g ts)) := by
  rw [report_parsePrimary_of_not g hnumber hgroup hname]
  refine ⟨fun opened => ?_, fun _ _ _ h => nomatch h⟩
  rcases ts with _ | ⟨⟨l, position⟩, rest⟩
  · rfl
  · rw [run_cons]
    cases l with
    | number text => exact absurd rfl (hnumber text position rest)
    | name name => exact absurd rfl (hname name position rest)
    | leftParen => exact absurd rfl (hgroup position rest)
    | operator o => cases o <;> rfl
    | _ => rfl

theorem walksArguments_comma {values : List (Tree String)} {last : Token} {position : Nat}
    {ts : List Token} (h : Walks g .sum true ts (report (parseSum g ts)))
    (hk : ∀ p : Parsed (Tree String) ts.length, WalksArguments g (values ++ [p.value]) p.last p.rest
      (report (argsTail g (values ++ [p.value]) p.last p.rest))) :
    WalksArguments g values last (⟨.comma, position⟩ :: ts)
      (report (argsTail g values last (⟨.comma, position⟩ :: ts))) := by
  rw [report_argsTail_cons]
  constructor
  · intro f name position' opened
    refine (h.run_eq (.call f (values.length + 1) name position' :: opened)).trans ?_
    cases parseSum g ts with
    | error fault => rfl
    | ok p =>
        have hmore := (hk p).run_eq f name position' opened
        rw [List.length_append, List.length_singleton] at hmore
        exact hmore
  · intro _ vs last' rest hr
    obtain ⟨p, hp, hr⟩ := exists_of_report_bind hr
    exact (hk p).stops (h.stops _ _ _ hp) _ _ _ hr

/-- Every step of the descent is a walk. -/
theorem walks_descent (g : Grammar) :
    (∀ ts, Walks g .sum true ts (report (parseSum g ts))) ∧
    (∀ left last ts, WalksOn g .product .sum last ts (report (sumTail g left last ts))) ∧
    (∀ ts, Walks g .product true ts (report (parseProduct g ts))) ∧
    (∀ left last ts, WalksOn g .signed .product last ts (report (productTail g left last ts))) ∧
    (∀ ts, Walks g .signed true ts (report (parseSigned g ts))) ∧
    (∀ ts, Walks g .power false ts (report (parsePower g ts))) ∧
    (∀ ts, Walks g .primary false ts (report (parsePrimary g ts))) ∧
    ∀ values last ts, WalksArguments g values last ts (report (argsTail g values last ts)) := by
  apply parseSum.mutual_induct
  case _ => -- a sum
    intro ts hx hk
    rw [report_parseSum]
    exact walks_then hx fun p => hk p
  case _ => -- a further term
    intro left last o position rest ho hx hk
    rw [report_sumTail_cons g ho]
    exact walksOn_operand (by rcases ho with rfl | rfl <;> rfl) hx fun p => hk p
  case _ => -- an operator that ends the sum
    intro left last o position rest ho
    rw [report_sumTail_of_not g left last (by rintro _ _ _ ⟨⟩; exact ho)]
    refine walksOn_done left last ?_
    rintro _ _ _ ⟨⟩ hleaves
    exact absurd hleaves ho
  case _ => -- no operator after the sum
    intro left last ts h
    rw [report_sumTail_of_not g left last fun o position rest heq => (h o position rest heq).elim]
    exact walksOn_done left last fun o position rest heq => (h o position rest heq).elim
  case _ => -- a product
    intro ts hx hk
    rw [report_parseProduct]
    exact walks_then hx fun p => hk p
  case _ => -- a further factor
    intro left last o position rest ho hx hk
    rw [report_productTail_cons g ho]
    exact walksOn_operand (by rcases ho with rfl | rfl <;> rfl) hx fun p => hk p
  case _ => -- an operator that ends the product
    intro left last o position rest ho
    rw [report_productTail_of_not g left last (by rintro _ _ _ ⟨⟩; exact ho)]
    refine walksOn_done left last ?_
    rintro _ _ _ ⟨⟩ hleaves
    cases o <;> first | exact absurd rfl hleaves | simp_all [Level.leaves]
  case _ => -- no operator after the product
    intro left last ts h
    rw [report_productTail_of_not g left last fun o position rest heq =>
      (h o position rest heq).elim]
    exact walksOn_done left last fun o position rest heq => (h o position rest heq).elim
  case _ => -- a sign
    intro position rest h
    exact walks_negation h
  case _ => -- no sign
    intro ts hne h
    rw [report_parseSigned_of_not g hne]
    exact ⟨fun opened => (run_operand_of_not hne opened).trans (h.run_eq opened), h.stops⟩
  case _ => -- a power
    intro ts hx hk
    exact walks_power hx hk
  case _ => -- a number
    intro text position rest
    rw [report_parsePrimary_number]
    exact ⟨fun opened => rfl, fun _ _ _ _ _ _ _ _ => trivial⟩
  case _ => -- a group
    intro position rest h
    exact walks_group h
  case _ => -- a call of no function
    intro name position position' rest hf
    rw [report_parsePrimary_unknown g hf]
    refine ⟨fun opened => ?_, fun _ _ _ h => nomatch h⟩
    rw [run_cons]
    change run g ⟨.word name position, opened⟩ (⟨.leftParen, position'⟩ :: rest) = _
    rw [run_cons]
    simp only [step, hf]
    rfl
  case _ => -- a call
    intro name position position' rest f hf h hk
    exact walks_call hf h hk
  case _ => -- a word
    intro name position rest h
    exact walks_name h
  case _ => -- nothing that a primary starts with
    intro ts hnumber hgroup hcall hname
    exact walks_nothing hnumber hgroup hname
  case _ => -- a further argument
    intro values last position rest h hk
    exact walksArguments_comma h hk
  case _ => -- no comma after the arguments
    intro values last ts h
    rw [report_argsTail_of_not g values last h]
    refine ⟨fun _ _ _ _ => rfl, ?_⟩
    rintro hts _ _ _ ⟨⟩
    exact ⟨hts, h⟩

/-- The walk accepts and refuses as the parser does, with the same faults. -/
theorem run_start (g : Grammar) (ts : List Token) :
    run g start ts = parseAll g ts >>= fun _ => .ok () := by
  have h := (walks_descent g).1 ts
  rw [parseAll_eq, bind_assoc]
  refine (h.run_eq []).trans ?_
  cases hx : report (parseSum g ts) with
  | error fault => rfl
  | ok r =>
      obtain ⟨t, last, rest⟩ := r
      have hstops := h.stops _ _ _ hx
      rcases rest with _ | ⟨⟨l, position⟩, rest⟩
      · rfl
      · change run g ⟨.operator last, []⟩ _ = _
        rw [run_cons]
        cases l with
        | operator o => exact (hstops o position rest rfl).elim
        | _ => rfl

end PhasePortrait.Formula
