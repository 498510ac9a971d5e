import Mathlib.Data.List.Induction
import PhasePortrait.Formula.Rules
import PhasePortrait.Proofs.Grammar.Cursor

/-!
# Nesting

Tokens whose parentheses match are passed over as a whole: a walk comes out of them with the same
parentheses open as before, and only the innermost open call has begun more arguments, one for each
comma that stands directly in it (`opened_of_balanced`). For this reason the open frames can be read
off the tokens that were passed (`Openings`).

## Main definitions

* `Balanced ts` — the parentheses of `ts` match.
* `directCommas 0 ts` — how many commas of `ts` stand in no parentheses.
* `Steps g c t c'` — what one step can do.
* `Openings fs before` — the frames `fs` are those that `before` has left open.
-/
namespace PhasePortrait.Formula

/-! ## Matching parentheses -/

/-- The parentheses match. -/
def Balanced (ts : List Token) : Prop := balanceFault 0 ts = none

instance (ts : List Token) : Decidable (Balanced ts) := inferInstanceAs (Decidable (_ = _))

/-- The commas that stand in no parentheses, with `depth` of them open before. -/
def directCommas : Nat → List Token → Nat
  | _, [] => 0
  | depth, ⟨.leftParen, _⟩ :: ts => directCommas (depth + 1) ts
  | depth, ⟨.rightParen, _⟩ :: ts => directCommas (depth - 1) ts
  | 0, ⟨.comma, _⟩ :: ts => directCommas 0 ts + 1
  | depth, _ :: ts => directCommas depth ts

@[simp] theorem balanceFault_nil : balanceFault 0 [] = none := rfl

@[simp] theorem balanceFault_leftParen (depth position : Nat) (ts : List Token) :
    balanceFault depth (⟨.leftParen, position⟩ :: ts) = balanceFault (depth + 1) ts := by
  rw [balanceFault]

@[simp] theorem balanceFault_rightParen (depth position : Nat) (ts : List Token) :
    balanceFault (depth + 1) (⟨.rightParen, position⟩ :: ts) = balanceFault depth ts := by
  rw [balanceFault]

/-- A lexeme that opens nothing and closes nothing. -/
def Plain (l : Lexeme) : Prop := l ≠ .leftParen ∧ l ≠ .rightParen

@[simp] theorem balanceFault_plain (depth : Nat) {t : Token} (h : Plain t.lexeme)
    (ts : List Token) : balanceFault depth (t :: ts) = balanceFault depth ts := by
  obtain ⟨l, position⟩ := t
  cases l with
  | leftParen => exact absurd rfl h.1
  | rightParen => exact absurd rfl h.2
  | _ => cases depth <;> rw [balanceFault] <;> simp

@[simp] theorem directCommas_plain (depth : Nat) {t : Token} (h : Plain t.lexeme)
    (hcomma : t.lexeme ≠ .comma) (ts : List Token) :
    directCommas depth (t :: ts) = directCommas depth ts := by
  obtain ⟨l, position⟩ := t
  cases l with
  | leftParen => exact absurd rfl h.1
  | rightParen => exact absurd rfl h.2
  | comma => exact absurd rfl hcomma
  | _ => cases depth <;> rfl

theorem directCommas_comma (depth position : Nat) (ts : List Token) :
    directCommas depth (⟨.comma, position⟩ :: ts) =
      directCommas depth ts + if depth = 0 then 1 else 0 := by
  cases depth <;> rfl

/-- Induction over tokens in which every parenthesis finds its match, `depth` of them before. -/
theorem balance_induction {P : Nat → List Token → Prop} (nil : P 0 [])
    (opening : ∀ depth p ts, P (depth + 1) ts → P depth (⟨.leftParen, p⟩ :: ts))
    (closing : ∀ depth p ts, P depth ts → P (depth + 1) (⟨.rightParen, p⟩ :: ts))
    (plain : ∀ depth t ts, Plain t.lexeme → P depth ts → P depth (t :: ts))
    {depth : Nat} {ts : List Token} (h : balanceFault depth ts = none) : P depth ts := by
  induction ts generalizing depth with
  | nil =>
      cases depth with
      | zero => exact nil
      | succ depth => cases h
  | cons t ts ih =>
      obtain ⟨l, p⟩ := t
      cases l with
      | leftParen => exact opening depth p ts (ih (by simpa using h))
      | rightParen =>
          cases depth with
          | zero => cases h
          | succ depth => exact closing depth p ts (ih (by simpa using h))
      | _ =>
          rw [balanceFault_plain _ (by simp [Plain])] at h
          exact plain depth _ ts (by simp [Plain]) (ih h)

theorem balanceFault_append {depth : Nat} {ts : List Token} (h : balanceFault depth ts = none)
    (k : Nat) (us : List Token) : balanceFault (depth + k) (ts ++ us) = balanceFault k us := by
  refine balance_induction (P := fun depth ts => balanceFault (depth + k) (ts ++ us) =
    balanceFault k us) ?_ ?_ ?_ ?_ h
  · rw [Nat.zero_add, List.nil_append]
  · intro depth p ts ih
    rwa [List.cons_append, balanceFault_leftParen, Nat.add_right_comm]
  · intro depth p ts ih
    rwa [List.cons_append, Nat.add_right_comm, balanceFault_rightParen]
  · intro depth t ts ht ih
    rwa [List.cons_append, balanceFault_plain _ ht]

/-- What ends with an opening parenthesis has not closed it. -/
theorem balanceFault_concat_leftParen (depth : Nat) (ts : List Token) (p : Nat) :
    balanceFault depth (ts ++ [⟨.leftParen, p⟩]) ≠ none := by
  induction ts generalizing depth with
  | nil =>
      rw [List.nil_append, balanceFault_leftParen]
      exact nofun
  | cons t ts ih =>
      obtain ⟨l, position⟩ := t
      rw [List.cons_append]
      cases l with
      | leftParen =>
          rw [balanceFault_leftParen]
          exact ih _
      | rightParen =>
          cases depth with
          | zero => exact nofun
          | succ depth =>
              rw [balanceFault_rightParen]
              exact ih _
      | _ =>
          rw [balanceFault_plain _ (by simp [Plain])]
          exact ih _

/-- Commas count only if nothing is open around them. -/
theorem directCommas_append {depth : Nat} {ts : List Token} (h : balanceFault depth ts = none)
    (k : Nat) (us : List Token) : directCommas (depth + k) (ts ++ us) =
      (if k = 0 then directCommas depth ts else 0) + directCommas k us := by
  refine balance_induction (P := fun depth ts => directCommas (depth + k) (ts ++ us) =
    (if k = 0 then directCommas depth ts else 0) + directCommas k us) ?_ ?_ ?_ ?_ h
  · simp [directCommas]
  · intro depth p ts ih
    rwa [Nat.add_right_comm] at ih
  · intro depth p ts ih
    rwa [Nat.add_right_comm]
  · intro depth t ts ht ih
    by_cases hcomma : t.lexeme = .comma
    · obtain ⟨l, p⟩ := t
      obtain rfl : l = .comma := hcomma
      rw [List.cons_append, directCommas_comma, directCommas_comma, ih]
      by_cases hk : k = 0 <;> simp [hk, Nat.add_right_comm]
    · rwa [List.cons_append, directCommas_plain _ ht hcomma, directCommas_plain _ ht hcomma]

theorem Balanced.append {ts us : List Token} (hts : Balanced ts) (hus : Balanced us) :
    Balanced (ts ++ us) :=
  (balanceFault_append hts 0 us).trans hus

theorem Balanced.directCommas_append {ts : List Token} (hts : Balanced ts) (us : List Token) :
    directCommas 0 (ts ++ us) = directCommas 0 ts + directCommas 0 us :=
  Formula.directCommas_append hts 0 us

/-- Tokens in parentheses, which match if they do so inside. -/
theorem Balanced.enclosed {ts : List Token} (hts : Balanced ts) (p q : Nat) :
    Balanced (⟨.leftParen, p⟩ :: (ts ++ [⟨.rightParen, q⟩])) := by
  have h := balanceFault_append hts 1 [⟨.rightParen, q⟩]
  simpa [Balanced] using h

theorem Balanced.directCommas_enclosed {ts : List Token} (hts : Balanced ts) (p q : Nat) :
    directCommas 0 (⟨.leftParen, p⟩ :: (ts ++ [⟨.rightParen, q⟩])) = 0 := by
  have h := Formula.directCommas_append hts 1 [⟨.rightParen, q⟩]
  simpa [directCommas] using h

theorem balanced_plain {t : Token} (h : Plain t.lexeme) : Balanced [t] :=
  balanceFault_plain 0 h []

/-! ## What a step does -/

/-- An operand has just been read; a word counts if it means something without being called. -/
def Mode.Ended (g : Grammar) : Mode → Prop
  | .operand _ => False
  | .word name _ => name ∈ g.names ∨ (Constant.ofName? name).isSome
  | .operator _ => True

/-- One step of a walk. -/
inductive Steps (g : Grammar) : Cursor → Token → Cursor → Prop
  | number {signed fs text p} :
      Steps g ⟨.operand signed, fs⟩ ⟨.number text, p⟩ ⟨.operator ⟨.number text, p⟩, fs⟩
  | name {signed fs name p} :
      Steps g ⟨.operand signed, fs⟩ ⟨.name name, p⟩ ⟨.word name p, fs⟩
  | group {signed fs p} :
      Steps g ⟨.operand signed, fs⟩ ⟨.leftParen, p⟩ ⟨.operand true, .group :: fs⟩
  | sign {fs p} : Steps g ⟨.operand true, fs⟩ ⟨.operator .sub, p⟩ ⟨.operand true, fs⟩
  | call {name f p q fs} : Function.ofName? name = some f →
      Steps g ⟨.word name q, fs⟩ ⟨.leftParen, p⟩ ⟨.operand true, .call f 1 name q :: fs⟩
  | operator {mode o p fs} : mode.Ended g →
      Steps g ⟨mode, fs⟩ ⟨.operator o, p⟩ ⟨.operand (o ≠ .pow), fs⟩
  | closeGroup {mode p fs} : mode.Ended g →
      Steps g ⟨mode, .group :: fs⟩ ⟨.rightParen, p⟩ ⟨.operator ⟨.rightParen, p⟩, fs⟩
  | closeCall {mode p f begun name q fs} : mode.Ended g → g.admits f begun →
      Steps g ⟨mode, .call f begun name q :: fs⟩ ⟨.rightParen, p⟩ ⟨.operator ⟨.rightParen, p⟩, fs⟩
  | comma {mode p f begun name q fs} : mode.Ended g →
      Steps g ⟨mode, .call f begun name q :: fs⟩ ⟨.comma, p⟩
        ⟨.operand true, .call f (begun + 1) name q :: fs⟩

variable {g : Grammar}

theorem exists_nameTree_iff {names : List String} {name : String} {position : Nat} :
    (∃ t, nameTree names name position = .ok t) ↔
      name ∈ names ∨ (Constant.ofName? name).isSome := by
  unfold nameTree
  by_cases hname : name ∈ names
  · simp [hname]
  · cases hc : Constant.ofName? name <;> simp [hname]

theorem steps_of_pastOperand {mode : Mode} {last t : Token} {fs : List Frame} {c : Cursor}
    (hmode : mode.Ended g) (h : Cursor.pastOperand g last fs t = .ok c) :
    Steps g ⟨mode, fs⟩ t c := by
  obtain ⟨l, p⟩ := t
  cases l with
  | operator o =>
      cases h
      exact .operator hmode
  | rightParen =>
      rcases fs with _ | ⟨_ | ⟨f, begun, name, q⟩, fs⟩
      · cases h
      · cases h
        exact .closeGroup hmode
      · simp only [Cursor.pastOperand] at h
        split at h
        · next hadmits =>
          cases h
          exact .closeCall hmode hadmits
        · cases h
  | comma =>
      rcases fs with _ | ⟨_ | ⟨f, begun, name, q⟩, fs⟩
      · cases h
      · cases h
      · cases h
        exact .comma hmode
  | _ => cases h

theorem steps_of_step {c c' : Cursor} {t : Token} (h : Cursor.step g c t = .ok c') :
    Steps g c t c' := by
  obtain ⟨mode, fs⟩ := c
  obtain ⟨l, p⟩ := t
  cases mode with
  | operand signed =>
      cases l with
      | number text =>
          cases h
          exact .number
      | name name =>
          cases h
          exact .name
      | leftParen =>
          cases h
          exact .group
      | operator o =>
          cases signed <;> cases o <;> cases h
          exact .sign
      | _ => cases signed <;> cases h
  | word name q =>
      by_cases hl : l = .leftParen
      · subst hl
        simp only [Cursor.step] at h
        split at h
        · next f hf =>
          cases h
          exact .call hf
        · cases h
      · rw [Cursor.step_word _ hl] at h
        obtain ⟨u, hu, hpast⟩ := exists_of_bind h
        exact steps_of_pastOperand (exists_nameTree_iff.mp ⟨u, hu⟩) hpast
  | operator last => exact steps_of_pastOperand trivial h

/-- What holds at the start and goes through every step holds wherever a walk gets to. -/
theorem walk_induction {P : List Token → Cursor → Prop} (start : P [] .start)
    (next : ∀ before t c c', Cursor.walk g .start before = .ok c → P before c → Steps g c t c' →
      P (before ++ [t]) c')
    {before : List Token} {c : Cursor} (h : Cursor.walk g .start before = .ok c) : P before c := by
  induction before using List.reverseRecOn generalizing c with
  | nil =>
      cases h
      exact start
  | append_singleton before t ih =>
      rw [Cursor.walk_append] at h
      obtain ⟨c', hc', ht⟩ := exists_of_bind h
      rw [Cursor.walk_cons] at ht
      obtain ⟨c'', hc'', hdone⟩ := exists_of_bind ht
      cases hdone
      exact next before t c' c hc' (ih hc') (steps_of_step hc'')

/-! ## How a walk is refused -/

/-- An operand is due, or one has just been read. -/
def Mode.Resumable (g : Grammar) (mode : Mode) : Prop :=
  (∃ signed, mode = .operand signed) ∨ mode.Ended g

/-- Why a walk goes neither past the next token nor, where there is none, to its end. -/
inductive Refuses (g : Grammar) : Cursor → Option Token → Fault → Prop
  | token {mode fs t product} : mode.Resumable g →
      Refuses g ⟨mode, fs⟩ (some t) (.unexpectedToken t.text t.position product)
  | ending {mode fs} : mode.Resumable g → Refuses g ⟨mode, fs⟩ none .unexpectedEnd
  | unknown {name q fs next} : ¬(name ∈ g.names ∨ (Constant.ofName? name).isSome) →
      Refuses g ⟨.word name q, fs⟩ next (.unknownVariable name q)
  | callee {name q fs p} : Function.ofName? name = none →
      Refuses g ⟨.word name q, fs⟩ (some ⟨.leftParen, p⟩) (.unknownFunction name q)
  | count {mode f begun name q fs p} : ¬g.admits f begun →
      Refuses g ⟨mode, .call f begun name q :: fs⟩ (some ⟨.rightParen, p⟩)
        (.wrongArity f begun name q)

theorem nameTree_eq_error_iff {names : List String} {name : String} {position : Nat}
    {fault : Fault} : nameTree names name position = .error fault ↔
      ¬(name ∈ names ∨ (Constant.ofName? name).isSome) ∧ fault = .unknownVariable name position := by
  unfold nameTree
  by_cases hname : name ∈ names
  · simp [hname]
  · cases hc : Constant.ofName? name <;> simp [hname, eq_comm]

theorem refuses_of_pastOperand {mode : Mode} {last t : Token} {fs : List Frame} {fault : Fault}
    (hmode : mode.Resumable g) (h : Cursor.pastOperand g last fs t = .error fault) :
    Refuses g ⟨mode, fs⟩ (some t) fault := by
  obtain ⟨l, p⟩ := t
  cases l with
  | operator o => cases h
  | rightParen =>
      rcases fs with _ | ⟨_ | ⟨f, begun, name, q⟩, fs⟩
      · cases h
        exact .token hmode
      · cases h
      · simp only [Cursor.pastOperand] at h
        split at h
        · cases h
        · next hadmits =>
          cases h
          exact .count hadmits
  | comma =>
      rcases fs with _ | ⟨_ | ⟨f, begun, name, q⟩, fs⟩
      · cases h
        exact .token hmode
      · cases h
        exact .token hmode
      · cases h
  | _ =>
      cases h
      exact .token hmode

theorem refuses_of_step {c : Cursor} {t : Token} {fault : Fault}
    (h : Cursor.step g c t = .error fault) : Refuses g c (some t) fault := by
  obtain ⟨mode, fs⟩ := c
  cases mode with
  | operand signed =>
      have hmode : (Mode.operand signed).Resumable g := .inl ⟨signed, rfl⟩
      obtain ⟨l, p⟩ := t
      cases l with
      | number _ => cases signed <;> cases h
      | name _ => cases signed <;> cases h
      | leftParen => cases signed <;> cases h
      | operator o => cases signed <;> cases o <;> cases h <;> exact .token hmode
      | _ => cases signed <;> cases h <;> exact .token hmode
  | operator last => exact refuses_of_pastOperand (.inr trivial) h
  | word name q =>
      obtain ⟨l, p⟩ := t
      by_cases hl : l = .leftParen
      · subst hl
        simp only [Cursor.step] at h
        split at h
        · cases h
        · next hf =>
          cases h
          exact .callee hf
      · rw [Cursor.step_word _ hl] at h
        cases hname : nameTree g.names name q with
        | error unknown =>
            rw [hname] at h
            cases h
            obtain ⟨hunknown, rfl⟩ := nameTree_eq_error_iff.mp hname
            exact .unknown hunknown
        | ok u =>
            rw [hname] at h
            exact refuses_of_pastOperand (.inr (exists_nameTree_iff.mp ⟨u, hname⟩)) h

theorem refuses_of_finish {c : Cursor} {fault : Fault} (h : Cursor.finish g c = .error fault) :
    Refuses g c none fault := by
  obtain ⟨mode, fs⟩ := c
  cases mode with
  | operand signed =>
      cases h
      exact .ending (.inl ⟨signed, rfl⟩)
  | operator last =>
      cases fs with
      | nil => cases h
      | cons fr fs =>
          cases h
          exact .ending (.inr trivial)
  | word name q =>
      cases hname : nameTree g.names name q with
      | error unknown =>
          obtain ⟨hunknown, rfl⟩ := nameTree_eq_error_iff.mp hname
          cases fs <;>
          · simp only [Cursor.finish, hname] at h
            cases h
            exact .unknown hunknown
      | ok u =>
          cases fs with
          | nil =>
              simp only [Cursor.finish, hname] at h
              cases h
          | cons fr fs =>
              simp only [Cursor.finish, hname] at h
              cases h
              exact .ending (.inr (exists_nameTree_iff.mp ⟨u, hname⟩))

/-- A token list that is refused is refused at a first token, or at the end. -/
theorem exists_refuses {ts : List Token} {fault : Fault} (h : Cursor.run g .start ts = .error fault) :
    ∃ before after c, ts = before ++ after ∧ Cursor.walk g .start before = .ok c ∧
      Refuses g c after.head? fault := by
  rcases Cursor.exists_refusal g h with ⟨before, t, after, c, rfl, hwalk, hstep⟩ | ⟨c, hwalk, hfinish⟩
  · exact ⟨before, t :: after, c, rfl, hwalk, refuses_of_step hstep⟩
  · exact ⟨ts, [], c, (List.append_nil ts).symm, hwalk, refuses_of_finish hfinish⟩

/-! ## What comes next -/

/-- What comes next depends on the last token alone. -/
def modeAfter : Option Token → Mode
  | some ⟨.operator o, _⟩ => .operand (o ≠ .pow)
  | some ⟨.name name, position⟩ => .word name position
  | some ⟨.leftParen, _⟩ | some ⟨.comma, _⟩ | none => .operand true
  | some t => .operator t

theorem Steps.mode_eq {c c' : Cursor} {t : Token} (h : Steps g c t c') :
    c'.mode = modeAfter (some t) := by
  cases h <;> rfl

theorem exists_of_modeAfter_eq_word {before : List Token} {name : String} {position : Nat}
    (h : modeAfter before.getLast? = .word name position) :
    ∃ outer, before = outer ++ [⟨.name name, position⟩] := by
  refine List.getLast?_eq_some_iff.mp ?_
  cases hlast : before.getLast? with
  | none => simp [hlast, modeAfter] at h
  | some t =>
      obtain ⟨l, p⟩ := t
      rw [hlast] at h
      cases l <;> cases h
      rfl

theorem mode_eq_of_walk {before : List Token} {c : Cursor}
    (h : Cursor.walk g .start before = .ok c) : c.mode = modeAfter before.getLast? := by
  refine walk_induction (P := fun before c => c.mode = modeAfter before.getLast?) rfl ?_ h
  intro before t c c' _ _ hstep
  rw [hstep.mode_eq, List.getLast?_concat]

/-! ## The open frames -/

/-- The innermost open call has begun `n` more arguments. -/
def begin (n : Nat) : List Frame → List Frame
  | .call f begun name position :: fs => .call f (begun + n) name position :: fs
  | fs => fs

@[simp] theorem begin_zero (fs : List Frame) : begin 0 fs = fs := by
  rcases fs with _ | ⟨_ | _, _⟩ <;> rfl

theorem begin_begin (m n : Nat) (fs : List Frame) : begin n (begin m fs) = begin (m + n) fs := by
  rcases fs with _ | ⟨_ | _, _⟩ <;> simp [begin, Nat.add_assoc]

/-- One step under a depth scan. A frame above `fs` is opened or closed with its parenthesis, and
only a comma that stands in none of them reaches `fs`. -/
theorem Steps.exists_above {c c' : Cursor} {t : Token} {ts : List Token} {above fs : List Frame}
    (h : Steps g c t c') (hopened : c.opened = above ++ fs)
    (hts : balanceFault above.length (t :: ts) = none) :
    ∃ above' n, c'.opened = above' ++ begin n fs ∧ balanceFault above'.length ts = none ∧
      directCommas above.length (t :: ts) = n + directCommas above'.length ts := by
  have hplain (ht : Plain t.lexeme) (hcomma : t.lexeme ≠ .comma) :
      balanceFault above.length ts = none ∧
        directCommas above.length (t :: ts) = 0 + directCommas above.length ts := by
    rw [balanceFault_plain _ ht] at hts
    rw [directCommas_plain _ ht hcomma, Nat.zero_add]
    exact ⟨hts, rfl⟩
  cases h with
  | number => exact ⟨above, 0, by simpa using hopened, hplain (by simp [Plain]) (by simp)⟩
  | name => exact ⟨above, 0, by simpa using hopened, hplain (by simp [Plain]) (by simp)⟩
  | sign => exact ⟨above, 0, by simpa using hopened, hplain (by simp [Plain]) (by simp)⟩
  | operator _ => exact ⟨above, 0, by simpa using hopened, hplain (by simp [Plain]) (by simp)⟩
  | group =>
      rw [balanceFault_leftParen] at hts
      exact ⟨.group :: above, 0, by simpa using hopened, hts, (Nat.zero_add _).symm⟩
  | @call name f _ q _ hf =>
      rw [balanceFault_leftParen] at hts
      exact ⟨.call f 1 name q :: above, 0, by simpa using hopened, hts, (Nat.zero_add _).symm⟩
  | closeGroup _ | closeCall _ _ =>
      cases above with
      | nil => cases hts
      | cons fr above =>
          rw [List.cons_append, List.cons.injEq] at hopened
          rw [List.length_cons, balanceFault_rightParen] at hts
          exact ⟨above, 0, by simpa using hopened.2, hts, (Nat.zero_add _).symm⟩
  | @comma _ p f begun name q inner _ =>
      rw [balanceFault_plain _ (by simp [Plain])] at hts
      cases above with
      | nil =>
          obtain rfl : _ = fs := hopened
          exact ⟨[], 1, rfl, hts, Nat.add_comm _ _⟩
      | cons fr above =>
          rw [List.cons_append, List.cons.injEq] at hopened
          obtain ⟨rfl, rfl⟩ := hopened
          exact ⟨.call f (begun + 1) name q :: above, 0, by simp, hts, (Nat.zero_add _).symm⟩

/-- A walk out of matching parentheses: the frames opened on the way are closed again, and each
comma outside of them began an argument of the innermost open call. -/
theorem opened_of_balanceFault {ts : List Token} {c c' : Cursor} {above fs : List Frame}
    (hwalk : Cursor.walk g c ts = .ok c') (hopened : c.opened = above ++ fs)
    (hts : balanceFault above.length ts = none) :
    c'.opened = begin (directCommas above.length ts) fs := by
  induction ts generalizing c above fs with
  | nil =>
      cases hwalk
      cases above with
      | nil => simpa [directCommas] using hopened
      | cons fr above => cases hts
  | cons t ts ih =>
      rw [Cursor.walk_cons] at hwalk
      obtain ⟨c₁, hc₁, hrest⟩ := exists_of_bind hwalk
      obtain ⟨above', n, hopened', hts', hcommas⟩ := (steps_of_step hc₁).exists_above hopened hts
      rw [ih hrest hopened' hts', begin_begin, hcommas]

/-- Matching parentheses leave open what was open before. -/
theorem opened_of_balanced {ts : List Token} {c c' : Cursor}
    (hwalk : Cursor.walk g c ts = .ok c') (hts : Balanced ts) :
    c'.opened = begin (directCommas 0 ts) c.opened := by
  have hopened : c.opened = [] ++ c.opened := rfl
  exact opened_of_balanceFault hwalk hopened hts

/-- The frames that the tokens have left open. A call counts its arguments by the commas that stand
directly in it. -/
inductive Openings : List Frame → List Token → Prop
  | nil {before} : Balanced before → Openings [] before
  | group {fs outer p inside} : Openings fs outer → Balanced inside →
      Openings (.group :: fs) (outer ++ ⟨.leftParen, p⟩ :: inside)
  | call {fs outer name f p q inside} : Openings fs (outer ++ [⟨.name name, q⟩]) →
      Function.ofName? name = some f → Balanced inside →
      Openings (.call f (1 + directCommas 0 inside) name q :: fs)
        (outer ++ ⟨.name name, q⟩ :: ⟨.leftParen, p⟩ :: inside)

namespace Openings

theorem append {fs : List Frame} {before ts : List Token} (h : Openings fs before)
    (hts : Balanced ts) : Openings (begin (directCommas 0 ts) fs) (before ++ ts) := by
  cases h with
  | nil hbefore => exact .nil (hbefore.append hts)
  | group hfs hinside =>
      rw [List.append_assoc, List.cons_append]
      exact .group hfs (hinside.append hts)
  | call hfs hf hinside =>
      rw [List.append_assoc, List.cons_append, List.cons_append, begin, Nat.add_assoc,
        ← hinside.directCommas_append]
      exact .call hfs hf (hinside.append hts)

theorem concat {fs : List Frame} {before : List Token} {t : Token} (h : Openings fs before)
    (ht : Plain t.lexeme) (hcomma : t.lexeme ≠ .comma) : Openings fs (before ++ [t]) := by
  have happend := h.append (balanced_plain ht)
  rwa [directCommas_plain _ ht hcomma, directCommas, begin_zero] at happend

theorem enclosed {fs : List Frame} {before inside : List Token} (h : Openings fs before)
    (hinside : Balanced inside) (p q : Nat) :
    Openings fs (before ++ ⟨.leftParen, p⟩ :: inside ++ [⟨.rightParen, q⟩]) := by
  have happend := h.append (hinside.enclosed p q)
  rw [hinside.directCommas_enclosed, begin_zero] at happend
  rwa [List.append_assoc, List.cons_append]

/-- There are as many frames as parentheses that still have to be closed. -/
theorem balanceFault_append {fs : List Frame} {before : List Token} (h : Openings fs before)
    (k : Nat) (after : List Token) :
    balanceFault k (before ++ after) = balanceFault (k + fs.length) after := by
  induction h generalizing k after with
  | nil hbefore => simpa using Formula.balanceFault_append hbefore k after
  | group _ hinside ih =>
      have hskip := Formula.balanceFault_append hinside
      simp only [Nat.zero_add] at hskip
      rw [List.append_assoc, List.cons_append, ih, balanceFault_leftParen, hskip]
      rfl
  | @call fs outer name f p q inside _ _ hinside ih =>
      have hskip := Formula.balanceFault_append hinside
      simp only [Nat.zero_add] at hskip
      have hih := ih k (⟨.leftParen, p⟩ :: (inside ++ after))
      rw [List.append_assoc, List.singleton_append, balanceFault_leftParen, hskip] at hih
      simpa [Nat.add_assoc] using hih

end Openings

theorem openings_of_walk {before : List Token} {c : Cursor}
    (h : Cursor.walk g .start before = .ok c) : Openings c.opened before := by
  refine walk_induction (P := fun before c => Openings c.opened before) (.nil rfl) ?_ h
  intro before t c c' hwalk hc hstep
  cases hstep with
  | number => exact hc.concat (by simp [Plain]) (by simp)
  | name => exact hc.concat (by simp [Plain]) (by simp)
  | sign => exact hc.concat (by simp [Plain]) (by simp)
  | operator _ => exact hc.concat (by simp [Plain]) (by simp)
  | group => exact .group hc rfl
  | call hf =>
      obtain ⟨outer, rfl⟩ := exists_of_modeAfter_eq_word (mode_eq_of_walk hwalk).symm
      rw [List.append_assoc]
      exact .call hc hf (rfl : Balanced [])
  | closeGroup _ =>
      cases hc with
      | group hfs hinside => exact hfs.enclosed hinside _ _
  | closeCall _ _ =>
      cases hc with
      | call hfs _ hinside => simpa using hfs.enclosed hinside _ _
  | @comma _ p _ _ _ _ _ _ =>
      exact hc.append (balanced_plain (t := ⟨.comma, p⟩) (by simp [Plain]))

end PhasePortrait.Formula
