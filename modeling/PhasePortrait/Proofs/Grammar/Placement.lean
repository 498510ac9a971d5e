import PhasePortrait.Proofs.Grammar.Nesting

/-!
# Formulas without a grammar

A token list is a formula exactly if every token may stand after the one before it, every word is
known, the parentheses match, commas stand in calls, and every call has as many arguments as its
function admits (`run_eq_ok_iff`). None of these needs a derivation: they look at neighbouring
tokens, and at stretches whose parentheses match. A list that keeps only some of them is refused at
the first place where another one fails, which gives the kind of the fault (`exists_stuck`).
-/
namespace PhasePortrait.Formula

variable {g : Grammar}

/-- The lexeme of the next token, if there is one. -/
def ahead (ts : List Token) : Option Lexeme := ts.head?.map Token.lexeme

/-- Whether a lexeme, or the end, may come next. -/
def Mode.expects : Mode → Option Lexeme → Bool
  | .operand signed, l => l.any fun l => l.startsOperand || (signed && l = .operator .sub)
  | .word _ _, l => l = some .leftParen || !l.any Lexeme.startsOperand
  | .operator _, l => !l.any Lexeme.startsOperand

/-- A word means something where it stands, before a parenthesis or not. -/
def Known (g : Grammar) (name : String) : Option Lexeme → Prop
  | some .leftParen => (Function.ofName? name).isSome
  | _ => name ∈ g.names ∨ (Constant.ofName? name).isSome

theorem known_iff {name : String} {next : Option Lexeme} (h : next ≠ some .leftParen) :
    Known g name next ↔ name ∈ g.names ∨ (Constant.ofName? name).isSome := by
  rcases next with _ | l
  · rfl
  · cases l <;> first | rfl | exact absurd rfl h

/-- These tokens end directly in the parentheses of a call. -/
def InCall (before : List Token) : Prop :=
  ∃ outer name q p inside,
    before = outer ++ ⟨.name name, q⟩ :: ⟨.leftParen, p⟩ :: inside ∧ Balanced inside

/-- The tokens on both sides of a place in the list, of which its two ends have only one. -/
def Seam (ts : List Token) (previous next : Option Token) : Prop :=
  ∃ before after, ts = before ++ after ∧ before.getLast? = previous ∧ after.head? = next

/-- Every token, and the end, may come after the one before it. -/
def WellPlaced (ts : List Token) : Prop :=
  ∀ previous next, Seam ts previous next →
    (modeAfter previous).expects (next.map Token.lexeme)

def WordsKnown (g : Grammar) (ts : List Token) : Prop :=
  ∀ name position next, Seam ts (some ⟨.name name, position⟩) next →
    Known g name (next.map Token.lexeme)

def CommasInCalls (ts : List Token) : Prop :=
  ∀ before p after, ts = before ++ ⟨.comma, p⟩ :: after → InCall before

/-- Every call has one argument more than commas directly in its parentheses, and its function
admits that many. -/
def CountsAdmitted (g : Grammar) (ts : List Token) : Prop :=
  ∀ outer name q p inside r after f,
    ts = outer ++ ⟨.name name, q⟩ :: ⟨.leftParen, p⟩ :: (inside ++ ⟨.rightParen, r⟩ :: after) →
      Balanced inside → Function.ofName? name = some f → g.admits f (1 + directCommas 0 inside)

/-- What makes a token list a formula. -/
structure WellFormed (g : Grammar) (ts : List Token) : Prop where
  placed : WellPlaced ts
  known : WordsKnown g ts
  balanced : Balanced ts
  commas : CommasInCalls ts
  counts : CountsAdmitted g ts

/-! ## Where a walk gets stuck -/

/-- Why a cursor cannot go past the next lexeme, or stop at the end, and the kind of the fault. -/
inductive Stuck (g : Grammar) (c : Cursor) : Option Lexeme → FaultKind → Prop
  | misplaced {next} : c.mode.expects next = false → Stuck g c next .syntaxError
  | unopened : c.opened = [] → Stuck g c (some .rightParen) .syntaxError
  | unclosed : c.opened ≠ [] → Stuck g c none .syntaxError
  | comma : (∀ f begun name q fs, c.opened ≠ .call f begun name q :: fs) →
      Stuck g c (some .comma) .syntaxError
  | count {f begun name q fs} : c.opened = .call f begun name q :: fs → ¬g.admits f begun →
      Stuck g c (some .rightParen) .arity
  | word {name q next kind} : c.mode = .word name q → ¬Known g name next → Stuck g c next kind

theorem stuck_of_pastOperand {c : Cursor} {last t : Token} {fault : Fault}
    (hexpects : c.mode.expects (some t.lexeme) = !t.lexeme.startsOperand)
    (h : Cursor.pastOperand g last c.opened t = .error fault) :
    Stuck g c (some t.lexeme) fault.kind := by
  obtain ⟨mode, fs⟩ := c
  obtain ⟨l, p⟩ := t
  cases l with
  | operator o => cases h
  | rightParen =>
      rcases fs with _ | ⟨_ | ⟨f, begun, name, q⟩, fs⟩
      · cases h
        exact .unopened rfl
      · cases h
      · simp only [Cursor.pastOperand] at h
        split at h
        · cases h
        · next hadmits =>
          cases h
          exact .count rfl hadmits
  | comma =>
      rcases fs with _ | ⟨_ | ⟨f, begun, name, q⟩, fs⟩
      · cases h
        exact .comma (by simp)
      · cases h
        exact .comma (by simp)
      · cases h
  | _ =>
      cases h
      exact .misplaced hexpects

theorem not_known_of_nameTree {name : String} {position : Nat} {next : Option Lexeme}
    {fault : Fault} (hnext : next ≠ some .leftParen)
    (h : nameTree g.names name position = .error fault) :
    ¬Known g name next := by
  rw [known_iff hnext, ← exists_nameTree_iff, h]
  exact nofun

theorem stuck_of_step {c : Cursor} {t : Token} {fault : Fault}
    (h : Cursor.step g c t = .error fault) : Stuck g c (some t.lexeme) fault.kind := by
  obtain ⟨mode, fs⟩ := c
  obtain ⟨l, p⟩ := t
  cases mode with
  | operand signed =>
      cases l with
      | number _ => cases signed <;> cases h
      | name _ => cases signed <;> cases h
      | leftParen => cases signed <;> cases h
      | operator o =>
          cases signed <;> cases o <;> cases h <;> exact .misplaced rfl
      | _ =>
          cases signed <;> cases h <;> exact .misplaced rfl
  | word name q =>
      by_cases hl : l = .leftParen
      · subst hl
        simp only [Cursor.step] at h
        split at h
        · cases h
        · next hf => exact .word rfl (by simp [Known, hf])
      · rw [Cursor.step_word _ hl] at h
        cases hname : nameTree g.names name q with
        | error _ => exact .word rfl (not_known_of_nameTree (by simpa using hl) hname)
        | ok u =>
            rw [hname] at h
            refine stuck_of_pastOperand ?_ h
            simp [Mode.expects, hl]
  | operator last => exact stuck_of_pastOperand (by simp [Mode.expects]) h

theorem stuck_of_finish {c : Cursor} {fault : Fault} (h : Cursor.finish g c = .error fault) :
    Stuck g c none fault.kind := by
  obtain ⟨mode, fs⟩ := c
  cases mode with
  | operand signed =>
      cases h
      exact .misplaced rfl
  | word name q =>
      cases hname : nameTree g.names name q with
      | error _ => exact .word rfl (not_known_of_nameTree (Option.some_ne_none _).symm hname)
      | ok u =>
          cases fs with
          | nil =>
              simp only [Cursor.finish, hname] at h
              cases h
          | cons fr fs =>
              simp only [Cursor.finish, hname] at h
              cases h
              exact .unclosed (List.cons_ne_nil fr fs)
  | operator last =>
      cases fs with
      | nil => cases h
      | cons fr fs =>
          cases h
          exact .unclosed (List.cons_ne_nil fr fs)

/-- A token list that is refused is refused at a first place. -/
theorem exists_stuck {ts : List Token} {fault : Fault}
    (h : Cursor.run g .start ts = .error fault) :
    ∃ before after c, ts = before ++ after ∧ Cursor.walk g .start before = .ok c ∧
      Stuck g c (ahead after) fault.kind := by
  rcases Cursor.exists_refusal g h with ⟨before, t, after, c, rfl, hwalk, hstep⟩ | ⟨c, hwalk, hfinish⟩
  · exact ⟨before, t :: after, c, rfl, hwalk, stuck_of_step hstep⟩
  · exact ⟨ts, [], c, (List.append_nil ts).symm, hwalk, stuck_of_finish hfinish⟩

/-! ## What a walk goes through is well formed -/

theorem Mode.Ended.expects_none {mode : Mode} (h : mode.Ended g) : mode.expects none := by
  cases mode with
  | operand signed => exact h.elim
  | _ => rfl

theorem Mode.Ended.expects {mode : Mode} (h : mode.Ended g) {l : Lexeme} (hl : ¬l.startsOperand) :
    mode.expects (some l) := by
  cases mode with
  | operand signed => exact h.elim
  | _ => simp [Mode.expects, hl]

theorem Steps.expects {c c' : Cursor} {t : Token} (h : Steps g c t c') :
    c.mode.expects (some t.lexeme) := by
  cases h with
  | operator h | closeGroup h | closeCall h _ | comma h => exact h.expects nofun
  | _ => rfl

theorem Steps.known {name : String} {q : Nat} {fs : List Frame} {c : Cursor} {t : Token}
    (h : Steps g ⟨.word name q, fs⟩ t c) : Known g name (some t.lexeme) := by
  cases h with
  | call hf => simp [Known, hf]
  | operator h | closeGroup h | closeCall h _ | comma h => exact h

theorem ended_of_finish {c : Cursor} (h : Cursor.finish g c = .ok ()) :
    c.opened = [] ∧ c.mode.Ended g := by
  obtain ⟨mode, fs⟩ := c
  cases mode with
  | operand signed => cases h
  | word name q =>
      have hname : ∃ u, nameTree g.names name q = .ok u := by
        cases fs <;> exact (exists_of_bind h).imp fun _ hu => hu.1
      obtain ⟨u, hu⟩ := hname
      cases fs with
      | nil => exact ⟨rfl, exists_nameTree_iff.mp ⟨u, hu⟩⟩
      | cons fr fs =>
          simp only [Cursor.finish, hu] at h
          cases h
  | operator last =>
      cases fs with
      | nil => exact ⟨rfl, trivial⟩
      | cons fr fs => cases h

/-- A list that is accepted is accepted from wherever it is cut. -/
theorem exists_walk {before after : List Token}
    (h : Cursor.run g .start (before ++ after) = .ok ()) :
    ∃ c, Cursor.walk g .start before = .ok c ∧ Cursor.run g c after = .ok () := by
  rw [Cursor.run, Cursor.walk_append, bind_assoc] at h
  exact exists_of_bind h

theorem exists_steps {c : Cursor} {t : Token} {ts : List Token}
    (h : Cursor.run g c (t :: ts) = .ok ()) :
    ∃ c', Steps g c t c' ∧ Cursor.run g c' ts = .ok () := by
  rw [Cursor.run_cons] at h
  obtain ⟨c', hstep, hrun⟩ := exists_of_bind h
  exact ⟨c', steps_of_step hstep, hrun⟩

theorem expects_of_run {c : Cursor} {ts : List Token} (h : Cursor.run g c ts = .ok ()) :
    c.mode.expects (ahead ts) := by
  cases ts with
  | nil => exact (ended_of_finish h).2.expects_none
  | cons t ts =>
      obtain ⟨c', hstep, _⟩ := exists_steps h
      exact hstep.expects

theorem known_of_run {name : String} {q : Nat} {fs : List Frame} {ts : List Token}
    (h : Cursor.run g ⟨.word name q, fs⟩ ts = .ok ()) : Known g name (ahead ts) := by
  cases ts with
  | nil => exact (ended_of_finish h).2
  | cons t ts =>
      obtain ⟨c', hstep, _⟩ := exists_steps h
      exact hstep.known

theorem Openings.inCall {f : Function} {begun : Nat} {name : String} {q : Nat} {fs : List Frame}
    {before : List Token} (h : Openings (.call f begun name q :: fs) before) : InCall before := by
  cases h with
  | @call _ outer _ _ p _ inside _ _ hinside => exact ⟨outer, name, q, p, inside, rfl, hinside⟩

/-- Directly in the parentheses of a call the innermost open frame is that call, with as many
arguments begun as commas were passed, and one. -/
theorem opened_in_call {outer inside : List Token} {name : String} {q p : Nat} {c : Cursor}
    (h : Cursor.walk g .start (outer ++ ⟨.name name, q⟩ :: ⟨.leftParen, p⟩ :: inside) = .ok c)
    (hinside : Balanced inside) :
    ∃ f fs, Function.ofName? name = some f ∧
      c.opened = .call f (1 + directCommas 0 inside) name q :: fs := by
  rw [Cursor.walk_append] at h
  obtain ⟨c₀, _, h⟩ := exists_of_bind h
  rw [Cursor.walk_cons] at h
  obtain ⟨c₁, hname, h⟩ := exists_of_bind h
  rw [Cursor.walk_cons] at h
  obtain ⟨c₂, hparen, h⟩ := exists_of_bind h
  rw [opened_of_balanced h hinside]
  cases steps_of_step hname with
  | name => cases steps_of_step hparen with
      | call hf => exact ⟨_, _, hf, rfl⟩

/-- What is accepted is well formed. -/
theorem wellFormed_of_run {ts : List Token} (h : Cursor.run g .start ts = .ok ()) :
    WellFormed g ts where
  placed := by
    rintro _ _ ⟨before, after, rfl, rfl, rfl⟩
    obtain ⟨c, hwalk, hrun⟩ := exists_walk h
    rw [← mode_eq_of_walk hwalk]
    exact expects_of_run hrun
  known := by
    rintro name position _ ⟨before, after, rfl, hlast, rfl⟩
    obtain ⟨⟨mode, fs⟩, hwalk, hrun⟩ := exists_walk h
    have hmode := mode_eq_of_walk hwalk
    rw [hlast] at hmode
    obtain rfl : mode = .word name position := hmode
    exact known_of_run hrun
  balanced := by
    obtain ⟨c, hwalk, hfinish⟩ := exists_of_bind h
    have hopenings := openings_of_walk hwalk
    rw [(ended_of_finish hfinish).1] at hopenings
    cases hopenings with
    | nil hbalanced => exact hbalanced
  commas before p after hts := by
    subst hts
    obtain ⟨c, hwalk, hrun⟩ := exists_walk h
    obtain ⟨c', hstep, _⟩ := exists_steps hrun
    have hopenings := openings_of_walk hwalk
    cases hstep with
    | comma _ => exact hopenings.inCall
  counts outer name q p inside r after f hts hinside hf := by
    have hcut : ts = (outer ++ ⟨.name name, q⟩ :: ⟨.leftParen, p⟩ :: inside) ++
        ⟨.rightParen, r⟩ :: after := by simp [hts]
    rw [hcut] at h
    obtain ⟨c, hwalk, hrun⟩ := exists_walk h
    obtain ⟨c', hstep, _⟩ := exists_steps hrun
    obtain ⟨f', fs, hf', hopened⟩ := opened_in_call hwalk hinside
    obtain rfl : f = f' := Option.some.inj (hf.symm.trans hf')
    cases hstep with
    | closeGroup _ => cases hopened
    | closeCall _ hadmits =>
        cases hopened
        exact hadmits

/-! ## What is well formed is accepted -/

theorem exists_of_ahead {after : List Token} {l : Lexeme} (h : ahead after = some l) :
    ∃ position rest, after = ⟨l, position⟩ :: rest := by
  rcases after with _ | ⟨⟨_, position⟩, rest⟩
  · cases h
  · cases h
    exact ⟨position, rest, rfl⟩

theorem not_stuck_at_word {before after : List Token} {c : Cursor} {name : String} {q : Nat}
    (h : WordsKnown g (before ++ after)) (hwalk : Cursor.walk g .start before = .ok c)
    (hmode : c.mode = .word name q) : Known g name (ahead after) := by
  rw [mode_eq_of_walk hwalk] at hmode
  obtain ⟨outer, rfl⟩ := exists_of_modeAfter_eq_word hmode
  exact h name q _ ⟨_, after, rfl, List.getLast?_concat, rfl⟩

/-- A well-formed list has no place to get stuck. -/
theorem WellFormed.not_stuck {before after : List Token} {c : Cursor} {kind : FaultKind}
    (h : WellFormed g (before ++ after)) (hwalk : Cursor.walk g .start before = .ok c) :
    ¬Stuck g c (ahead after) kind := by
  have hopenings := openings_of_walk hwalk
  have hbalance := h.balanced
  rw [Balanced, hopenings.balanceFault_append, Nat.zero_add] at hbalance
  generalize hnext : ahead after = next
  rintro (hexpects | hopened | hopened | hopened |
    @⟨f, begun, name, q, fs, hopened, hadmits⟩ | ⟨hmode, hknown⟩)
  · have hplaced := h.placed _ _ ⟨before, after, rfl, rfl, rfl⟩
    rw [← mode_eq_of_walk hwalk, ← ahead, hnext, hexpects] at hplaced
    cases hplaced
  · -- a parenthesis that closes nothing
    obtain ⟨position, rest, rfl⟩ := exists_of_ahead hnext
    rw [hopened] at hbalance
    cases hbalance
  · -- the end, with parentheses open
    obtain rfl : after = [] := by simpa [ahead] using hnext
    obtain ⟨fr, fs, hcons⟩ := List.exists_cons_of_ne_nil hopened
    rw [hcons] at hbalance
    cases hbalance
  · -- a comma in no call
    obtain ⟨position, rest, rfl⟩ := exists_of_ahead hnext
    obtain ⟨outer, name, q, p, inside, rfl, hinside⟩ := h.commas before position rest rfl
    obtain ⟨f, fs, _, hcall⟩ := opened_in_call hwalk hinside
    exact hopened _ _ _ _ _ hcall
  · -- the end of a call with a wrong number of arguments
    obtain ⟨position, rest, rfl⟩ := exists_of_ahead hnext
    rw [hopened] at hopenings
    cases hopenings with
    | @call _ outer _ _ p _ inside _ hf hinside =>
        exact hadmits (h.counts outer name q p inside position rest f (by simp) hinside hf)
  · exact hknown (hnext ▸ not_stuck_at_word h.known hwalk hmode)

/-- A list of known words is refused for its form or for a number of arguments. -/
theorem kind_of_run {ts : List Token} {fault : Fault} (h : WordsKnown g ts)
    (hrun : Cursor.run g .start ts = .error fault) :
    fault.kind = .syntaxError ∨ fault.kind = .arity := by
  obtain ⟨before, after, c, rfl, hwalk, hstuck⟩ := exists_stuck hrun
  generalize hnext : ahead after = next at hstuck
  generalize fault.kind = kind at hstuck ⊢
  cases hstuck with
  | word hmode hknown => exact (hknown (hnext ▸ not_stuck_at_word h hwalk hmode)).elim
  | count _ _ => exact .inr rfl
  | _ => exact .inl rfl

/-- **Neighbours, nesting and words decide whether a token list is a formula.** -/
theorem run_eq_ok_iff (ts : List Token) : Cursor.run g .start ts = .ok () ↔ WellFormed g ts := by
  refine ⟨wellFormed_of_run, fun h => ?_⟩
  cases hrun : Cursor.run g .start ts with
  | ok _ => rfl
  | error fault =>
      obtain ⟨before, after, c, rfl, hwalk, hstuck⟩ := exists_stuck hrun
      exact (h.not_stuck hwalk hstuck).elim

/-- The parser returns a tree exactly for what is well formed. -/
theorem exists_parseAll_iff (ts : List Token) : (∃ t, parseAll g ts = .ok t) ↔ WellFormed g ts := by
  rw [← run_eq_ok_iff, run_start]
  cases parseAll g ts with
  | error fault => exact ⟨nofun, nofun⟩
  | ok t => exact ⟨fun _ => rfl, fun _ => ⟨t, rfl⟩⟩

theorem kind_of_parseAll {ts : List Token} {fault : Fault} (h : WordsKnown g ts)
    (hparse : parseAll g ts = .error fault) :
    fault.kind = .syntaxError ∨ fault.kind = .arity := by
  refine kind_of_run h ?_
  rw [run_start, hparse]
  rfl

end PhasePortrait.Formula
