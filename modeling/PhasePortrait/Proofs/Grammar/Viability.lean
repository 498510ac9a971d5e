import PhasePortrait.Proofs.Grammar.Exactness
import PhasePortrait.Proofs.Grammar.Placement

/-!
# Faults at the earliest token

A beginning is viable if some formula begins with it, whatever the numbers of arguments. Every cursor that
a walk reaches can be completed: by an operand if one is due, and a closing parenthesis for each open one.
So what a walk has passed is viable; and what a formula begins with can be walked past, so the token that
stops a walk could stand there in no formula. The parser stops where the walk does: it neither refuses a
token that could still have been used nor goes past one that could not.

## Main definitions

* `Grammar.anyCount names` — the grammar over the names, with calls of any number of arguments.
* `Viable names ls` — some formula begins with the lexemes `ls`.
-/
namespace PhasePortrait.Formula
open Cursor

/-- The grammar in which calls may have any number of arguments. -/
def Grammar.anyCount (names : List String) : Grammar := ⟨names, fun _ _ => true⟩

/-- Some formula begins with these lexemes. -/
def Viable (names : List String) (ls : List Lexeme) : Prop :=
  ∃ more t, Derives (.anyCount names) .sum (ls ++ more) t

variable {g : Grammar} {names : List String}

/-! ## Walks without counting arguments -/

theorem pastOperand_anyCount (last : Token) (opened : List Frame) (t : Token) :
    pastOperand (.anyCount g.names) last opened t = pastOperand g last opened t ∨
      ∃ f begun name position,
        pastOperand g last opened t = .error (.wrongArity f begun name position) := by
  obtain ⟨l, p⟩ := t
  cases l with
  | rightParen =>
      rcases opened with _ | ⟨_ | ⟨f, begun, name, q⟩, fs⟩
      · exact .inl rfl
      · exact .inl rfl
      · by_cases hadmits : g.admits f begun
        · exact .inl (by simp [pastOperand, Grammar.anyCount, hadmits])
        · exact .inr ⟨f, begun, name, q, by simp [pastOperand, hadmits]⟩
  | comma => rcases opened with _ | ⟨_ | _, _⟩ <;> exact .inl rfl
  | _ => exact .inl rfl

/-- A step differs only where it counts the arguments of a call. -/
theorem step_anyCount (c : Cursor) (t : Token) :
    step (.anyCount g.names) c t = step g c t ∨
      ∃ f begun name position, step g c t = .error (.wrongArity f begun name position) := by
  obtain ⟨mode, fs⟩ := c
  cases mode with
  | operand signed =>
      obtain ⟨l, p⟩ := t
      left
      cases signed <;> cases l <;> rfl
  | operator last => exact pastOperand_anyCount last fs t
  | word name q =>
      by_cases hl : t.lexeme = .leftParen
      · obtain ⟨l, p⟩ := t
        obtain rfl : l = .leftParen := hl
        exact .inl rfl
      · rw [step_word _ hl, step_word _ hl]
        cases hname : nameTree g.names name q with
        | error fault =>
            left
            change nameTree g.names name q >>= _ = _
            rw [hname]
            rfl
        | ok u =>
            have hpast := pastOperand_anyCount (g := g) ⟨.name name, q⟩ fs t
            change (nameTree g.names name q >>= _) = _ ∨ _
            rw [hname]
            exact hpast

theorem step_anyCount_of_error {c : Cursor} {t : Token} {fault : Fault}
    (h : step g c t = .error fault) (hkind : fault.kind = .syntaxError) :
    step (.anyCount g.names) c t = .error fault := by
  rcases step_anyCount (g := g) c t with heq | ⟨f, begun, name, position, herror⟩
  · rw [heq, h]
  · rw [h] at herror
    cases herror
    cases hkind

theorem walk_anyCount {c c' : Cursor} {ts : List Token} (h : walk g c ts = .ok c') :
    walk (.anyCount g.names) c ts = .ok c' := by
  induction ts generalizing c with
  | nil => exact h
  | cons t ts ih =>
      rw [walk_cons] at h
      obtain ⟨next, hstep, hrest⟩ := exists_of_bind h
      rcases step_anyCount (g := g) c t with heq | ⟨f, begun, name, position, herror⟩
      · rw [walk_cons, heq, hstep]
        exact ih hrest
      · rw [hstep] at herror
        cases herror

/-! ## Completions -/

theorem Mode.Ended.exists_nameTree {name : String} {q : ℕ} (h : (Mode.word name q).Ended g) :
    ∃ u, nameTree g.names name q = .ok u :=
  exists_nameTree_iff.mpr h

theorem step_rightParen {mode : Mode} (h : mode.Ended (.anyCount names)) (fr : Frame)
    (fs : List Frame) (p : ℕ) :
    step (.anyCount names) ⟨mode, fr :: fs⟩ ⟨.rightParen, p⟩ =
      .ok ⟨.operator ⟨.rightParen, p⟩, fs⟩ := by
  have hpast (last : Token) : pastOperand (.anyCount names) last (fr :: fs) ⟨.rightParen, p⟩ =
      .ok ⟨.operator ⟨.rightParen, p⟩, fs⟩ := by
    cases fr <;> rfl
  cases mode with
  | operand signed => exact h.elim
  | operator last => exact hpast last
  | word name q =>
      obtain ⟨u, hu⟩ := h.exists_nameTree
      rw [step_word _ Lexeme.noConfusion, hu]
      exact hpast _

theorem finish_of_ended {mode : Mode} (h : mode.Ended g) : finish g ⟨mode, []⟩ = .ok () := by
  cases mode with
  | operand signed => exact h.elim
  | operator last => rfl
  | word name q =>
      obtain ⟨u, hu⟩ := h.exists_nameTree
      simp only [finish, hu]
      rfl

/-- Closing what is open completes a formula that has just ended an operand. -/
theorem run_closing {mode : Mode} (h : mode.Ended (.anyCount names)) (fs : List Frame) :
    run (.anyCount names) ⟨mode, fs⟩ (fs.map fun _ => ⟨.rightParen, 0⟩) = .ok () := by
  induction fs generalizing mode with
  | nil => exact finish_of_ended h
  | cons fr fs ih =>
      rw [List.map_cons, run_cons, step_rightParen h]
      have hended : (Mode.operator ⟨.rightParen, 0⟩).Ended (.anyCount names) := trivial
      exact ih hended

theorem exists_completion {c : Cursor} (h : c.mode.Resumable (.anyCount names)) :
    ∃ ts, run (.anyCount names) c ts = .ok () := by
  obtain ⟨mode, fs⟩ := c
  rcases h with ⟨signed, rfl⟩ | hended
  · refine ⟨⟨.number "1", 0⟩ :: fs.map fun _ => ⟨.rightParen, 0⟩, ?_⟩
    rw [run_cons]
    have hended : (Mode.operator ⟨.number "1", 0⟩).Ended (.anyCount names) := trivial
    exact run_closing hended fs
  · exact ⟨_, run_closing hended fs⟩

/-! ## Viable beginnings -/

theorem derives_of_run {ts : List Token} (h : run g .start ts = .ok ()) :
    ∃ t, Derives g .sum (lexemes ts) t := by
  rw [run_start] at h
  obtain ⟨t, ht, -⟩ := exists_of_bind h
  exact ⟨t, (parseAll_eq_ok_iff ts t).mp ht⟩

theorem viable_of_walk {before : List Token} {c : Cursor}
    (hwalk : walk g .start before = .ok c) (hmode : c.mode.Resumable g) :
    ∃ more, run (.anyCount g.names) c more = .ok () ∧
      ∃ t, Derives (.anyCount g.names) .sum (lexemes before ++ lexemes more) t := by
  have hcompletion : ∃ ts, run (.anyCount g.names) c ts = .ok () := exists_completion hmode
  obtain ⟨more, hmore⟩ := hcompletion
  refine ⟨more, hmore, ?_⟩
  rw [← lexemes_append]
  refine derives_of_run ?_
  rw [run, walk_append, walk_anyCount hwalk]
  exact hmore

theorem exists_walk_of_viable {us : List Token} (h : Viable names (lexemes us)) :
    ∃ c, walk (.anyCount names) .start us = .ok c := by
  obtain ⟨more, t, ht⟩ := h
  have hlexemes : lexemes (us ++ more.map (⟨·, 0⟩)) = lexemes us ++ more := by
    simp [lexemes, Function.comp_def]
  rw [← hlexemes, ← parseAll_eq_ok_iff] at ht
  have hrun : run (.anyCount names) .start (us ++ more.map (⟨·, 0⟩)) = .ok () := by
    rw [run_start, ht]
    rfl
  obtain ⟨c, hc, -⟩ := exists_walk hrun
  exact ⟨c, hc⟩

/-! ## Where a walk stops -/

/-- A step that fails for the form of the formula names the token it failed at, and could have gone on
another way. -/
theorem unexpected_of_step {c : Cursor} {t : Token} {fault : Fault}
    (h : step g c t = .error fault) (hkind : fault.kind = .syntaxError) :
    c.mode.Resumable g ∧ ∃ product, fault = .unexpectedToken t.text t.position product := by
  cases refuses_of_step h with
  | token hmode => exact ⟨hmode, _, rfl⟩
  | unknown | callee | count => cases hkind

/-- As `unexpected_of_step`, at the end. -/
theorem unexpectedEnd_of_finish {c : Cursor} {fault : Fault} (h : finish g c = .error fault)
    (hkind : fault.kind = .syntaxError) : c.mode.Resumable g ∧ fault = .unexpectedEnd := by
  cases refuses_of_finish h with
  | ending hmode => exact ⟨hmode, rfl⟩
  | unknown => cases hkind

/-- **Faults of form are reported at the earliest token.** If the parser refuses a token list for its form,
then either it names the first token that no formula could have after the tokens before it, which some
formula does begin with; or it names the end, and the whole list is the beginning of a longer formula. The
numbers of arguments are left out of account. -/
theorem viable_of_parse {ts : List Token} {fault : Fault} (h : parse names ts = .error fault)
    (hkind : fault.kind = .syntaxError) :
    (∃ before t after product, ts = before ++ t :: after ∧
      fault = .unexpectedToken t.text t.position product ∧
      Viable names (lexemes before) ∧ ¬Viable names (lexemes (before ++ [t]))) ∨
    (fault = .unexpectedEnd ∧
      ∃ more tree, more ≠ [] ∧ Derives (.anyCount names) .sum (lexemes ts ++ more) tree) := by
  have hrun : run (.ofNames names) .start ts = .error fault := by
    rw [run_start, ← parse, h]
    rfl
  rcases exists_refusal _ hrun with ⟨before, t, after, c, rfl, hwalk, hstep⟩ | ⟨c, hwalk, hfinish⟩
  · obtain ⟨hmode, product, hfault⟩ := unexpected_of_step hstep hkind
    obtain ⟨more, -, tree, htree⟩ := viable_of_walk hwalk hmode
    refine .inl ⟨before, t, after, product, rfl, hfault, ⟨_, tree, htree⟩, fun hviable => ?_⟩
    obtain ⟨c', hc'⟩ := exists_walk_of_viable hviable
    have hsame : walk (.anyCount names) .start before = .ok c := walk_anyCount hwalk
    rw [walk_append, hsame] at hc'
    obtain ⟨next, hnext, -⟩ := exists_of_bind (walk_cons _ c t [] ▸ hc')
    cases hnext.symm.trans (step_anyCount_of_error hstep hkind)
  · obtain ⟨hmode, hfault⟩ := unexpectedEnd_of_finish hfinish hkind
    obtain ⟨more, hmore, tree, htree⟩ := viable_of_walk hwalk hmode
    refine .inr ⟨hfault, lexemes more, tree, ?_, htree⟩
    intro hnil
    obtain rfl : more = [] := List.map_eq_nil_iff.mp hnil
    have hsame : finish (.ofNames names) c = .ok () := hmore
    rw [hsame] at hfinish
    cases hfinish

/-- In `max(X,-2)3`, the `3` is refused. -/
theorem viable_of_parse_product :
    let ts : List Token := [⟨.name "max", 0⟩, ⟨.leftParen, 3⟩, ⟨.name "X", 4⟩, ⟨.comma, 5⟩,
      ⟨.operator .sub, 6⟩, ⟨.number "2", 7⟩, ⟨.rightParen, 8⟩, ⟨.number "3", 9⟩]
    let fault := Fault.unexpectedToken "3" 9 true
    parse ["X"] ts = .error fault ∧ fault.kind = .syntaxError ∧
      ((∃ before t after product, ts = before ++ t :: after ∧
        fault = .unexpectedToken t.text t.position product ∧
        Viable ["X"] (lexemes before) ∧ ¬Viable ["X"] (lexemes (before ++ [t]))) ∨
      (fault = .unexpectedEnd ∧
        ∃ more tree, more ≠ [] ∧ Derives (.anyCount ["X"]) .sum (lexemes ts ++ more) tree)) := by
  intro ts fault
  have h : parse ["X"] ts = .error fault := by with_unfolding_all rfl
  exact ⟨h, rfl, viable_of_parse h rfl⟩

end PhasePortrait.Formula
