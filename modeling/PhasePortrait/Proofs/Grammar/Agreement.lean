import PhasePortrait.Proofs.Grammar.Rules
import PhasePortrait.Proofs.Lexer.Scan

/-!
# The rules and the parser agree

The rules before parsing reject no formula, except for a minus sign that is doubled without a gap
(`check_of_parse`). Taken together they leave open only what no rule looks at: operands in a row,
the places of commas, and how many arguments a call has (`parse_of_check`). Whatever else a formula
needs, they have checked.

## Main definitions

* `DoubledMinus ts` — two minus signs stand side by side in the text.
* `NoJuxtaposition ts` — no operand follows another one without an operator.
* `CommasSeparate ts` — every comma stands between two arguments of a call.
-/
namespace PhasePortrait.Formula

/-! ## What is well formed passes -/

theorem emptyParenthesesAt_of_expects {a b : Token}
    (h : (modeAfter (some a)).expects (some b.lexeme)) : emptyParenthesesAt (a, b) = none := by
  obtain ⟨l, p⟩ := a
  obtain ⟨l', q⟩ := b
  cases l with
  | leftParen => cases l' <;> first | rfl | cases h
  | _ => rfl

theorem leadingAt_of_expects {o : Option Token} {t : Token}
    (h : (modeAfter o).expects (some t.lexeme)) : leadingAt (o, t) = none := by
  obtain ⟨l, p⟩ := t
  cases l with
  | operator o' =>
      rcases o with _ | ⟨l', q⟩
      · cases o' <;> first | rfl | cases h
      · cases l' <;> cases o' <;> first | rfl | cases h
  | _ => rfl

theorem trailingAt_of_expects {t : Token} {o : Option Token}
    (h : (modeAfter (some t)).expects (o.map Token.lexeme)) : trailingAt (t, o) = none := by
  obtain ⟨l, p⟩ := t
  cases l with
  | operator o' =>
      rcases o with _ | ⟨l', q⟩
      · cases h
      · cases l' <;> first | rfl | (cases o' <;> cases h)
  | _ => rfl

theorem consecutiveAt_of_expects {a b : Token}
    (h : (modeAfter (some a)).expects (some b.lexeme)) : consecutiveAt (a, b) = none := by
  obtain ⟨l, p⟩ := a
  obtain ⟨l', q⟩ := b
  cases l with
  | operator o =>
      cases l' with
      | operator o' => cases o <;> cases o' <;> first | rfl | cases h
      | _ => rfl
  | _ => rfl

theorem doubledAt_of_expects {a b : Token} {fault : Fault}
    (h : (modeAfter (some a)).expects (some b.lexeme)) (hfault : doubledAt (a, b) = some fault) :
    ∃ p, a = ⟨.operator .sub, p⟩ ∧ b = ⟨.operator .sub, p + 1⟩ ∧
      fault = .doubledOperator .sub p := by
  obtain ⟨l, p⟩ := a
  obtain ⟨l', q⟩ := b
  cases l with
  | operator o =>
      cases l' with
      | operator o' =>
          simp only [doubledAt] at hfault
          split at hfault
          · next heq =>
            obtain ⟨rfl, rfl⟩ := heq
            cases hfault
            cases o with
            | sub => exact ⟨p, rfl, rfl, rfl⟩
            | _ => cases h
          · cases hfault
      | _ => cases hfault
  | _ => cases hfault

variable {g : Grammar}

/-- The rules on shape that a formula can break are the length and the doubled minus sign. -/
theorem WellFormed.shapeFault_eq {ts : List Token} (h : WellFormed g ts)
    (hlength : ts.length ≤ maxTokens) : shapeFault ts = (neighbours ts).findSome? doubledAt := by
  have hempty : parenthesesFault ts = none := by
    simp only [parenthesesFault, Option.orElse_eq_orElse, Option.orElse_eq_or,
      Option.or_eq_none_iff, List.findSome?_eq_none_iff, Prod.forall, mem_neighbours]
    exact ⟨h.balanced, fun a b hseam => emptyParenthesesAt_of_expects (h.placed _ _ hseam)⟩
  have hleading : ((none :: ts.map some).zip ts).findSome? leadingAt = none := by
    simp only [List.findSome?_eq_none_iff, Prod.forall, mem_zip_previous]
    exact fun o t hseam => leadingAt_of_expects (h.placed _ _ hseam)
  have htrailing : (ts.zip (ts.tail.map some ++ [none])).findSome? trailingAt = none := by
    simp only [List.findSome?_eq_none_iff, Prod.forall, mem_zip_next]
    exact fun t o hseam => trailingAt_of_expects (h.placed _ _ hseam)
  have hconsecutive : (neighbours ts).findSome? consecutiveAt = none := by
    simp only [List.findSome?_eq_none_iff, Prod.forall, mem_neighbours]
    exact fun a b hseam => consecutiveAt_of_expects (h.placed _ _ hseam)
  rw [shapeFault, lengthFault, if_neg (Nat.not_lt.mpr hlength), hempty, operatorsFault, hleading,
    htrailing, hconsecutive]
  simp

/-- Two minus signs without a gap. -/
def DoubledMinus (ts : List Token) : Prop :=
  ∃ p, ⟨.operator .sub, p⟩ ∈ ts ∧ ⟨.operator .sub, p + 1⟩ ∈ ts

/-- Tokens without a gap stand next to each other in the list. -/
theorem seam_of_position {ts : List Token} (h : ts.Pairwise (·.position < ·.position)) {a b : Token}
    (ha : a ∈ ts) (hb : b ∈ ts) (hab : b.position = a.position + 1) :
    Seam ts (some a) (some b) := by
  obtain ⟨before, after, rfl⟩ := List.append_of_mem ha
  obtain ⟨-, hafter, hbefore⟩ := List.pairwise_append.mp h
  rcases List.mem_append.mp hb with hb | hb
  · have := hbefore b hb a List.mem_cons_self
    omega
  · rcases List.mem_cons.mp hb with rfl | hb
    · omega
    · cases after with
      | nil => cases hb
      | cons u rest =>
          obtain ⟨hau, hrest⟩ := List.pairwise_cons.mp hafter
          rcases List.mem_cons.mp hb with rfl | hb
          · exact ⟨before ++ [a], b :: rest, by simp, List.getLast?_concat, rfl⟩
          · have := hau u List.mem_cons_self
            have := List.rel_of_pairwise_cons hrest hb
            omega

theorem doubledMinus_iff {ts : List Token} (h : ts.Pairwise (·.position < ·.position)) :
    DoubledMinus ts ↔
      ∃ p, Seam ts (some ⟨.operator .sub, p⟩) (some ⟨.operator .sub, p + 1⟩) := by
  refine exists_congr fun p => ⟨fun ⟨ha, hb⟩ => seam_of_position h ha hb rfl, fun hseam => ?_⟩
  have hmem := mem_neighbours.mpr hseam
  exact ⟨(List.of_mem_zip hmem).1, List.mem_of_mem_tail (List.of_mem_zip hmem).2⟩

theorem WellFormed.ne_nil {ts : List Token} (h : WellFormed g ts) : ts ≠ [] := by
  rintro rfl
  exact nomatch h.placed none none ⟨[], [], rfl, rfl, rfl⟩

theorem isBlankText_iff {text : String} {ts : List Token} (h : tokenize text = .ok ts) :
    Text.isBlankText text ↔ ts = [] :=
  ((tokenize_eq_ok_iff.mp h).2.eq_nil_iff).symm

section
variable {text : String} {s : Scope} {ts : List Token} {t : Tree String}

theorem check_eq_of_parse (htokens : tokenize text = .ok ts) (hlength : ts.length ≤ maxTokens)
    (hscope : scopeFault s = none) (hparse : parse s.names ts = .ok t) :
    check text s = match (neighbours ts).findSome? doubledAt with
      | some fault => .error fault
      | none => .ok ts := by
  have hformed := (exists_parseAll_iff ts).mp ⟨t, hparse⟩
  have hblank : Text.isBlankText text = false := by
    simpa [← isBlankText_iff htokens] using hformed.ne_nil
  rw [check_eq hblank htokens, hformed.shapeFault_eq hlength, hscope,
    wordsFault_eq_none_iff.mpr hformed.known]
  cases (neighbours ts).findSome? doubledAt <;> rfl

theorem check_eq_ok_of_parse (htokens : tokenize text = .ok ts) (hlength : ts.length ≤ maxTokens)
    (hscope : scopeFault s = none) (hparse : parse s.names ts = .ok t) (hminus : ¬DoubledMinus ts) :
    check text s = .ok ts := by
  have hformed := (exists_parseAll_iff ts).mp ⟨t, hparse⟩
  have hnone : (neighbours ts).findSome? doubledAt = none := by
    refine List.findSome?_eq_none_iff.mpr fun ⟨a, b⟩ hmem => ?_
    have hseam := mem_neighbours.mp hmem
    cases hfault : doubledAt (a, b) with
    | none => rfl
    | some fault =>
        obtain ⟨p, rfl, rfl, -⟩ := doubledAt_of_expects (hformed.placed _ _ hseam) hfault
        have hincreasing := (tokenize_eq_ok_iff.mp htokens).2.pairwise
        exact (hminus ((doubledMinus_iff hincreasing).mpr ⟨p, hseam⟩)).elim
  rw [check_eq_of_parse htokens hlength hscope hparse, hnone]

/-- **No formula is refused before parsing, except for a written `--`.** -/
theorem check_of_parse (htokens : tokenize text = .ok ts) (hlength : ts.length ≤ maxTokens)
    (hscope : scopeFault s = none) (hparse : parse s.names ts = .ok t) :
    (DoubledMinus ts → ∃ fault, check text s = .error fault ∧ fault.kind = .doubleOperator ∧
      fault.token? = some "--") ∧ (¬DoubledMinus ts → check text s = .ok ts) := by
  refine ⟨fun hminus => ?_, check_eq_ok_of_parse htokens hlength hscope hparse⟩
  have hformed := (exists_parseAll_iff ts).mp ⟨t, hparse⟩
  obtain ⟨p, hseam⟩ := (doubledMinus_iff (tokenize_eq_ok_iff.mp htokens).2.pairwise).mp hminus
  cases hfault : (neighbours ts).findSome? doubledAt with
  | none =>
      have := List.findSome?_eq_none_iff.mp hfault _ (mem_neighbours.mpr hseam)
      simp [doubledAt] at this
  | some fault =>
      obtain ⟨⟨a, b⟩, hmem, hab⟩ := List.exists_of_findSome?_eq_some hfault
      obtain ⟨q, -, -, rfl⟩ :=
        doubledAt_of_expects (hformed.placed _ _ (mem_neighbours.mp hmem)) hab
      have htoken : some (Operator.sub.text ++ Operator.sub.text) = some "--" := by decide
      refine ⟨.doubledOperator .sub q, ?_, rfl, htoken⟩
      rw [check_eq_of_parse htokens hlength hscope hparse, hfault]

theorem check_of_parse_minus :
    (∃ fault, check "X--Y" .planar = .error fault ∧ fault.kind = .doubleOperator ∧
      fault.token? = some "--") ∧ ∃ ts, check "X- -Y" .planar = .ok ts := by
  have hscope : scopeFault .planar = none := by decide +kernel
  have hclose : tokenize "X--Y" = .ok [⟨.name "X", 0⟩, ⟨.operator .sub, 1⟩, ⟨.operator .sub, 2⟩,
    ⟨.name "Y", 3⟩] := by decide +kernel
  have happart : tokenize "X- -Y" = .ok [⟨.name "X", 0⟩, ⟨.operator .sub, 1⟩, ⟨.operator .sub, 3⟩,
    ⟨.name "Y", 4⟩] := by decide +kernel
  have hparse (p : Nat) : parse Scope.planar.names [⟨.name "X", 0⟩, ⟨.operator .sub, 1⟩,
      ⟨.operator .sub, p⟩, ⟨.name "Y", p + 1⟩] =
        .ok (.binary .sub (.symbol "X") (.negate (.symbol "Y"))) := by cbv
  refine ⟨(check_of_parse hclose (by decide) hscope (hparse 2)).1 ⟨1, by decide, by decide⟩, _,
    (check_of_parse happart (by decide) hscope (hparse 3)).2 ?_⟩
  rintro ⟨p, hp, hq⟩
  simp at hp hq
  omega

end

/-! ## What passes, and what is left to the parser -/

/-- No operand follows another one without an operator; a word and its parenthesis are a call. -/
def NoJuxtaposition (ts : List Token) : Prop :=
  ∀ a b, (a, b) ∈ neighbours ts → a.lexeme.endsOperand → b.lexeme.startsOperand →
    (∃ name, a.lexeme = .name name) ∧ b.lexeme = .leftParen

/-- Every comma stands directly in the parentheses of a call, after an operand and before another
one or its sign. -/
def CommasSeparate (ts : List Token) : Prop :=
  ∀ before p after, ts = before ++ ⟨.comma, p⟩ :: after → InCall before ∧
    (∃ t ∈ before.getLast?, t.lexeme.endsOperand) ∧
    ∃ t ∈ after.head?, t.lexeme.startsOperand ∨ t.lexeme = .operator .sub

theorem WellFormed.noJuxtaposition {ts : List Token} (h : WellFormed g ts) :
    NoJuxtaposition ts := by
  rintro ⟨l, p⟩ b hmem ha hb
  have hexpects := h.placed _ _ (mem_neighbours.mp hmem)
  cases l <;> simp_all [modeAfter, Mode.expects, Lexeme.endsOperand]

theorem exists_of_expects_comma {o : Option Token}
    (h : (modeAfter o).expects (some .comma)) : ∃ t ∈ o, t.lexeme.endsOperand := by
  rcases o with _ | ⟨l, p⟩
  · cases h
  · cases l <;>
      simp_all [modeAfter, Mode.expects, Lexeme.startsOperand, Lexeme.endsOperand]

theorem exists_of_comma_expects {p : Nat} {o : Option Token}
    (h : (modeAfter (some ⟨.comma, p⟩)).expects (o.map Token.lexeme)) :
    ∃ t ∈ o, t.lexeme.startsOperand ∨ t.lexeme = .operator .sub := by
  cases o with
  | none => cases h
  | some t => simpa [modeAfter, Mode.expects] using h

theorem WellFormed.commasSeparate {ts : List Token} (h : WellFormed g ts) : CommasSeparate ts := by
  intro before p after hts
  refine ⟨h.commas before p after hts, ?_, ?_⟩
  · exact exists_of_expects_comma (h.placed _ _ ⟨before, ⟨.comma, p⟩ :: after, hts, rfl, rfl⟩)
  · refine exists_of_comma_expects (p := p)
      (h.placed _ _ ⟨before ++ [⟨.comma, p⟩], after, ?_, ?_, rfl⟩)
    · rw [hts, List.append_assoc, List.singleton_append]
    · exact List.getLast?_concat

theorem CommasSeparate.before_comma {ts : List Token} (h : CommasSeparate ts) {o : Option Token}
    {p : Nat} (hseam : Seam ts o (some ⟨.comma, p⟩)) : ∃ t ∈ o, t.lexeme.endsOperand := by
  obtain ⟨before, after, rfl, rfl, hhead⟩ := hseam
  obtain ⟨after, rfl⟩ := List.head?_eq_some_iff.mp hhead
  exact (h before p after rfl).2.1

theorem CommasSeparate.after_comma {ts : List Token} (h : CommasSeparate ts) {o : Option Token}
    {p : Nat} (hseam : Seam ts (some ⟨.comma, p⟩) o) :
    ∃ t ∈ o, t.lexeme.startsOperand ∨ t.lexeme = .operator .sub := by
  obtain ⟨before, after, rfl, hlast, rfl⟩ := hseam
  obtain ⟨before, rfl⟩ := List.getLast?_eq_some_iff.mp hlast
  exact (h before p after (by simp)).2.2

/-- A parenthesis that closes nothing cannot come first. -/
theorem not_seam_rightParen {ts : List Token} (h : Balanced ts) (p : Nat) :
    ¬Seam ts none (some ⟨.rightParen, p⟩) := by
  rintro ⟨before, after, rfl, hlast, hhead⟩
  obtain rfl := List.getLast?_eq_none_iff.mp hlast
  obtain ⟨after, rfl⟩ := List.head?_eq_some_iff.mp hhead
  cases h

/-- A parenthesis that opens cannot come last. -/
theorem not_seam_leftParen {ts : List Token} (h : Balanced ts) (p : Nat) :
    ¬Seam ts (some ⟨.leftParen, p⟩) none := by
  rintro ⟨before, after, rfl, hlast, hhead⟩
  obtain ⟨before, rfl⟩ := List.getLast?_eq_some_iff.mp hlast
  obtain rfl := List.head?_eq_none_iff.mp hhead
  rw [List.append_nil] at h
  exact balanceFault_concat_leftParen 0 before p h

section
variable {ts : List Token} (hshape : shapeFault ts = none) (hcommas : CommasSeparate ts)
include hshape hcommas

theorem expects_first {b : Token} (hseam : Seam ts none (some b)) :
    (modeAfter none).expects (some b.lexeme) := by
  obtain ⟨-, hbalanced, -, -, hleading, -, -⟩ := shapeFault_eq_none_iff.mp hshape
  obtain ⟨l, p⟩ := b
  cases l with
  | comma =>
      obtain ⟨t, ht, -⟩ := hcommas.before_comma hseam
      cases ht
  | rightParen => exact (not_seam_rightParen hbalanced p hseam).elim
  | operator o =>
      have := hleading none ⟨.operator o, p⟩ hseam
      cases o <;> simp_all [leadingAt, modeAfter, Mode.expects]
  | _ => rfl

theorem expects_last {a : Token} (hseam : Seam ts (some a) none) :
    (modeAfter (some a)).expects none := by
  obtain ⟨-, hbalanced, -, -, -, htrailing, -⟩ := shapeFault_eq_none_iff.mp hshape
  obtain ⟨l, p⟩ := a
  cases l with
  | comma =>
      obtain ⟨t, ht, -⟩ := hcommas.after_comma hseam
      cases ht
  | leftParen => exact (not_seam_leftParen hbalanced p hseam).elim
  | operator o => exact nomatch htrailing ⟨.operator o, p⟩ none hseam
  | _ => rfl

theorem expects_between {a b : Token} (hoperands : NoJuxtaposition ts)
    (hseam : Seam ts (some a) (some b)) : (modeAfter (some a)).expects (some b.lexeme) := by
  obtain ⟨-, -, hempty, -, hleading, htrailing, hconsecutive⟩ := shapeFault_eq_none_iff.mp hshape
  specialize hempty a b hseam
  specialize hleading (some a) b hseam
  specialize htrailing a (some b) hseam
  specialize hconsecutive a b hseam
  specialize hoperands a b (mem_neighbours.mpr hseam)
  obtain ⟨l, p⟩ := a
  obtain ⟨l', q⟩ := b
  cases l with
  | comma =>
      obtain ⟨_, ⟨⟩, ht⟩ := hcommas.after_comma hseam
      simpa [modeAfter, Mode.expects] using ht
  | leftParen =>
      cases l' with
      | comma =>
          obtain ⟨_, ⟨⟩, ht⟩ := hcommas.before_comma hseam
          cases ht
      | rightParen => cases hempty
      | operator o' => cases o' <;> simp_all [leadingAt, modeAfter, Mode.expects]
      | _ => rfl
  | operator o =>
      cases l' with
      | comma => cases htrailing
      | rightParen => cases htrailing
      | operator o' => cases o <;> cases o' <;> simp_all [consecutiveAt, modeAfter, Mode.expects]
      | _ => simp [modeAfter, Mode.expects, Lexeme.startsOperand]
  | name name =>
      by_cases hl : l'.startsOperand
      · obtain ⟨-, rfl⟩ := hoperands rfl hl
        rfl
      · simp [modeAfter, Mode.expects, hl]
  | _ => simp_all [modeAfter, Mode.expects, Lexeme.endsOperand]

end

/-- What the rules leave open about neighbours. -/
theorem wellPlaced_of_rules {ts : List Token} (hne : ts ≠ []) (hshape : shapeFault ts = none)
    (hoperands : NoJuxtaposition ts) (hcommas : CommasSeparate ts) : WellPlaced ts := by
  intro previous next hseam
  cases previous with
  | none =>
      cases next with
      | none =>
          obtain ⟨before, after, rfl, hlast, hhead⟩ := hseam
          simp_all
      | some b => exact expects_first hshape hcommas hseam
  | some a =>
      cases next with
      | none => exact expects_last hshape hcommas hseam
      | some b => exact expects_between hshape hcommas hoperands hseam

/-- **What passes is a formula exactly if no operands stand side by side, commas separate the
arguments of calls, and calls have as many arguments as their functions admit.** If it is none, the
parser complains of its form or of a number of arguments, and never of a word. -/
theorem parse_of_check {text : String} {s : Scope} {ts : List Token} (h : check text s = .ok ts) :
    ((∃ t, parse s.names ts = .ok t) ↔
      NoJuxtaposition ts ∧ CommasSeparate ts ∧ CountsAdmitted (.ofNames s.names) ts) ∧
    ∀ fault, parse s.names ts = .error fault →
      fault.kind = .syntaxError ∨ fault.kind = .arity := by
  obtain ⟨hblank, htokens, hshape, -, hwords⟩ := check_eq_ok_iff.mp h
  have hknown := wordsFault_eq_none_iff.mp hwords
  refine ⟨(exists_parseAll_iff ts).trans ⟨fun hformed => ?_, ?_⟩,
    fun fault => kind_of_parseAll hknown⟩
  · exact ⟨hformed.noJuxtaposition, hformed.commasSeparate, hformed.counts⟩
  · rintro ⟨hoperands, hcommas, hcounts⟩
    have hne : ts ≠ [] := by
      rw [Ne, ← isBlankText_iff htokens, hblank]
      exact nofun
    exact ⟨wellPlaced_of_rules hne hshape hoperands hcommas, hknown,
      (shapeFault_eq_none_iff.mp hshape).2.1,
      fun before p after hts => (hcommas before p after hts).1, hcounts⟩

theorem parse_of_check_max :
    ∃ ts, check "max(X,-Y)" .planar = .ok ts ∧
      ((∃ t, parse Scope.planar.names ts = .ok t) ↔
        NoJuxtaposition ts ∧ CommasSeparate ts ∧
          CountsAdmitted (.ofNames Scope.planar.names) ts) := by
  have h : check "max(X,-Y)" .planar = .ok [⟨.name "max", 0⟩, ⟨.leftParen, 3⟩, ⟨.name "X", 4⟩,
    ⟨.comma, 5⟩, ⟨.operator .sub, 6⟩, ⟨.name "Y", 7⟩, ⟨.rightParen, 8⟩] := by decide +kernel
  exact ⟨_, h, (parse_of_check h).1⟩

end PhasePortrait.Formula
