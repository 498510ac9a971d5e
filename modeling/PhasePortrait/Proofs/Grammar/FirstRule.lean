import PhasePortrait.Proofs.Grammar.Rules
import PhasePortrait.Proofs.Lexer.Strays

/-!
# The first rule that is broken

A text can break many rules at once, and one fault is reported. `Rule.Broken` says of each rule by
itself what breaks it, on the characters, the tokens or the declared names, without the scans that
look for it. The fault that is reported belongs to the first broken rule in the order of the checks
(`first_broken_of_check`). This is the order in which the rules are numbered, except that the
declared names and functions without a call are looked at before the calls of unknown functions.

## Main definitions

* `Rule.Broken text s r` — the text `text`, read over the scope `s`, breaks the rule `r`.
* `Reports broken rs o` — the report `o` is about the first rule of `rs` that is broken.
-/
namespace PhasePortrait

/-- The rules before parsing, apart from those on dots and on the length. -/
inductive Rule where
  | empty | invalidCharacter | mismatchedParentheses | emptyParentheses | doubleOperator
  | leadingOperator | trailingOperator | consecutiveOperators | declaredName | bareFunction
  | unknownFunction | lowercaseVariable | unknownVariable | undeclaredParameter
deriving DecidableEq, Repr

namespace Rule

/-- The order in which a formula is held against the rules. -/
def order : List Rule :=
  [empty, invalidCharacter, mismatchedParentheses, emptyParentheses, doubleOperator,
    leadingOperator, trailingOperator, consecutiveOperators, declaredName, bareFunction,
    unknownFunction, lowercaseVariable, unknownVariable, undeclaredParameter]

/-- The number of a rule. All that is said about names without a call is one rule, the last. -/
def number : Rule → Nat
  | empty => 1
  | invalidCharacter => 2
  | mismatchedParentheses => 3
  | emptyParentheses => 4
  | doubleOperator => 5
  | leadingOperator => 6
  | trailingOperator => 7
  | consecutiveOperators => 8
  | unknownFunction => 9
  | declaredName | bareFunction | lowercaseVariable | unknownVariable | undeclaredParameter => 10

theorem mem_order (r : Rule) : r ∈ order := by cases r <;> decide

theorem number_le_of_idxOf_le {r r' : Rule} (h : order.idxOf r ≤ order.idxOf r') :
    r.number ≤ r'.number ∨ r' = unknownFunction ∧ (r = declaredName ∨ r = bareFunction) := by
  have hall : ∀ r ∈ order, ∀ r' ∈ order, order.idxOf r ≤ order.idxOf r' →
      r.number ≤ r'.number ∨ r' = unknownFunction ∧ (r = declaredName ∨ r = bareFunction) := by
    decide
  exact hall r (mem_order r) r' (mem_order r') h

def kind : Rule → FaultKind
  | empty => .empty
  | invalidCharacter => .invalidCharacter
  | mismatchedParentheses => .mismatchedParentheses
  | emptyParentheses => .emptyParentheses
  | doubleOperator => .doubleOperator
  | leadingOperator => .leadingOperator
  | trailingOperator => .trailingOperator
  | consecutiveOperators => .consecutiveOperators
  | declaredName => .nameCollision
  | bareFunction => .syntaxError
  | unknownFunction => .unknownFunction
  | lowercaseVariable => .lowercaseVariable
  | unknownVariable => .unknownVariable
  | undeclaredParameter => .undeclaredParameter

end Rule

/-- The rule that a fault is about. -/
def Fault.rule? : Fault → Option Rule
  | empty => some .empty
  | invalidCharacters .. => some .invalidCharacter
  | unmatchedRight _ | unmatchedLeft _ => some .mismatchedParentheses
  | emptyParentheses _ => some .emptyParentheses
  | doubledOperator .. => some .doubleOperator
  | leadingOperator .. => some .leadingOperator
  | trailingOperator .. => some .trailingOperator
  | consecutiveOperators .. => some .consecutiveOperators
  | notIdentifier .. | functionName _ | stateVariableName _ => some .declaredName
  | bareFunction .. => some .bareFunction
  | unknownFunctions .. => some .unknownFunction
  | lowercaseVariables .. => some .lowercaseVariable
  | unknownVariables .. | foreignVariables .. => some .unknownVariable
  | undeclaredParameters .. => some .undeclaredParameter
  | _ => none

theorem Fault.kind_eq_of_rule? {fault : Fault} {r : Rule} (h : fault.rule? = some r) :
    fault.kind = r.kind := by
  cases fault <;> cases h <;> rfl

namespace Formula

/-! ## What breaks a rule -/

/-- A word that is not called and is neither declared nor a constant. -/
def Loose (s : Scope) (ts : List Token) (name : String) : Prop :=
  ∃ p next, Seam ts (some ⟨.name name, p⟩) next ∧ next.map Token.lexeme ≠ some .leftParen ∧
    name ∉ s.names ∧ Constant.ofName? name = none

/-- A loose word that is no function either. -/
def Unknown (s : Scope) (ts : List Token) (name : String) : Prop :=
  Loose s ts name ∧ Function.ofName? name = none

end Formula
open Formula

/-- What breaks the rules on tokens. -/
def Rule.BrokenBy (s : Scope) (ts : List Token) : Rule → Prop
  | mismatchedParentheses =>
    (∃ before, before <+: ts ∧
      (lexemes before).count .leftParen < (lexemes before).count .rightParen) ∨
    (lexemes ts).count .leftParen ≠ (lexemes ts).count .rightParen
  | emptyParentheses => ∃ a b, Seam ts (some a) (some b) ∧
      a.lexeme = .leftParen ∧ b.lexeme = .rightParen
  | doubleOperator => ∃ a b o, Seam ts (some a) (some b) ∧
      a.lexeme = .operator o ∧ b.lexeme = .operator o ∧ b.position = a.position + 1
  | leadingOperator => ∃ previous t o, Seam ts previous (some t) ∧
      t.lexeme = .operator o ∧ o ≠ .sub ∧
      ∀ u ∈ previous, u.lexeme = .leftParen ∨ u.lexeme = .comma
  | trailingOperator => ∃ t next o, Seam ts (some t) next ∧
      t.lexeme = .operator o ∧ ∀ u ∈ next, u.lexeme = .rightParen ∨ u.lexeme = .comma
  | consecutiveOperators => ∃ a b o o', Seam ts (some a) (some b) ∧
      a.lexeme = .operator o ∧ b.lexeme = .operator o' ∧ ¬(o' = .sub ∧ o ≠ .pow)
  | bareFunction => ∃ name, Loose s ts name ∧ (Function.ofName? name).isSome
  | unknownFunction => ∃ name p q, Seam ts (some ⟨.name name, p⟩) (some ⟨.leftParen, q⟩) ∧
      Function.ofName? name = none
  | lowercaseVariable => s.parameters = none ∧ ∃ name, Unknown s ts name ∧ isLowercase name
  | unknownVariable => ∃ name, Unknown s ts name ∧ ¬isLowercase name
  | undeclaredParameter => s.parameters ≠ none ∧ ∃ name, Unknown s ts name ∧ isLowercase name
  | empty | invalidCharacter | declaredName => False

/-- What breaks a rule. -/
def Rule.Broken (text : String) (s : Scope) : Rule → Prop
  | empty => Text.isBlankText text
  | invalidCharacter => Strays text.toList
  | declaredName =>
    (∃ name ∈ s.names, ¬isIdentifier name ∨ (Function.ofName? name).isSome) ∨
    ∃ name ∈ s.parameters.getD [], name ∈ s.vars
  | r => ∃ ts, tokenize text = .ok ts ∧ r.BrokenBy s ts

/-! ## Checks one after the other -/

/-- Nothing is reported if none of these rules is broken, and otherwise a fault about the first one
that is, or about none of the rules. -/
def Reports (broken : Rule → Prop) (rs : List Rule) : Option Fault → Prop
  | none => ∀ r ∈ rs, ¬broken r
  | some fault => ∀ r, fault.rule? = some r →
    ∃ earlier later, rs = earlier ++ r :: later ∧ broken r ∧ ∀ r' ∈ earlier, ¬broken r'

namespace Reports
variable {broken : Rule → Prop} {rs rs' : List Rule} {o o' : Option Fault}

theorem orElse (h : Reports broken rs o)
    (h' : (∀ r ∈ rs, ¬broken r) → Reports broken rs' o') :
    Reports broken (rs ++ rs') (o <|> o') := by
  cases o with
  | some fault =>
    intro r hr
    obtain ⟨earlier, later, rfl, hbroken, hkept⟩ := h r hr
    exact ⟨earlier, later ++ rs', by simp, hbroken, hkept⟩
  | none =>
    specialize h' h
    cases o' with
    | none => exact List.forall_mem_append.mpr ⟨h, h'⟩
    | some fault =>
      intro r hr
      obtain ⟨earlier, later, rfl, hbroken, hkept⟩ := h' r hr
      exact ⟨rs ++ earlier, later, by simp, hbroken, List.forall_mem_append.mpr ⟨h, hkept⟩⟩

/-- A check of one rule. -/
theorem single {r : Rule} (hrule : ∀ fault, o = some fault → fault.rule? = some r)
    (hbroken : o = none ↔ ¬broken r) : Reports broken [r] o := by
  cases o with
  | none => simpa [Reports] using hbroken.mp rfl
  | some fault =>
    intro r' hr'
    obtain rfl : r = r' := Option.some.inj ((hrule fault rfl).symm.trans hr')
    exact ⟨[], [], rfl, by simpa using hbroken, List.forall_mem_nil _⟩

/-- A check of one rule, place by place. -/
theorem findSome {α : Type} {xs : List α} {f : α → Option Fault} {r : Rule}
    (hrule : ∀ x fault, f x = some fault → fault.rule? = some r)
    (hbroken : (∀ x ∈ xs, f x = none) ↔ ¬broken r) : Reports broken [r] (xs.findSome? f) := by
  refine single (fun fault hfault => ?_) (by rw [List.findSome?_eq_none_iff, hbroken])
  obtain ⟨x, -, hx⟩ := List.exists_of_findSome?_eq_some hfault
  exact hrule x fault hx

theorem congr {broken' : Rule → Prop} (h : Reports broken rs o)
    (hiff : ∀ r ∈ rs, broken' r ↔ broken r) : Reports broken' rs o := by
  cases o with
  | none => exact fun r hr => mt (hiff r hr).mp (h r hr)
  | some fault =>
    intro r hr
    obtain ⟨earlier, later, rfl, hbroken, hkept⟩ := h r hr
    refine ⟨earlier, later, rfl, (hiff r (by simp)).mpr hbroken, fun r' hr' => ?_⟩
    exact mt (hiff r' (List.mem_append_left _ hr')).mp (hkept r' hr')

end Reports

namespace Formula

/-! ## The rules on tokens -/

theorem forall_prefix_cons_iff {α : Type} {P : List α → Prop} {a : α} {as : List α} :
    (∀ bs, bs <+: a :: as → P bs) ↔ P [] ∧ ∀ bs, bs <+: as → P (a :: bs) := by
  constructor
  · exact fun h => ⟨h [] List.nil_prefix, fun bs hbs => h _ (List.cons_prefix_cons.mpr ⟨rfl, hbs⟩)⟩
  · rintro ⟨hnil, hcons⟩ bs hbs
    cases bs with
    | nil => exact hnil
    | cons b bs =>
      obtain ⟨rfl, htail⟩ := List.cons_prefix_cons.mp hbs
      exact hcons bs htail

/-- The depth never falls below zero, and comes back to it. -/
theorem balanceFault_eq_none_iff {depth : Nat} {ts : List Token} :
    balanceFault depth ts = none ↔
      (∀ before, before <+: ts →
        (lexemes before).count .rightParen ≤ depth + (lexemes before).count .leftParen) ∧
      (lexemes ts).count .rightParen = depth + (lexemes ts).count .leftParen := by
  induction ts generalizing depth with
  | nil => cases depth <;> simp [balanceFault, lexemes]
  | cons t ts ih =>
    obtain ⟨l, position⟩ := t
    rw [forall_prefix_cons_iff]
    simp only [lexemes_cons, lexemes_nil, List.count_cons, List.count_nil]
    cases l with
    | leftParen =>
      have hdepth (n : Nat) : depth + 1 + n = depth + (n + 1) := Nat.add_right_comm depth 1 n
      rw [balanceFault_leftParen, ih]
      simp [hdepth]
    | rightParen =>
      cases depth with
      | zero =>
        refine iff_of_false (Option.some_ne_none _) fun h => ?_
        have := h.1.2 [] List.nil_prefix
        simp [lexemes] at this
      | succ depth =>
        rw [balanceFault_rightParen, ih]
        simp [Nat.add_right_comm depth 1]
    | _ =>
      rw [balanceFault_plain _ (by simp [Plain]), ih]
      simp

theorem rule?_of_balanceFault {depth : Nat} {ts : List Token} {fault : Fault}
    (h : balanceFault depth ts = some fault) : fault.rule? = some .mismatchedParentheses := by
  induction ts generalizing depth with
  | nil =>
    cases depth <;> cases h
    rfl
  | cons t ts ih =>
    obtain ⟨l, position⟩ := t
    cases l with
    | leftParen =>
      rw [balanceFault_leftParen] at h
      exact ih h
    | rightParen =>
      cases depth with
      | zero =>
        cases h
        rfl
      | succ depth =>
        rw [balanceFault_rightParen] at h
        exact ih h
    | _ =>
      rw [balanceFault_plain _ (by simp [Plain])] at h
      exact ih h

theorem emptyParenthesesAt_eq_none_iff {a b : Token} :
    emptyParenthesesAt (a, b) = none ↔ ¬(a.lexeme = .leftParen ∧ b.lexeme = .rightParen) := by
  obtain ⟨l, p⟩ := a
  obtain ⟨l', q⟩ := b
  cases l <;> cases l' <;> simp [emptyParenthesesAt]

theorem doubledAt_eq_none_iff {a b : Token} :
    doubledAt (a, b) = none ↔
      ¬∃ o, a.lexeme = .operator o ∧ b.lexeme = .operator o ∧ b.position = a.position + 1 := by
  obtain ⟨l, p⟩ := a
  obtain ⟨l', q⟩ := b
  cases l <;> cases l' <;> simp [doubledAt]
  grind

theorem leadingAt_eq_none_iff {previous : Option Token} {t : Token} :
    leadingAt (previous, t) = none ↔ ¬∃ o, t.lexeme = .operator o ∧ o ≠ .sub ∧
      ∀ u ∈ previous, u.lexeme = .leftParen ∨ u.lexeme = .comma := by
  obtain ⟨l, p⟩ := t
  cases l <;> cases previous <;> simp [leadingAt]

theorem trailingAt_eq_none_iff {t : Token} {next : Option Token} :
    trailingAt (t, next) = none ↔ ¬∃ o, t.lexeme = .operator o ∧
      ∀ u ∈ next, u.lexeme = .rightParen ∨ u.lexeme = .comma := by
  obtain ⟨l, p⟩ := t
  cases l <;> cases next <;> simp [trailingAt]

theorem consecutiveAt_eq_none_iff {a b : Token} :
    consecutiveAt (a, b) = none ↔ ¬∃ o o', a.lexeme = .operator o ∧ b.lexeme = .operator o' ∧
      ¬(o' = .sub ∧ o ≠ .pow) := by
  obtain ⟨l, p⟩ := a
  obtain ⟨l', q⟩ := b
  cases l <;> cases l' <;> simp [consecutiveAt]

section
variable (s : Scope) (ts : List Token)

theorem reports_balance :
    Reports (Rule.BrokenBy s ts) [.mismatchedParentheses] (balanceFault 0 ts) := by
  refine .single (fun fault => rule?_of_balanceFault) ?_
  rw [balanceFault_eq_none_iff, Rule.BrokenBy, not_or, not_exists]
  simp only [not_and, Nat.not_lt, Nat.zero_add, ne_eq, not_not]
  exact and_congr_right fun _ => eq_comm

theorem reports_emptyParentheses :
    Reports (Rule.BrokenBy s ts) [.emptyParentheses]
      ((neighbours ts).findSome? emptyParenthesesAt) := by
  refine .findSome (fun x fault h => ?_) ?_
  · unfold emptyParenthesesAt at h
    split at h <;> cases h
    rfl
  · simp only [Prod.forall, mem_neighbours, emptyParenthesesAt_eq_none_iff, Rule.BrokenBy,
      not_exists, not_and]

theorem reports_doubled :
    Reports (Rule.BrokenBy s ts) [.doubleOperator] ((neighbours ts).findSome? doubledAt) := by
  refine .findSome (fun x fault h => ?_) ?_
  · unfold doubledAt at h
    split at h
    · split at h <;> cases h
      rfl
    · cases h
  · simp only [Prod.forall, mem_neighbours, doubledAt_eq_none_iff, Rule.BrokenBy]
    simp

theorem reports_leading :
    Reports (Rule.BrokenBy s ts) [.leadingOperator]
      (((none :: ts.map some).zip ts).findSome? leadingAt) := by
  refine .findSome (fun x fault h => ?_) ?_
  · unfold leadingAt at h
    split at h
    · split at h <;> cases h
      rfl
    · cases h
  · simp only [Prod.forall, mem_zip_previous, leadingAt_eq_none_iff, Rule.BrokenBy]
    simp

theorem reports_trailing :
    Reports (Rule.BrokenBy s ts) [.trailingOperator]
      ((ts.zip (ts.tail.map some ++ [none])).findSome? trailingAt) := by
  refine .findSome (fun x fault h => ?_) ?_
  · unfold trailingAt at h
    split at h
    · split at h <;> cases h
      rfl
    · cases h
  · simp only [Prod.forall, mem_zip_next, trailingAt_eq_none_iff, Rule.BrokenBy]
    simp

theorem reports_consecutive :
    Reports (Rule.BrokenBy s ts) [.consecutiveOperators]
      ((neighbours ts).findSome? consecutiveAt) := by
  refine .findSome (fun x fault h => ?_) ?_
  · unfold consecutiveAt at h
    split at h
    · split at h <;> cases h
      rfl
    · cases h
  · simp only [Prod.forall, mem_neighbours, consecutiveAt_eq_none_iff, Rule.BrokenBy]
    simp

end

/-! ## The rules on words -/

section
variable {s : Scope} {ts : List Token} {name : String}

theorem exists_called_iff :
    (∃ p, (name, p, true) ∈ words ts) ↔
      ∃ p q, Seam ts (some ⟨.name name, p⟩) (some ⟨.leftParen, q⟩) := by
  refine exists_congr fun p => mem_words.trans ⟨?_, fun ⟨q, hseam⟩ => ⟨_, hseam, rfl⟩⟩
  rintro ⟨_ | ⟨l, q⟩, hseam, hcalled⟩
  · cases hcalled
  · obtain rfl : l = .leftParen := by simpa using hcalled
    exact ⟨q, hseam⟩

theorem exists_looseWords_iff :
    (∃ p, (name, p) ∈ looseWords s.names ts) ↔ Loose s ts name := by
  have huncalled (next : Option Token) : next.any (·.lexeme = .leftParen) = false ↔
      next.map Token.lexeme ≠ some .leftParen := by
    cases next <;> simp
  have hword (p : Nat) : (name, p) ∈ looseWords s.names ts ↔
      (name, p, false) ∈ words ts ∧ name ∉ s.names ∧ Constant.ofName? name = none := by
    simp only [looseWords, List.mem_filterMap, Prod.exists]
    constructor
    · rintro ⟨n, q, called, hmem, hsome⟩
      split at hsome
      · cases hsome
      · next hloose =>
        cases hsome
        simp_all
    · rintro ⟨hmem, hnames, hconstant⟩
      exact ⟨name, p, false, hmem, by simp [hnames, hconstant]⟩
  simp only [hword, mem_words, huncalled, Loose]
  grind

theorem reports_bareFunction :
    Reports (Rule.BrokenBy s ts) [.bareFunction]
      ((looseWords s.names ts).findSome? bareFunctionAt) := by
  refine .findSome (fun x fault h => ?_) ?_
  · unfold bareFunctionAt at h
    dsimp only at h
    split at h <;> cases h
    rfl
  · simp only [Prod.forall, Rule.BrokenBy, ← exists_looseWords_iff]
    simp [bareFunctionAt]

theorem reports_unknownFunction :
    Reports (Rule.BrokenBy s ts) [.unknownFunction] (unknownCallsFault (unknownCalls ts)) := by
  refine .single (fun fault h => ?_) ?_
  · unfold unknownCallsFault at h
    split at h <;> cases h
    rfl
  · have hbroken : Rule.BrokenBy s ts .unknownFunction ↔
        ∃ name, (∃ p, (name, p, true) ∈ words ts) ∧ Function.ofName? name = none := by
      simp only [Rule.BrokenBy, exists_called_iff, exists_and_right]
    rw [unknownCallsFault_eq_none_iff, unknownCalls_eq_nil_iff, hbroken]
    simp [Option.isSome_iff_ne_none]

theorem reports_looseFault {names : List String}
    (hnames : ∀ name, name ∈ names ↔ Unknown s ts name) :
    Reports (Rule.BrokenBy s ts) [.lowercaseVariable, .unknownVariable, .undeclaredParameter]
      (looseFault s names) := by
  have hlowercase (first : String) : first ∈ names.filter isLowercase ↔
      Unknown s ts first ∧ isLowercase first := by
    rw [List.mem_filter, hnames]
  have hother (first : String) : first ∈ names.filter (!isLowercase ·) ↔
      Unknown s ts first ∧ ¬isLowercase first := by
    rw [List.mem_filter, hnames]
    simp
  unfold looseFault
  dsimp only
  generalize names.filter isLowercase = lowercase at *
  generalize names.filter (!isLowercase ·) = other at *
  have hnoLowercase : lowercase = [] → ¬∃ name, Unknown s ts name ∧ isLowercase name := by
    rintro rfl ⟨name, hname⟩
    exact List.not_mem_nil ((hlowercase name).mpr hname)
  have hnoOther : other = [] → ¬∃ name, Unknown s ts name ∧ ¬isLowercase name := by
    rintro rfl ⟨name, hname⟩
    exact List.not_mem_nil ((hother name).mpr hname)
  cases hparameters : s.parameters with
  | none =>
    cases lowercase with
    | cons first others =>
      rintro _ ⟨⟩
      have hfirst := (hlowercase first).mp List.mem_cons_self
      exact ⟨[], _, rfl, ⟨hparameters, first, hfirst⟩, List.forall_mem_nil _⟩
    | nil =>
      have hkept : ¬Rule.BrokenBy s ts .lowercaseVariable := fun h => hnoLowercase rfl h.2
      cases other with
      | cons first others =>
        rintro _ ⟨⟩
        have hfirst := (hother first).mp List.mem_cons_self
        exact ⟨[.lowercaseVariable], _, rfl, ⟨first, hfirst⟩, List.forall_mem_singleton.mpr hkept⟩
      | nil =>
        simpa [Reports] using ⟨hkept, hnoOther rfl, fun h => hnoLowercase rfl h.2⟩
  | some declared =>
    have hsome : s.parameters ≠ none := by
      rw [hparameters]
      exact Option.some_ne_none declared
    have hkept : ¬Rule.BrokenBy s ts .lowercaseVariable := fun h => hsome h.1
    cases other with
    | cons first others =>
      rintro _ ⟨⟩
      have hfirst := (hother first).mp List.mem_cons_self
      exact ⟨[.lowercaseVariable], _, rfl, ⟨first, hfirst⟩, List.forall_mem_singleton.mpr hkept⟩
    | nil =>
      cases lowercase with
      | cons first others =>
        rintro _ ⟨⟩
        have hfirst := (hlowercase first).mp List.mem_cons_self
        refine ⟨[.lowercaseVariable, .unknownVariable], _, rfl, ⟨hsome, first, hfirst⟩, ?_⟩
        exact List.forall_mem_cons.mpr ⟨hkept, List.forall_mem_singleton.mpr (hnoOther rfl)⟩
      | nil =>
        simpa [Reports] using ⟨hkept, hnoOther rfl, fun h => hnoLowercase rfl h.2⟩

theorem reports_loose (hfunction : ¬Rule.BrokenBy s ts .bareFunction) :
    Reports (Rule.BrokenBy s ts) [.lowercaseVariable, .unknownVariable, .undeclaredParameter]
      (looseFault s ((looseWords s.names ts).map Prod.fst).eraseDups) := by
  refine reports_looseFault fun name => ?_
  have hmem : name ∈ ((looseWords s.names ts).map Prod.fst).eraseDups ↔ Loose s ts name := by
    rw [List.mem_eraseDups, List.mem_map, ← exists_looseWords_iff]
    simp
  rw [hmem, Unknown, iff_self_and]
  intro hloose
  by_contra hname
  exact hfunction ⟨name, hloose, Option.isSome_iff_ne_none.mpr hname⟩

end

/-! ## All rules -/

section
variable {text : String} {s : Scope} {ts : List Token}

theorem reports_length : Reports (Rule.BrokenBy s ts) [] (lengthFault ts) := by
  rw [lengthFault]
  split
  · rintro _ ⟨⟩
  · exact List.forall_mem_nil _

theorem reports_shape :
    Reports (Rule.BrokenBy s ts) [.mismatchedParentheses, .emptyParentheses, .doubleOperator,
      .leadingOperator, .trailingOperator, .consecutiveOperators] (shapeFault ts) :=
  reports_length.orElse fun _ =>
    ((reports_balance s ts).orElse fun _ => reports_emptyParentheses s ts).orElse fun _ =>
    (reports_doubled s ts).orElse fun _ => (reports_leading s ts).orElse fun _ =>
    (reports_trailing s ts).orElse fun _ => reports_consecutive s ts

theorem reports_words :
    Reports (Rule.BrokenBy s ts) [.bareFunction, .unknownFunction, .lowercaseVariable,
      .unknownVariable, .undeclaredParameter] (wordsFault s ts) :=
  reports_bareFunction.orElse fun hfunction => reports_unknownFunction.orElse fun _ =>
    reports_loose (hfunction _ (List.mem_singleton_self _))

theorem declaredNameFault_eq_none_iff {name : String} :
    declaredNameFault name = none ↔
      ¬(¬isIdentifier name ∨ (Function.ofName? name).isSome) := by
  unfold declaredNameFault
  split
  · next h => simp_all
  · split
    · next h => simp_all
    · next h => simp_all

theorem reports_scope (text : String) (s : Scope) :
    Reports (Rule.Broken text s) [.declaredName] (scopeFault s) := by
  refine .single (fun fault h => ?_) ?_
  · rw [scopeFault, Option.orElse_eq_orElse, Option.orElse_eq_or, Option.or_eq_some_iff] at h
    rcases h with h | ⟨-, h⟩
    · obtain ⟨name, -, hname⟩ := List.exists_of_findSome?_eq_some h
      unfold declaredNameFault at hname
      split at hname
      · cases hname
        rfl
      · split at hname <;> cases hname
        rfl
    · obtain ⟨name, -, hname⟩ := List.exists_of_findSome?_eq_some h
      split at hname <;> cases hname
      rfl
  · rw [scopeFault, Option.orElse_eq_orElse, Option.orElse_eq_or, Option.or_eq_none_iff,
      List.findSome?_eq_none_iff, List.findSome?_eq_none_iff, Rule.Broken, not_or]
    simp [declaredNameFault_eq_none_iff]

/-- The rules on tokens are those that only tokens can break. -/
theorem broken_iff (htokens : tokenize text = .ok ts) {r : Rule}
    (hr : r ∉ [.empty, .invalidCharacter, .declaredName]) :
    r.Broken text s ↔ r.BrokenBy s ts := by
  have hunique (P : List Token → Prop) : (∃ us, tokenize text = .ok us ∧ P us) ↔ P ts := by
    simp [htokens]
  cases r <;> first | exact hunique _ | simp at hr

theorem reports_rules (htokens : tokenize text = .ok ts) :
    Reports (Rule.Broken text s) (Rule.order.drop 2)
      (shapeFault ts <|> scopeFault s <|> wordsFault s ts) := by
  refine .orElse (reports_shape.congr fun r hr => broken_iff htokens ?_) fun _ =>
    (reports_scope text s).orElse fun _ =>
    reports_words.congr fun r hr => broken_iff htokens ?_
  · revert r
    decide
  · revert r
    decide

/-- The fault of a refused text is about the first broken rule. -/
theorem reports_check {fault : Fault} (h : check text s = .error fault) :
    Reports (Rule.Broken text s) Rule.order (some fault) := by
  cases hblank : Text.isBlankText text with
  | true =>
    rw [check, checkShape, if_pos hblank] at h
    cases h
    rintro _ ⟨⟩
    exact ⟨[], _, rfl, hblank, List.forall_mem_nil _⟩
  | false =>
    have hempty : ¬Rule.Broken text s .empty := by
      rw [Rule.Broken, hblank]
      exact Bool.false_ne_true
    cases htokens : tokenize text with
    | error stray =>
      rw [check, checkShape, hblank, htokens] at h
      cases h
      rcases strays_of_tokenize htokens with ⟨q, rfl⟩ | ⟨⟨c, cs, q, rfl⟩, hstrays⟩
      · rintro _ ⟨⟩
      · rintro _ ⟨⟩
        exact ⟨[.empty], _, rfl, hstrays, List.forall_mem_singleton.mpr hempty⟩
    | ok ts =>
      have hcharacters : ¬Rule.Broken text s .invalidCharacter := not_strays_of_tokenize htokens
      have hfirst : Reports (Rule.Broken text s) [.empty, .invalidCharacter] none :=
        List.forall_mem_cons.mpr ⟨hempty, List.forall_mem_singleton.mpr hcharacters⟩
      have hall := hfirst.orElse fun _ => reports_rules (s := s) htokens
      rw [check_eq hblank htokens] at h
      cases hfault : shapeFault ts <|> scopeFault s <|> wordsFault s ts with
      | none =>
        rw [hfault] at h
        cases h
      | some _ =>
        rw [hfault] at h hall
        cases h
        exact hall

end

/-- **The fault that is reported is about the first rule that is broken.** No rule before it in the
order of the checks is. Of the rules with smaller numbers, only the one on unknown functions can be
broken, by a text that is refused for its declared names or for a function without a call. -/
theorem first_broken_of_check {text : String} {s : Scope} {fault : Fault} {r : Rule}
    (h : check text s = .error fault) (hr : fault.rule? = some r) :
    fault.kind = r.kind ∧
    (∃ earlier later, Rule.order = earlier ++ r :: later ∧ r.Broken text s ∧
      ∀ r' ∈ earlier, ¬r'.Broken text s) ∧
    ∀ r' : Rule, r'.Broken text s → r.number ≤ r'.number ∨
      r' = .unknownFunction ∧ (r = .declaredName ∨ r = .bareFunction) := by
  obtain ⟨earlier, later, horder, hbroken, hkept⟩ := reports_check h r hr
  refine ⟨fault.kind_eq_of_rule? hr, ⟨earlier, later, horder, hbroken, hkept⟩, fun r' hr' => ?_⟩
  refine Rule.number_le_of_idxOf_le ?_
  rw [horder, List.idxOf_append_of_notMem fun hmem => hkept r hmem hbroken,
    List.idxOf_append_of_notMem fun hmem => hkept r' hmem hr', List.idxOf_cons_self]
  exact Nat.le_add_right _ _

theorem first_broken_of_check_nested :
    ∃ fault, check "2*((X+)*y" .planar = .error fault ∧
      fault.rule? = some .mismatchedParentheses ∧ fault.kind = .mismatchedParentheses ∧
      (∃ earlier later, Rule.order = earlier ++ .mismatchedParentheses :: later ∧
        Rule.Broken "2*((X+)*y" .planar .mismatchedParentheses ∧
        ∀ r' ∈ earlier, ¬Rule.Broken "2*((X+)*y" .planar r') ∧
      ∀ r' : Rule, r'.Broken "2*((X+)*y" .planar → Rule.mismatchedParentheses.number ≤ r'.number ∨
        r' = .unknownFunction ∧ (Rule.mismatchedParentheses = .declaredName ∨
          Rule.mismatchedParentheses = .bareFunction) := by
  have h : check "2*((X+)*y" .planar = .error (.unmatchedLeft 1) := by decide +kernel
  exact ⟨_, h, rfl, first_broken_of_check h rfl⟩

/-- The rules are not applied in the order of their numbers: a function without a call is reported
before a call of an unknown function. -/
theorem unknown_function_passed_over :
    ¬∀ (text : String) (s : Scope) (fault : Fault) (r : Rule), check text s = .error fault →
      fault.rule? = some r → ∀ r' : Rule, r'.Broken text s → r.number ≤ r'.number := by
  intro h
  have hcheck : check "foo(X)+sin" .planar = .error (.bareFunction "sin" 7) := by decide +kernel
  have htokens : tokenize "foo(X)+sin" = .ok [⟨.name "foo", 0⟩, ⟨.leftParen, 3⟩, ⟨.name "X", 4⟩,
    ⟨.rightParen, 5⟩, ⟨.operator .add, 6⟩, ⟨.name "sin", 7⟩] := by decide +kernel
  have hbroken : Rule.Broken "foo(X)+sin" .planar .unknownFunction :=
    ⟨_, htokens, "foo", 0, 3, ⟨[⟨.name "foo", 0⟩], _, rfl, rfl, rfl⟩, by decide +kernel⟩
  exact absurd (h _ _ _ _ hcheck rfl _ hbroken) (by decide)

end Formula
end PhasePortrait
