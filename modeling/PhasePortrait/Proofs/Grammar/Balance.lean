import Mathlib.Combinatorics.Enumerative.DyckWord
import PhasePortrait.Proofs.Grammar.FirstRule

/-!
# Balance

The rule on parentheses keeps a counter and nothing else. What it decides is said here of the word
that the parentheses of a formula make up: whether it nests, and if not, which parenthesis is at
fault. The counter is tied to nesting by the shape of what has been passed (`LeavesOpen`): stretches
that nest, with an opening parenthesis between each two that nothing has closed. One more token
changes that shape as it changes the counter, so a run either keeps it to the end or stops at the
first closing parenthesis that has nothing to close (`leavesOpen_or_stray`).

## Main definitions

* `parentheses ts` — the parentheses of `ts`, a word over `U` and `D`.
* `Nested w` — the parentheses of `w` match, by recursion on pairs. Such words are Mathlib's Dyck
  words (`nested_iff`).
* `LeavesOpen n w` — nothing closes `n` of the parentheses of `w`, and the others match.
* `FirstStrayAt ts p` — at `p` stands the first closing parenthesis that closes nothing.
* `FirstEmptyPairAt ts p` — at `p` starts the first pair of parentheses with nothing in between.

## Main results

* `parenthesesFault_spec` — what the rule answers, for each answer.
-/
namespace PhasePortrait.Formula
open DyckStep

/-! ## Words that nest -/

/-- The parentheses of the tokens, `U` for one that opens and `D` for one that closes. -/
def parentheses (ts : List Token) : List DyckStep :=
  ts.filterMap fun t =>
    match t.lexeme with
    | .leftParen => some U
    | .rightParen => some D
    | _ => none

@[simp] theorem parentheses_nil : parentheses [] = [] := rfl

@[simp] theorem parentheses_append (ts us : List Token) :
    parentheses (ts ++ us) = parentheses ts ++ parentheses us :=
  List.filterMap_append

@[simp] theorem parentheses_leftParen (p : Nat) (ts : List Token) :
    parentheses (⟨.leftParen, p⟩ :: ts) = U :: parentheses ts := rfl

@[simp] theorem parentheses_rightParen (p : Nat) (ts : List Token) :
    parentheses (⟨.rightParen, p⟩ :: ts) = D :: parentheses ts := rfl

theorem parentheses_plain {t : Token} (h : Plain t.lexeme) (ts : List Token) :
    parentheses (t :: ts) = parentheses ts := by
  obtain ⟨l, p⟩ := t
  cases l with
  | leftParen => exact absurd rfl h.1
  | rightParen => exact absurd rfl h.2
  | _ => rfl

/-- The parentheses match: a word that nests is empty, or it is a pair around a word that nests,
followed by a word that nests. -/
inductive Nested : List DyckStep → Prop
  | nil : Nested []
  | pair {inner rest} : Nested inner → Nested rest → Nested (U :: (inner ++ D :: rest))

theorem Nested.append {u w : List DyckStep} (hu : Nested u) (hw : Nested w) :
    Nested (u ++ w) := by
  induction hu with
  | nil => exact hw
  | pair hinner _ _ ih =>
    rw [List.cons_append, List.append_assoc]
    exact hinner.pair ih

theorem Nested.exists_dyckWord {w : List DyckStep} (h : Nested w) :
    ∃ d : DyckWord, d.toList = w := by
  induction h with
  | nil => exact ⟨0, rfl⟩
  | pair _ _ ihinner ihrest =>
    obtain ⟨d, rfl⟩ := ihinner
    obtain ⟨e, rfl⟩ := ihrest
    exact ⟨d.nest + e, by change [U] ++ d.toList ++ [D] ++ e.toList = _; simp⟩

theorem nested_toList (d : DyckWord) : Nested d.toList := by
  induction hn : d.semilength using Nat.strong_induction_on generalizing d with
  | _ n ih =>
    subst hn
    by_cases hd : d = 0
    · subst hd
      exact .nil
    · have hinner := ih _ (DyckWord.semilength_insidePart_lt hd) _ rfl
      have hrest := ih _ (DyckWord.semilength_outsidePart_lt hd) _ rfl
      rw [← DyckWord.nest_insidePart_add_outsidePart hd]
      change Nested ([U] ++ d.insidePart.toList ++ [D] ++ d.outsidePart.toList)
      simpa using hinner.pair hrest

/-- Nesting, told by counts: no prefix closes more than it opens, and the whole word closes all. -/
theorem nested_iff {w : List DyckStep} : Nested w ↔ ∃ d : DyckWord, d.toList = w :=
  ⟨Nested.exists_dyckWord, fun ⟨d, hd⟩ => hd ▸ nested_toList d⟩

theorem Nested.count_eq {w : List DyckStep} (h : Nested w) : w.count U = w.count D := by
  obtain ⟨d, rfl⟩ := h.exists_dyckWord
  exact d.count_U_eq_count_D

theorem Nested.count_le {u w : List DyckStep} (h : Nested w) (hu : u <+: w) :
    u.count D ≤ u.count U := by
  obtain ⟨d, rfl⟩ := h.exists_dyckWord
  rw [List.prefix_iff_eq_take.mp hu]
  exact d.count_D_le_count_U _

/-! ## Words that leave parentheses open -/

/-- Nothing closes `n` of the parentheses, and all the others match. -/
inductive LeavesOpen : Nat → List DyckStep → Prop
  | nested {w} : Nested w → LeavesOpen 0 w
  | opening {n u w} : LeavesOpen n u → Nested w → LeavesOpen (n + 1) (u ++ U :: w)

section
variable {n : Nat} {u w : List DyckStep}

@[simp] theorem leavesOpen_zero : LeavesOpen 0 w ↔ Nested w :=
  ⟨fun h => by cases h; assumption, .nested⟩

theorem LeavesOpen.append_nested (hu : LeavesOpen n u) (hw : Nested w) :
    LeavesOpen n (u ++ w) := by
  cases hu with
  | nested hu => exact .nested (hu.append hw)
  | opening houter hinner =>
    rw [List.append_assoc, List.cons_append]
    exact houter.opening (hinner.append hw)

theorem LeavesOpen.concat_U (h : LeavesOpen n w) : LeavesOpen (n + 1) (w ++ [U]) :=
  h.opening .nil

theorem LeavesOpen.concat_D (h : LeavesOpen (n + 1) w) : LeavesOpen n (w ++ [D]) := by
  cases h with
  | opening houter hinner =>
    rw [List.append_assoc, List.cons_append]
    exact houter.append_nested (hinner.pair .nil)

theorem LeavesOpen.count_eq (h : LeavesOpen n w) : w.count U = w.count D + n := by
  induction h with
  | nested h => exact h.count_eq
  | opening _ hinner ih =>
    have := hinner.count_eq
    simp only [List.count_append, List.count_cons_self, ih, this]
    rw [List.count_cons_of_ne (by decide)]
    omega

theorem LeavesOpen.eq_of {m : Nat} (hn : LeavesOpen n w) (hm : LeavesOpen m w) : n = m :=
  Nat.add_left_cancel (hn.count_eq.symm.trans hm.count_eq)

/-- No prefix closes more than it opens. -/
theorem LeavesOpen.count_le (h : LeavesOpen n w) (hu : u <+: w) : u.count D ≤ u.count U := by
  induction h with
  | nested h => exact h.count_le hu
  | @opening m outer inner houter hinner ih =>
    rcases List.prefix_or_prefix_of_prefix hu (List.prefix_append outer _) with hshort | ⟨v, rfl⟩
    · exact ih hshort
    · have hv := (List.prefix_append_right_inj outer).mp hu
      have hcount := houter.count_eq
      rcases List.prefix_cons_iff.mp hv with rfl | ⟨v', rfl, hv'⟩
      · simp [hcount]
      · have := hinner.count_le hv'
        simp only [List.count_append, List.count_cons_self]
        rw [List.count_cons_of_ne (by decide)]
        omega

/-- Some parenthesis is open after the word: what comes after it nests. -/
def HasOpen (w : List DyckStep) : Prop :=
  ∃ outer inner, w = outer ++ U :: inner ∧ Nested inner

theorem LeavesOpen.hasOpen_iff (h : LeavesOpen n w) : HasOpen w ↔ 0 < n := by
  constructor
  · rintro ⟨outer, inner, rfl, hinner⟩
    have hcount := h.count_eq
    have houter := h.count_le (List.prefix_append outer _)
    have := hinner.count_eq
    simp only [List.count_append, List.count_cons_self] at hcount
    rw [List.count_cons_of_ne (by decide)] at hcount
    omega
  · intro hn
    cases h with
    | nested => exact absurd hn (lt_irrefl 0)
    | opening _ hinner => exact ⟨_, _, rfl, hinner⟩

end

/-! ## The counter -/

@[simp] theorem balanceFault_end (n : Nat) :
    balanceFault n [] = if n = 0 then none else some (.unmatchedLeft n) := by
  cases n <;> rfl

/-- A run along the tokens keeps count of what they leave open, or it ends at the first closing
parenthesis that comes after a word that nests. -/
theorem leavesOpen_or_stray (ts : List Token) :
    (∃ n, LeavesOpen n (parentheses ts) ∧
      ∀ rest, balanceFault 0 (ts ++ rest) = balanceFault n rest) ∨
    ∃ before p after, ts = before ++ ⟨.rightParen, p⟩ :: after ∧ Nested (parentheses before) ∧
      ∀ rest, balanceFault 0 (ts ++ rest) = some (.unmatchedRight p) := by
  -- The tokens grow at their end, as a run passes them.
  induction ts using List.reverseRecOn with
  | nil => exact .inl ⟨0, .nested .nil, fun _ => rfl⟩
  | append_singleton ts t ih =>
    have hstep (rest : List Token) :
        balanceFault 0 (ts ++ [t] ++ rest) = balanceFault 0 (ts ++ t :: rest) := by
      rw [List.append_assoc, List.singleton_append]
    rcases ih with ⟨n, hopen, hcounter⟩ | ⟨before, p, after, rfl, hnested, hstray⟩
    · simp only [hstep, hcounter, parentheses_append]
      obtain ⟨l, p⟩ := t
      cases l with
      | leftParen => exact .inl ⟨n + 1, hopen.concat_U, fun rest => balanceFault_leftParen n p rest⟩
      | rightParen =>
        cases n with
        | zero =>
          refine .inr ⟨ts, p, [], rfl, leavesOpen_zero.mp hopen, fun _ => ?_⟩
          rw [balanceFault]
        | succ n => exact .inl ⟨n, hopen.concat_D, fun rest => balanceFault_rightParen n p rest⟩
      | _ =>
        refine .inl ⟨n, ?_, fun rest => balanceFault_plain n (by simp [Plain]) rest⟩
        rw [parentheses_plain (by simp [Plain]), parentheses_nil, List.append_nil]
        exact hopen
    · refine .inr ⟨before, p, after ++ [t], ?_, hnested, fun rest => (hstep rest).trans (hstray _)⟩
      rw [List.append_assoc, List.cons_append]

section
variable {ts before after : List Token} {p : Nat}

/-- A word that has passed a stray parenthesis does not nest, whatever it leaves open. -/
theorem not_leavesOpen_of_stray (h : Nested (parentheses before)) {n : Nat} :
    ¬LeavesOpen n (parentheses (before ++ ⟨.rightParen, p⟩ :: after)) := by
  intro hopen
  have hcounts : parentheses before ++ [D] <+:
      parentheses (before ++ ⟨.rightParen, p⟩ :: after) := by
    rw [parentheses_append, parentheses_rightParen]
    exact (List.prefix_append_right_inj _).mpr (List.cons_prefix_cons.mpr ⟨rfl, List.nil_prefix⟩)
  have hle := hopen.count_le hcounts
  have := h.count_eq
  simp at hle
  omega

/-- The first closing parenthesis that closes nothing stands at `p`. -/
def FirstStrayAt (ts : List Token) (p : Nat) : Prop :=
  ∃ before after, ts = before ++ ⟨.rightParen, p⟩ :: after ∧ ¬HasOpen (parentheses before) ∧
    ∀ earlier q later, before = earlier ++ ⟨.rightParen, q⟩ :: later →
      HasOpen (parentheses earlier)

/-- The first stray parenthesis is one that comes after a word that nests. -/
theorem firstStrayAt_iff : FirstStrayAt ts p ↔
    ∃ before after, ts = before ++ ⟨.rightParen, p⟩ :: after ∧ Nested (parentheses before) := by
  refine exists₂_congr fun before after => and_congr_right fun _ => ⟨fun ⟨hstray, hfirst⟩ => ?_,
    fun hnested => ⟨?_, ?_⟩⟩
  · rcases leavesOpen_or_stray before with ⟨n, hopen, -⟩ | ⟨earlier, q, later, hsplit, hearlier, -⟩
    · obtain rfl : n = 0 := Nat.eq_zero_of_not_pos fun hn => hstray (hopen.hasOpen_iff.mpr hn)
      exact leavesOpen_zero.mp hopen
    · have := (LeavesOpen.nested hearlier).hasOpen_iff.mp (hfirst _ _ _ hsplit)
      exact absurd this (lt_irrefl 0)
  · rw [(LeavesOpen.nested hnested).hasOpen_iff]
    exact lt_irrefl 0
  · rintro earlier q later rfl
    rcases leavesOpen_or_stray earlier with ⟨n, hopen, -⟩ | ⟨_, _, _, rfl, hearlier, -⟩
    · refine hopen.hasOpen_iff.mpr (Nat.pos_of_ne_zero ?_)
      rintro rfl
      exact not_leavesOpen_of_stray (leavesOpen_zero.mp hopen) (.nested hnested)
    · rw [List.append_assoc, List.cons_append] at hnested
      exact (not_leavesOpen_of_stray hearlier (.nested hnested)).elim

/-- What the counter finds: all tokens pass and it stands at the number of parentheses that are left
open, or it stops at the first stray one. -/
theorem balanceFault_cases (ts : List Token) :
    (∃ n, LeavesOpen n (parentheses ts) ∧ (∀ p, ¬FirstStrayAt ts p) ∧
      balanceFault 0 ts = if n = 0 then none else some (.unmatchedLeft n)) ∨
    ∃ p, FirstStrayAt ts p ∧ (∀ n, ¬LeavesOpen n (parentheses ts)) ∧
      balanceFault 0 ts = some (.unmatchedRight p) := by
  rcases leavesOpen_or_stray ts with ⟨n, hopen, hcounter⟩ | ⟨before, p, after, rfl, hnested, hstray⟩
  · refine .inl ⟨n, hopen, fun p hfirst => ?_, ?_⟩
    · obtain ⟨before, after, rfl, hbefore⟩ := firstStrayAt_iff.mp hfirst
      exact not_leavesOpen_of_stray hbefore hopen
    · simpa using hcounter []
  · refine .inr ⟨p, firstStrayAt_iff.mpr ⟨_, _, rfl, hnested⟩,
      fun n => not_leavesOpen_of_stray hnested, ?_⟩
    simpa using hstray []

theorem balanceFault_eq_none_iff_nested : balanceFault 0 ts = none ↔ Nested (parentheses ts) := by
  rw [← leavesOpen_zero]
  rcases balanceFault_cases ts with ⟨n, hopen, -, heq⟩ | ⟨p, -, hnone, heq⟩
  · rw [heq]
    constructor
    · intro h
      obtain rfl : n = 0 := by simpa using h
      exact hopen
    · intro h
      rw [if_pos (hopen.eq_of h)]
  · simp [heq, hnone]

theorem balanceFault_eq_unmatchedRight_iff :
    balanceFault 0 ts = some (.unmatchedRight p) ↔ FirstStrayAt ts p := by
  rcases balanceFault_cases ts with ⟨n, hopen, hstray, heq⟩ | ⟨q, hq, hnone, heq⟩
  · rw [heq]
    refine ⟨fun h => ?_, fun h => absurd h (hstray p)⟩
    split at h <;> cases h
  · rw [heq]
    refine ⟨fun h => by cases h; exact hq, fun h => ?_⟩
    obtain ⟨before, after, hsplit, hbefore⟩ := firstStrayAt_iff.mp h
    rcases leavesOpen_or_stray before with ⟨n, hopen, hcounter⟩ | ⟨_, _, _, rfl, hstray, -⟩
    · obtain rfl := hopen.eq_of (.nested hbefore)
      rw [← heq, hsplit, hcounter, balanceFault]
    · exact (not_leavesOpen_of_stray hstray (.nested hbefore)).elim

theorem balanceFault_eq_unmatchedLeft_iff {n : Nat} :
    balanceFault 0 ts = some (.unmatchedLeft n) ↔ 0 < n ∧ LeavesOpen n (parentheses ts) := by
  rcases balanceFault_cases ts with ⟨m, hopen, -, heq⟩ | ⟨p, -, hnone, heq⟩
  · rw [heq]
    constructor
    · intro h
      split at h <;> cases h
      exact ⟨Nat.pos_of_ne_zero ‹_›, hopen⟩
    · rintro ⟨hn, hn'⟩
      obtain rfl := hopen.eq_of hn'
      rw [if_neg hn.ne']
  · simp [heq, hnone]

/-- There is a stray parenthesis if and only if some prefix closes more than it opens. -/
theorem exists_firstStrayAt_iff : (∃ p, FirstStrayAt ts p) ↔
    ∃ u, u <+: parentheses ts ∧ u.count U < u.count D := by
  constructor
  · rintro ⟨p, hp⟩
    obtain ⟨before, after, rfl, hbefore⟩ := firstStrayAt_iff.mp hp
    refine ⟨parentheses before ++ [D], ?_, by simp [hbefore.count_eq]⟩
    rw [parentheses_append, parentheses_rightParen]
    exact ⟨parentheses after, by simp⟩
  · rintro ⟨u, hu, hcount⟩
    rcases balanceFault_cases ts with ⟨n, hopen, -⟩ | ⟨p, hp, -⟩
    · exact absurd (hopen.count_le hu) (not_le.mpr hcount)
    · exact ⟨p, hp⟩

end

/-! ## Empty pairs -/

/-- At `p` stands an opening parenthesis that is closed at once. -/
def EmptyPairAt (ts : List Token) (p : Nat) : Prop :=
  ∃ before q after, ts = before ++ ⟨.leftParen, p⟩ :: ⟨.rightParen, q⟩ :: after

/-- The first such parenthesis. -/
def FirstEmptyPairAt (ts : List Token) (p : Nat) : Prop :=
  ∃ before q after, ts = before ++ ⟨.leftParen, p⟩ :: ⟨.rightParen, q⟩ :: after ∧
    ∀ p', ¬EmptyPairAt before p'

section
variable {ts before : List Token} {p : Nat}

theorem FirstEmptyPairAt.emptyPairAt (h : FirstEmptyPairAt ts p) : EmptyPairAt ts p := by
  obtain ⟨before, q, after, hsplit, -⟩ := h
  exact ⟨before, q, after, hsplit⟩

theorem EmptyPairAt.exists_first (h : EmptyPairAt ts p) : ∃ p', FirstEmptyPairAt ts p' := by
  induction hn : ts.length using Nat.strong_induction_on generalizing ts p with
  | _ n ih =>
    obtain ⟨before, q, after, rfl⟩ := h
    by_cases hbefore : ∃ p', EmptyPairAt before p'
    · obtain ⟨p', hp'⟩ := hbefore
      obtain ⟨p'', earlier, q', later, rfl, hfirst⟩ :=
        ih before.length (by simp at hn; omega) hp' rfl
      exact ⟨p'', earlier, q', _, by rw [List.append_assoc, List.cons_append, List.cons_append],
        hfirst⟩
    · exact ⟨p, before, q, after, rfl, not_exists.mp hbefore⟩

theorem neighbours_cons_cons (t u : Token) (us : List Token) :
    neighbours (t :: u :: us) = (t, u) :: neighbours (u :: us) := rfl

theorem emptyParenthesesAt_eq_some_iff {a b : Token} {fault : Fault} :
    emptyParenthesesAt (a, b) = some fault ↔
      ∃ p q, a = ⟨.leftParen, p⟩ ∧ b = ⟨.rightParen, q⟩ ∧ fault = .emptyParentheses p := by
  obtain ⟨l, p⟩ := a
  obtain ⟨l', q⟩ := b
  cases l <;> cases l' <;> simp [emptyParenthesesAt, eq_comm]

theorem findSome?_neighbours_of_first (hbefore : ∀ p', ¬EmptyPairAt before p') (q : Nat)
    (after : List Token) :
    (neighbours (before ++ ⟨.leftParen, p⟩ :: ⟨.rightParen, q⟩ :: after)).findSome?
      emptyParenthesesAt = some (.emptyParentheses p) := by
  induction before with
  | nil => rfl
  | cons t before ih =>
    specialize ih fun p' ⟨b, r, a, hsplit⟩ => hbefore p' ⟨t :: b, r, a, by rw [hsplit]; rfl⟩
    cases before with
    | nil =>
      have hnone : emptyParenthesesAt (t, ⟨.leftParen, p⟩) = none := by
        rw [Option.eq_none_iff_forall_ne_some]
        simp [emptyParenthesesAt_eq_some_iff]
      rw [List.singleton_append, neighbours_cons_cons, List.findSome?_cons, hnone]
      exact ih
    | cons u before =>
      have hnone : emptyParenthesesAt (t, u) = none := by
        rw [Option.eq_none_iff_forall_ne_some]
        intro fault hfault
        obtain ⟨p', q', rfl, rfl, -⟩ := emptyParenthesesAt_eq_some_iff.mp hfault
        exact hbefore p' ⟨[], q', before, rfl⟩
      rw [List.cons_append, List.cons_append, neighbours_cons_cons, List.findSome?_cons, hnone]
      exact ih

theorem emptyPairAt_of_mem {q : Nat}
    (h : (⟨.leftParen, p⟩, ⟨.rightParen, q⟩) ∈ neighbours ts) : EmptyPairAt ts p := by
  obtain ⟨before, after, rfl, hlast, hhead⟩ := mem_neighbours.mp h
  obtain ⟨before, rfl⟩ := List.getLast?_eq_some_iff.mp hlast
  obtain ⟨after, rfl⟩ := List.head?_eq_some_iff.mp hhead
  exact ⟨before, q, after, by rw [List.append_assoc, List.singleton_append]⟩

theorem emptyPairFault_eq_some_iff {fault : Fault} :
    (neighbours ts).findSome? emptyParenthesesAt = some fault ↔
      ∃ p, fault = .emptyParentheses p ∧ FirstEmptyPairAt ts p := by
  constructor
  · intro h
    obtain ⟨⟨a, b⟩, hmem, hab⟩ := List.exists_of_findSome?_eq_some h
    obtain ⟨p, q, rfl, rfl, -⟩ := emptyParenthesesAt_eq_some_iff.mp hab
    obtain ⟨p', before, q', after, rfl, hbefore⟩ := (emptyPairAt_of_mem hmem).exists_first
    rw [findSome?_neighbours_of_first hbefore] at h
    exact ⟨p', (Option.some.inj h).symm, before, q', after, rfl, hbefore⟩
  · rintro ⟨p, rfl, before, q, after, rfl, hbefore⟩
    exact findSome?_neighbours_of_first hbefore q after

theorem emptyPairFault_eq_none_iff :
    (neighbours ts).findSome? emptyParenthesesAt = none ↔ ∀ p, ¬EmptyPairAt ts p := by
  rw [Option.eq_none_iff_forall_ne_some]
  simp only [ne_eq, emptyPairFault_eq_some_iff]
  constructor
  · intro h p hp
    obtain ⟨p', hfirst⟩ := hp.exists_first
    exact h _ ⟨p', rfl, hfirst⟩
  · rintro h fault ⟨p, -, hfirst⟩
    exact h p hfirst.emptyPairAt

end

/-! ## The rule -/

section
variable {ts : List Token}

theorem parenthesesFault_of_nested (h : Nested (parentheses ts)) :
    parenthesesFault ts = (neighbours ts).findSome? emptyParenthesesAt := by
  rw [parenthesesFault, balanceFault_eq_none_iff_nested.mpr h]
  rfl

theorem parenthesesFault_of_not_nested (h : ¬Nested (parentheses ts)) :
    parenthesesFault ts = balanceFault 0 ts := by
  obtain ⟨fault, hfault⟩ :=
    Option.ne_none_iff_exists'.mp (mt balanceFault_eq_none_iff_nested.mp h)
  rw [parenthesesFault, hfault]
  rfl

theorem parenthesesFault_eq_none_iff :
    parenthesesFault ts = none ↔ Nested (parentheses ts) ∧ ∀ p, ¬EmptyPairAt ts p := by
  by_cases h : Nested (parentheses ts)
  · rw [parenthesesFault_of_nested h, emptyPairFault_eq_none_iff]
    simp [h]
  · rw [parenthesesFault_of_not_nested h, balanceFault_eq_none_iff_nested]
    simp [h]

/-- The kind of the fault tells whether the parentheses nest. -/
theorem kind_of_parenthesesFault {fault : Fault} (hfault : parenthesesFault ts = some fault) :
    Nested (parentheses ts) ∧ fault.kind = .emptyParentheses ∨
      ¬Nested (parentheses ts) ∧ fault.kind = .mismatchedParentheses := by
  by_cases h : Nested (parentheses ts)
  · rw [parenthesesFault_of_nested h] at hfault
    obtain ⟨p, rfl, -⟩ := emptyPairFault_eq_some_iff.mp hfault
    exact .inl ⟨h, rfl⟩
  · rw [parenthesesFault_of_not_nested h] at hfault
    exact .inr ⟨h, fault.kind_eq_of_rule? (rule?_of_balanceFault hfault)⟩

/-- A mismatch is reported as the counter finds it. -/
theorem parenthesesFault_eq_iff_of_mismatched {fault : Fault}
    (hkind : fault.kind = .mismatchedParentheses) :
    parenthesesFault ts = some fault ↔ balanceFault 0 ts = some fault := by
  by_cases h : Nested (parentheses ts)
  · rw [balanceFault_eq_none_iff_nested.mpr h]
    refine iff_of_false (fun hfault => ?_) nofun
    rcases kind_of_parenthesesFault hfault with ⟨-, hempty⟩ | ⟨hnot, -⟩
    · rw [hkind] at hempty
      cases hempty
    · exact hnot h
  · rw [parenthesesFault_of_not_nested h]

theorem parenthesesFault_eq_emptyParentheses_iff {p : Nat} :
    parenthesesFault ts = some (.emptyParentheses p) ↔
      Nested (parentheses ts) ∧ FirstEmptyPairAt ts p := by
  by_cases h : Nested (parentheses ts)
  · rw [parenthesesFault_of_nested h, emptyPairFault_eq_some_iff]
    simp [h]
  · refine iff_of_false (fun hfault => ?_) fun hnested => h hnested.1
    rcases kind_of_parenthesesFault hfault with ⟨hnested, -⟩ | ⟨-, hkind⟩
    · exact h hnested
    · cases hkind

/-- Of the words that do not nest, the counter passes those in which no prefix closes more than it
opens. -/
theorem exists_unmatchedLeft_iff : (∃ n, balanceFault 0 ts = some (.unmatchedLeft n)) ↔
    ¬Nested (parentheses ts) ∧ ∀ u, u <+: parentheses ts → u.count D ≤ u.count U := by
  simp only [balanceFault_eq_unmatchedLeft_iff]
  constructor
  · rintro ⟨n, hn, hopen⟩
    refine ⟨fun h => ?_, fun u hu => hopen.count_le hu⟩
    exact hn.ne' (hopen.eq_of (.nested h))
  · rintro ⟨hnot, hcounts⟩
    rcases balanceFault_cases ts with ⟨n, hopen, -⟩ | ⟨p, hp, -⟩
    · refine ⟨n, Nat.pos_of_ne_zero ?_, hopen⟩
      rintro rfl
      exact hnot (leavesOpen_zero.mp hopen)
    · obtain ⟨u, hu, hcount⟩ := exists_firstStrayAt_iff.mp ⟨p, hp⟩
      exact absurd (hcounts u hu) (not_le.mpr hcount)

end

/-- **The rule on parentheses decides whether they nest.** It passes the tokens whose parentheses
make up a word that nests and of which no two are an empty pair. It names the first empty pair if
the word nests, the first parenthesis that closes nothing if some prefix closes more than it opens,
and otherwise the number of parentheses that nothing closes. -/
theorem parenthesesFault_spec (ts : List Token) :
    (parenthesesFault ts = none ↔ Nested (parentheses ts) ∧ ∀ p, ¬EmptyPairAt ts p) ∧
    (∀ p, parenthesesFault ts = some (.emptyParentheses p) ↔
      Nested (parentheses ts) ∧ FirstEmptyPairAt ts p) ∧
    (∀ p, parenthesesFault ts = some (.unmatchedRight p) ↔ FirstStrayAt ts p) ∧
    (∀ n, parenthesesFault ts = some (.unmatchedLeft n) ↔
      0 < n ∧ LeavesOpen n (parentheses ts)) ∧
    ((∃ p, parenthesesFault ts = some (.unmatchedRight p)) ↔
      ∃ u, u <+: parentheses ts ∧ u.count U < u.count D) ∧
    ((∃ n, parenthesesFault ts = some (.unmatchedLeft n)) ↔ ¬Nested (parentheses ts) ∧
      ∀ u, u <+: parentheses ts → u.count D ≤ u.count U) ∧
    ∀ fault, parenthesesFault ts = some fault →
      Nested (parentheses ts) ∧ fault.kind = .emptyParentheses ∨
        ¬Nested (parentheses ts) ∧ fault.kind = .mismatchedParentheses := by
  have hright (p : Nat) : parenthesesFault ts = some (.unmatchedRight p) ↔ FirstStrayAt ts p :=
    (parenthesesFault_eq_iff_of_mismatched rfl).trans balanceFault_eq_unmatchedRight_iff
  have hleft (n : Nat) : parenthesesFault ts = some (.unmatchedLeft n) ↔
      balanceFault 0 ts = some (.unmatchedLeft n) := parenthesesFault_eq_iff_of_mismatched rfl
  refine ⟨parenthesesFault_eq_none_iff, fun p => parenthesesFault_eq_emptyParentheses_iff, hright,
    fun n => (hleft n).trans balanceFault_eq_unmatchedLeft_iff, ?_, ?_,
    fun fault => kind_of_parenthesesFault⟩
  · rw [exists_congr hright, exists_firstStrayAt_iff]
  · rw [exists_congr hleft, exists_unmatchedLeft_iff]

end PhasePortrait.Formula
