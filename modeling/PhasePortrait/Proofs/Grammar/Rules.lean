import PhasePortrait.Proofs.Grammar.Placement

/-!
# What each rule before parsing decides

Each rule scans the tokens by itself, for neighbours that may not meet, for parentheses, or for
words. The scans over neighbours look at every place of the list (`mem_zip_previous` and the lemmas
after it), the words pass exactly if each of them is known, and a text passes exactly if no rule
finds a fault (`check_eq_ok_iff`).
-/
namespace PhasePortrait.Formula

/-! ## Scans and seams -/

theorem getLast?_cons_or (u : Token) (ts : List Token) (prev : Option Token) :
    (u :: ts).getLast?.or prev = ts.getLast?.or (some u) := by
  rw [List.getLast?_cons]
  cases ts.getLast? <;> rfl

theorem mem_zip_previous {ts : List Token} {o : Option Token} {t : Token} :
    (o, t) ∈ (none :: ts.map some).zip ts ↔ Seam ts o (some t) := by
  suffices ∀ prev : Option Token, (o, t) ∈ (prev :: ts.map some).zip ts ↔
      ∃ before after, ts = before ++ after ∧ before.getLast?.or prev = o ∧ after.head? = some t by
    simpa [Seam] using this none
  intro prev
  induction ts generalizing prev with
  | nil => simp
  | cons u ts ih =>
      rw [List.map_cons, List.zip_cons_cons, List.mem_cons, ih]
      constructor
      · rintro (h | ⟨before, after, rfl, hlast, hhead⟩)
        · cases h
          exact ⟨[], t :: ts, rfl, rfl, rfl⟩
        · exact ⟨u :: before, after, rfl, by rw [getLast?_cons_or, hlast], hhead⟩
      · rintro ⟨before, after, heq, hlast, hhead⟩
        cases before with
        | nil =>
            obtain rfl : u :: ts = after := heq
            cases hhead
            exact .inl (by rw [← hlast]; rfl)
        | cons v before =>
            obtain ⟨rfl, rfl⟩ := List.cons.inj heq
            exact .inr ⟨before, after, rfl, by rw [← hlast, getLast?_cons_or], hhead⟩

theorem mem_zip_next {ts : List Token} {o : Option Token} {t : Token} :
    (t, o) ∈ ts.zip (ts.tail.map some ++ [none]) ↔ Seam ts (some t) o := by
  induction ts with
  | nil => simp [Seam]
  | cons u ts ih =>
      have hzip : (u :: ts).zip ((u :: ts).tail.map some ++ [none]) =
          (u, ts.head?) :: ts.zip (ts.tail.map some ++ [none]) := by
        cases ts <;> rfl
      rw [hzip, List.mem_cons, ih]
      constructor
      · rintro (h | ⟨before, after, rfl, hlast, hhead⟩)
        · cases h
          exact ⟨[t], ts, rfl, rfl, rfl⟩
        · exact ⟨u :: before, after, rfl, by rw [List.getLast?_cons, hlast]; rfl, hhead⟩
      · rintro ⟨before, after, heq, hlast, hhead⟩
        cases before with
        | nil => cases hlast
        | cons v before =>
            obtain ⟨rfl, rfl⟩ := List.cons.inj heq
            cases before with
            | nil =>
                cases hlast
                exact .inl (by rw [← hhead]; rfl)
            | cons w before => exact .inr ⟨w :: before, after, rfl, hlast, hhead⟩

theorem mem_neighbours {ts : List Token} {a b : Token} :
    (a, b) ∈ neighbours ts ↔ Seam ts (some a) (some b) := by
  rw [← mem_zip_next]
  induction ts with
  | nil => simp [neighbours]
  | cons t ts ih =>
      cases ts with
      | nil => simp [neighbours]
      | cons u ts =>
          change (a, b) ∈ (t, u) :: neighbours (u :: ts) ↔
            (a, some b) ∈ (t, some u) :: (u :: ts).zip ((u :: ts).tail.map some ++ [none])
          rw [List.mem_cons, List.mem_cons, ih]
          simp

/-! ## The rules, one by one -/

theorem shapeFault_eq_none_iff {ts : List Token} :
    shapeFault ts = none ↔ ts.length ≤ maxTokens ∧ Balanced ts ∧
      (∀ a b, Seam ts (some a) (some b) → emptyParenthesesAt (a, b) = none) ∧
      (∀ a b, Seam ts (some a) (some b) → doubledAt (a, b) = none) ∧
      (∀ o t, Seam ts o (some t) → leadingAt (o, t) = none) ∧
      (∀ t o, Seam ts (some t) o → trailingAt (t, o) = none) ∧
      ∀ a b, Seam ts (some a) (some b) → consecutiveAt (a, b) = none := by
  simp only [shapeFault, lengthFault, parenthesesFault, operatorsFault, Option.orElse_eq_orElse,
    Option.orElse_eq_or, Option.or_eq_none_iff, List.findSome?_eq_none_iff, Prod.forall,
    mem_neighbours, mem_zip_previous, mem_zip_next, and_assoc, Balanced]
  simp

theorem mem_words {ts : List Token} {name : String} {position : Nat} {called : Bool} :
    (name, position, called) ∈ words ts ↔ ∃ next,
      Seam ts (some ⟨.name name, position⟩) next ∧ next.any (·.lexeme = .leftParen) = called := by
  simp only [words, List.mem_filterMap, Prod.exists]
  constructor
  · rintro ⟨⟨l, p⟩, next, hmem, hword⟩
    cases l <;> cases hword
    exact ⟨next, mem_zip_next.mp hmem, rfl⟩
  · rintro ⟨next, hseam, rfl⟩
    exact ⟨_, next, mem_zip_next.mpr hseam, rfl⟩

theorem eraseDups_eq_nil_iff {ns : List String} : ns.eraseDups = [] ↔ ns = [] := by
  cases ns with
  | nil => simp
  | cons n ns => simp [List.eraseDups_cons]

theorem unknownCallsFault_eq_none_iff {ns : List String} :
    unknownCallsFault ns = none ↔ ns = [] := by
  cases ns <;> simp [unknownCallsFault]

theorem looseFault_eq_none_iff {s : Scope} {ns : List String} :
    looseFault s ns = none ↔ ns = [] := by
  constructor
  · intro h
    have hfilters : ns.filter isLowercase = [] ∧ ns.filter (!isLowercase ·) = [] := by
      unfold looseFault at h
      dsimp only at h
      split at h <;> simp_all
    rw [List.filter_eq_nil_iff, List.filter_eq_nil_iff] at hfilters
    refine List.eq_nil_iff_forall_not_mem.mpr fun n hn => ?_
    have hlower := hfilters.1 n hn
    have hother := hfilters.2 n hn
    simp_all
  · rintro rfl
    cases s with
    | mk vars parameters => cases parameters <;> rfl

theorem looseWords_eq_nil_iff {names : List String} {ts : List Token} :
    looseWords names ts = [] ↔ ∀ name position, (name, position, false) ∈ words ts →
      name ∈ names ∨ (Constant.ofName? name).isSome := by
  simp [looseWords, List.filterMap_eq_nil_iff, Option.isSome_iff_ne_none, or_iff_not_imp_left]

theorem unknownCalls_eq_nil_iff {ts : List Token} :
    unknownCalls ts = [] ↔ ∀ name position, (name, position, true) ∈ words ts →
      (Function.ofName? name).isSome := by
  rw [unknownCalls, eraseDups_eq_nil_iff]
  simp [List.filterMap_eq_nil_iff, Option.isSome_iff_ne_none]

/-- The words pass exactly if each of them is known where it stands. -/
theorem wordsFault_eq_none_iff {s : Scope} {ts : List Token} :
    wordsFault s ts = none ↔ WordsKnown (.ofNames s.names) ts := by
  have hparts : wordsFault s ts = none ↔ looseWords s.names ts = [] ∧ unknownCalls ts = [] := by
    simp only [wordsFault, Option.orElse_eq_orElse, Option.orElse_eq_or, Option.or_eq_none_iff,
      unknownCallsFault_eq_none_iff, looseFault_eq_none_iff, eraseDups_eq_nil_iff,
      List.map_eq_nil_iff]
    constructor
    · rintro ⟨_, hcalls, hloose⟩
      exact ⟨hloose, hcalls⟩
    · rintro ⟨hloose, hcalls⟩
      exact ⟨by rw [hloose]; rfl, hcalls, hloose⟩
  rw [hparts, looseWords_eq_nil_iff, unknownCalls_eq_nil_iff]
  constructor
  · rintro ⟨hloose, hcalls⟩ name position next hseam
    by_cases hnext : next.map Token.lexeme = some .leftParen
    · rw [hnext]
      refine hcalls name position (mem_words.mpr ⟨next, hseam, ?_⟩)
      obtain ⟨t, rfl, ht⟩ := Option.map_eq_some_iff.mp hnext
      simp [ht]
    · rw [known_iff hnext]
      refine hloose name position (mem_words.mpr ⟨next, hseam, ?_⟩)
      cases next with
      | none => rfl
      | some t => simpa using hnext
  · intro h
    constructor
    · intro name position hmem
      obtain ⟨next, hseam, hcalled⟩ := mem_words.mp hmem
      have hnext : next.map Token.lexeme ≠ some .leftParen := by
        cases next with
        | none => exact nofun
        | some t => simpa using hcalled
      exact (known_iff hnext).mp (h name position next hseam)
    · intro name position hmem
      obtain ⟨next, hseam, hcalled⟩ := mem_words.mp hmem
      have hnext : next.map Token.lexeme = some .leftParen := by
        cases next with
        | none => cases hcalled
        | some t => simpa using hcalled
      have hknown := h name position next hseam
      rwa [hnext] at hknown

theorem check_eq {text : String} {ts : List Token} (hblank : Text.isBlankText text = false)
    (htokens : tokenize text = .ok ts) (s : Scope) :
    check text s = match shapeFault ts <|> scopeFault s <|> wordsFault s ts with
      | some fault => .error fault
      | none => .ok ts := by
  have hshape : checkShape text = match shapeFault ts with
      | some fault => .error fault
      | none => .ok ts := by
    rw [checkShape, hblank, htokens]
    change (match shapeFault ts with | some fault => throw fault | none => pure ts) = _
    cases shapeFault ts <;> rfl
  rw [check, hshape]
  cases shapeFault ts with
  | some fault => rfl
  | none =>
      change (match scopeFault s <|> wordsFault s ts with
        | some fault => throw fault
        | none => pure ts) = match scopeFault s <|> wordsFault s ts with
        | some fault => Except.error fault
        | none => Except.ok ts
      cases scopeFault s <|> wordsFault s ts <;> rfl

theorem check_eq_ok_iff {text : String} {s : Scope} {ts : List Token} :
    check text s = .ok ts ↔ Text.isBlankText text = false ∧ tokenize text = .ok ts ∧
      shapeFault ts = none ∧ scopeFault s = none ∧ wordsFault s ts = none := by
  constructor
  · intro h
    cases hblank : Text.isBlankText text with
    | true =>
        rw [check, checkShape, hblank] at h
        cases h
    | false =>
        cases htokens : tokenize text with
        | error fault =>
            rw [check, checkShape, hblank, htokens] at h
            cases h
        | ok us =>
            rw [check_eq hblank htokens] at h
            split at h
            · cases h
            · next hnone =>
              cases h
              simpa using hnone
  · rintro ⟨hblank, htokens, hshape, hscope, hwords⟩
    rw [check_eq hblank htokens, hshape, hscope, hwords]
    rfl

end PhasePortrait.Formula
