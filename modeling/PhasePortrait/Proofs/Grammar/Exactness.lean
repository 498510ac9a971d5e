import PhasePortrait.Proofs.Grammar.Derivation
import PhasePortrait.Proofs.Grammar.Descent

/-!
# The parser accepts its grammar exactly

Soundness goes with the descent: what a step has taken derives the tree that it reports, and what a
tail has taken extends whatever derives the tree on its left (`reads_descent`). Completeness goes
with the derivation: lexemes that derive a tree are read as that tree if nothing follows them that
their level would go on with (`found`).
-/
namespace PhasePortrait.Formula

variable {g : Grammar}

/-! ## What is read derives its tree -/

/-- What was taken from the tokens derives the tree that is reported. -/
def Reads (g : Grammar) (level : Level) (ts : List Token)
    (r : Except Fault (Reading (Tree String))) : Prop :=
  ∀ t last rest, r = .ok (t, last, rest) → ∃ us, ts = us ++ rest ∧ Derives g level (lexemes us) t

/-- What was taken from the tokens turns a derivation of the tree on the left into one of the tree
that is reported. -/
def Extends (g : Grammar) (level : Level) (left : Tree String) (ts : List Token)
    (r : Except Fault (Reading (Tree String))) : Prop :=
  ∀ ls, Derives g level ls left → ∀ t last rest, r = .ok (t, last, rest) →
    ∃ us, ts = us ++ rest ∧ Derives g level (ls ++ lexemes us) t

/-- The arguments that derive a list of trees, at least one. -/
def Arguments (g : Grammar) (args : List (List Lexeme × Tree String)) : Prop :=
  args ≠ [] ∧ ∀ arg ∈ args, Derives g .sum arg.1 arg.2

/-- As `Extends`, for the arguments of a call. -/
def ExtendsArguments (g : Grammar) (values : List (Tree String)) (ts : List Token)
    (r : Except Fault (Reading (List (Tree String)))) : Prop :=
  ∀ args, Arguments g args → args.map Prod.snd = values → ∀ vs last rest,
    r = .ok (vs, last, rest) → ∃ us args', ts = us ++ rest ∧ Arguments g args' ∧
      args'.map Prod.snd = vs ∧
      separated (args'.map Prod.fst) = separated (args.map Prod.fst) ++ lexemes us

theorem reads_then {level level' : Level} {ts : List Token} {n : Nat}
    {x : Except Fault (Parsed (Tree String) n)}
    {k : Reading (Tree String) → Except Fault (Reading (Tree String))}
    (lift : ∀ {ls t}, Derives g level ls t → Derives g level' ls t)
    (hx : Reads g level ts (report x))
    (hk : ∀ p : Parsed (Tree String) n,
      Extends g level' p.value p.rest (k (p.value, p.last, p.rest))) :
    Reads g level' ts (report x >>= k) := by
  intro t last rest h
  obtain ⟨p, hp, hr⟩ := exists_of_report_bind h
  obtain ⟨us, rfl, hus⟩ := hx _ _ _ hp
  obtain ⟨vs, hvs, hd⟩ := hk p _ (lift hus) _ _ _ hr
  exact ⟨us ++ vs, by rw [hvs, List.append_assoc], by simpa using hd⟩

theorem extends_done {level : Level} (left : Tree String) (last : Token) (ts : List Token) :
    Extends g level left ts (.ok (left, last, ts)) := by
  rintro ls hl t last' rest ⟨⟩
  exact ⟨[], rfl, by simpa using hl⟩

/-- One more operand of a chain. -/
theorem extends_operand {level level' : Level} {left : Tree String} {o : Operator} {position : Nat}
    {ts : List Token} {n : Nat} {x : Except Fault (Parsed (Tree String) n)}
    {k : Reading (Tree String) → Except Fault (Reading (Tree String))}
    (join : ∀ {ls rs t u}, Derives g level' ls t → Derives g level rs u →
      Derives g level' (ls ++ .operator o :: rs) (.binary o t u))
    (hx : Reads g level ts (report x))
    (hk : ∀ p : Parsed (Tree String) n,
      Extends g level' (.binary o left p.value) p.rest (k (p.value, p.last, p.rest))) :
    Extends g level' left (⟨.operator o, position⟩ :: ts) (report x >>= k) := by
  intro ls hl t last rest h
  obtain ⟨p, hp, hr⟩ := exists_of_report_bind h
  obtain ⟨us, rfl, hus⟩ := hx _ _ _ hp
  obtain ⟨vs, hvs, hd⟩ := hk p _ (join hl hus) _ _ _ hr
  exact ⟨⟨.operator o, position⟩ :: us ++ vs, by rw [hvs]; simp, by simpa using hd⟩

theorem reads_negation {position : Nat} {ts : List Token}
    (h : Reads g .signed ts (report (parseSigned g ts))) :
    Reads g .signed (⟨.operator .sub, position⟩ :: ts)
      (report (parseSigned g (⟨.operator .sub, position⟩ :: ts))) := by
  intro t last rest hr
  rw [report_parseSigned_cons] at hr
  obtain ⟨⟨u, last', rest'⟩, hp, hvalue⟩ := exists_of_bind hr
  obtain ⟨us, rfl, hus⟩ := h _ _ _ hp
  cases hvalue
  exact ⟨⟨.operator .sub, position⟩ :: us, rfl, .negation hus⟩

theorem reads_power {ts : List Token} (hx : Reads g .primary ts (report (parsePrimary g ts)))
    (hk : ∀ (p : Parsed (Tree String) ts.length) position rest,
      p.rest = ⟨.operator .pow, position⟩ :: rest →
        Reads g .power rest (report (parsePower g rest))) :
    Reads g .power ts (report (parsePower g ts)) := by
  intro t last rest hr
  rw [report_parsePower] at hr
  obtain ⟨p, hp, hr⟩ := exists_of_report_bind hr
  obtain ⟨us, hts, hus⟩ := hx _ _ _ hp
  dsimp only at hr
  unfold powerTail at hr
  split at hr
  · next position rest' hrest =>
    obtain ⟨⟨u, last', rest''⟩, hq, hvalue⟩ := exists_of_bind hr
    obtain ⟨vs, rfl, hd⟩ := hk p position rest' hrest _ _ _ hq
    cases hvalue
    refine ⟨us ++ ⟨.operator .pow, position⟩ :: vs, ?_, ?_⟩
    · rw [hts, hrest]
      simp
    · simpa using Derives.raising hus hd
  · cases hr
    exact ⟨us, hts, .primary hus⟩

theorem exists_of_closed {α : Type} {v v' : α} {last last' : Token} {ts rest : List Token}
    (h : closed (v, last, ts) = .ok (v', last', rest)) :
    v' = v ∧ ∃ position, ts = ⟨.rightParen, position⟩ :: rest := by
  unfold closed at h
  split at h
  · next heq =>
    cases heq
    cases h
    exact ⟨rfl, _, rfl⟩
  · cases h

theorem reads_group {position : Nat} {ts : List Token}
    (h : Reads g .sum ts (report (parseSum g ts))) :
    Reads g .primary (⟨.leftParen, position⟩ :: ts)
      (report (parsePrimary g (⟨.leftParen, position⟩ :: ts))) := by
  intro t last rest hr
  rw [report_parsePrimary_group] at hr
  obtain ⟨p, hp, hr⟩ := exists_of_report_bind hr
  obtain ⟨us, hts, hus⟩ := h _ _ _ hp
  obtain ⟨rfl, position', hrest⟩ := exists_of_closed hr
  refine ⟨⟨.leftParen, position⟩ :: us ++ [⟨.rightParen, position'⟩], ?_, ?_⟩
  · rw [hts, hrest]
    simp
  · simpa using Derives.group hus

theorem reads_call {name : String} {f : Function} (hf : Function.ofName? name = some f)
    {position position' : Nat} {ts : List Token} (h : Reads g .sum ts (report (parseSum g ts)))
    (hk : ∀ first : Parsed (Tree String) ts.length,
      ExtendsArguments g [first.value] first.rest
        (report (argsTail g [first.value] first.last first.rest))) :
    Reads g .primary (⟨.name name, position⟩ :: ⟨.leftParen, position'⟩ :: ts)
      (report (parsePrimary g (⟨.name name, position⟩ :: ⟨.leftParen, position'⟩ :: ts))) := by
  intro t last rest hr
  rw [report_parsePrimary_call g hf] at hr
  obtain ⟨first, hp, hr⟩ := exists_of_report_bind hr
  obtain ⟨us, hts, hus⟩ := h _ _ _ hp
  dsimp only at hr
  rw [bind_assoc] at hr
  obtain ⟨args, hargs, hr⟩ := exists_of_report_bind hr
  have single : Arguments g [(lexemes us, first.value)] := ⟨by simp, by simpa using hus⟩
  obtain ⟨vs, args', hrest, ⟨hne, hall⟩, hvalues, hsep⟩ :=
    hk first _ single rfl _ _ _ hargs
  obtain ⟨⟨values, last', rest'⟩, hc, hr⟩ := exists_of_bind hr
  obtain ⟨rfl, position'', hclose⟩ := exists_of_closed hc
  dsimp only [called] at hr
  split at hr
  · next hadmits =>
    cases hr
    refine ⟨⟨.name name, position⟩ :: ⟨.leftParen, position'⟩ :: (us ++ vs) ++
      [⟨.rightParen, position''⟩], ?_, ?_⟩
    · rw [hts, hrest, hclose]
      simp
    · rw [← hvalues, List.length_map] at hadmits
      have := Derives.call args' hf hne hadmits hall
      rw [hsep, hvalues] at this
      simpa [separated] using this
  · cases hr

theorem reads_name {name : String} {position : Nat} {ts : List Token}
    (h : ∀ position' rest, ts ≠ ⟨.leftParen, position'⟩ :: rest) :
    Reads g .primary (⟨.name name, position⟩ :: ts)
      (report (parsePrimary g (⟨.name name, position⟩ :: ts))) := by
  intro t last rest hr
  rw [report_parsePrimary_name g name position h] at hr
  unfold nameTree at hr
  split at hr
  · next hn =>
    cases hr
    exact ⟨[⟨.name name, position⟩], rfl, .symbol (by simpa using hn)⟩
  · next hn =>
    split at hr
    · next c hc =>
      cases hr
      exact ⟨[⟨.name name, position⟩], rfl, .constant (by simpa using hn) hc⟩
    · cases hr

theorem extendsArguments_comma {values : List (Tree String)} {last : Token} {position : Nat}
    {ts : List Token} (h : Reads g .sum ts (report (parseSum g ts)))
    (hk : ∀ p : Parsed (Tree String) ts.length, ExtendsArguments g (values ++ [p.value]) p.rest
      (report (argsTail g (values ++ [p.value]) p.last p.rest))) :
    ExtendsArguments g values (⟨.comma, position⟩ :: ts)
      (report (argsTail g values last (⟨.comma, position⟩ :: ts))) := by
  rintro args ⟨hne, hall⟩ rfl vs last' rest hr
  rw [report_argsTail_cons] at hr
  obtain ⟨p, hp, hr⟩ := exists_of_report_bind hr
  obtain ⟨us, hts, hus⟩ := h _ _ _ hp
  have more : Arguments g (args ++ [(lexemes us, p.value)]) := by
    refine ⟨by simp, fun arg harg => ?_⟩
    rcases List.mem_append.mp harg with harg | harg
    · exact hall arg harg
    · rw [List.mem_singleton.mp harg]
      exact hus
  obtain ⟨ws, args', hrest, hargs', hvalues, hsep⟩ := hk p _ more (by simp) _ _ _ hr
  refine ⟨⟨.comma, position⟩ :: us ++ ws, args', ?_, hargs', hvalues, ?_⟩
  · rw [hts, hrest]
    simp
  · rw [hsep, List.map_append, List.map_singleton, separated_concat (by simpa using hne)]
    simp

/-- Every step of the descent reads what derives its tree. -/
theorem reads_descent (g : Grammar) :
    (∀ ts, Reads g .sum ts (report (parseSum g ts))) ∧
    (∀ left last ts, Extends g .sum left ts (report (sumTail g left last ts))) ∧
    (∀ ts, Reads g .product ts (report (parseProduct g ts))) ∧
    (∀ left last ts, Extends g .product left ts (report (productTail g left last ts))) ∧
    (∀ ts, Reads g .signed ts (report (parseSigned g ts))) ∧
    (∀ ts, Reads g .power ts (report (parsePower g ts))) ∧
    (∀ ts, Reads g .primary ts (report (parsePrimary g ts))) ∧
    ∀ values last ts, ExtendsArguments g values ts (report (argsTail g values last ts)) := by
  apply parseSum.mutual_induct
  case _ => -- a sum
    intro ts hx hk
    rw [report_parseSum]
    exact reads_then .product hx fun p => hk p
  case _ => -- a further term
    intro left last o position rest ho hx hk
    rw [report_sumTail_cons g ho]
    exact extends_operand (.addition ho) hx fun p => hk p
  case _ => -- an operator that ends the sum
    intro left last o position rest ho
    rw [report_sumTail_of_not g left last (by rintro _ _ _ ⟨⟩; exact ho)]
    exact extends_done left last _
  case _ => -- no operator after the sum
    intro left last ts h
    rw [report_sumTail_of_not g left last fun o position rest heq => (h o position rest heq).elim]
    exact extends_done left last ts
  case _ => -- a product
    intro ts hx hk
    rw [report_parseProduct]
    exact reads_then .signed hx fun p => hk p
  case _ => -- a further factor
    intro left last o position rest ho hx hk
    rw [report_productTail_cons g ho]
    exact extends_operand (.multiplication ho) hx fun p => hk p
  case _ => -- an operator that ends the product
    intro left last o position rest ho
    rw [report_productTail_of_not g left last (by rintro _ _ _ ⟨⟩; exact ho)]
    exact extends_done left last _
  case _ => -- no operator after the product
    intro left last ts h
    rw [report_productTail_of_not g left last fun o position rest heq =>
      (h o position rest heq).elim]
    exact extends_done left last ts
  case _ => -- a sign
    intro position rest h
    exact reads_negation h
  case _ => -- no sign
    intro ts hne h t last rest hr
    rw [report_parseSigned_of_not g hne] at hr
    obtain ⟨us, hts, hus⟩ := h t last rest hr
    exact ⟨us, hts, .power hus⟩
  case _ => -- a power
    intro ts hx hk
    exact reads_power hx hk
  case _ => -- a number
    intro text position rest t last rest' hr
    rw [report_parsePrimary_number] at hr
    cases hr
    exact ⟨[⟨.number text, position⟩], rfl, .number⟩
  case _ => -- a group
    intro position rest h
    exact reads_group h
  case _ => -- a call of no function
    intro name position position' rest hf t last rest' hr
    rw [report_parsePrimary_unknown g hf] at hr
    cases hr
  case _ => -- a call
    intro name position position' rest f hf h hk
    exact reads_call hf h hk
  case _ => -- a word
    intro name position rest h
    exact reads_name h
  case _ => -- nothing that a primary starts with
    intro ts hnumber hgroup hcall hname t last rest hr
    rw [report_parsePrimary_of_not g hnumber hgroup hname] at hr
    cases hr
  case _ => -- a further argument
    intro values last position rest h hk
    exact extendsArguments_comma h hk
  case _ => -- no comma after the arguments
    intro values last ts h
    rw [report_argsTail_of_not g values last h]
    rintro args hargs rfl vs last' rest ⟨⟩
    exact ⟨[], args, rfl, hargs, rfl, by simp⟩

/-! ## What derives a tree is read -/

/-- The tokens do not go on with a phrase of this level that has just ended. -/
structure EndsBefore (level : Level) (ts : List Token) : Prop where
  uncalled : ∀ position rest, ts ≠ ⟨.leftParen, position⟩ :: rest
  stops : StopsBefore level ts

theorem endsBefore_operator {level : Level} {o : Operator} (h : level.leaves o) (position : Nat)
    (ts : List Token) : EndsBefore level (⟨.operator o, position⟩ :: ts) :=
  ⟨nofun, stopsBefore_operator h position ts⟩

theorem endsBefore_other {level : Level} {l : Lexeme} (hl : l ≠ .leftParen)
    (ho : ∀ o, l ≠ .operator o) (position : Nat) (ts : List Token) :
    EndsBefore level (⟨l, position⟩ :: ts) := by
  refine ⟨?_, ?_⟩
  · rintro _ _ ⟨⟩
    exact hl rfl
  · rintro o _ _ ⟨⟩
    exact absurd rfl (ho o)

theorem EndsBefore.mono {level level' : Level} {ts : List Token} (h : EndsBefore level ts)
    (hle : ∀ o, level.leaves o → level'.leaves o) : EndsBefore level' ts :=
  ⟨h.uncalled, h.stops.mono hle⟩

/-- A phrase is read off the front of the tokens. In a chain, reading it is to be at its tail. -/
def Found (g : Grammar) (level : Level) (ls : List Lexeme) (t : Tree String) : Prop :=
  ∀ us rest, lexemes us = ls →
    match level with
    | .sum => EndsBefore .product rest →
        ∃ last, report (parseSum g (us ++ rest)) = report (sumTail g t last rest)
    | .product => EndsBefore .signed rest →
        ∃ last, report (parseProduct g (us ++ rest)) = report (productTail g t last rest)
    | .signed => EndsBefore .signed rest →
        ∃ last, report (parseSigned g (us ++ rest)) = .ok (t, last, rest)
    | .power => EndsBefore .power rest →
        ∃ last, report (parsePower g (us ++ rest)) = .ok (t, last, rest)
    | .primary => EndsBefore .primary rest →
        ∃ last, report (parsePrimary g (us ++ rest)) = .ok (t, last, rest)

theorem report_sumTail_of_endsBefore {ts : List Token} (h : EndsBefore .sum ts) (t : Tree String)
    (last : Token) : report (sumTail g t last ts) = .ok (t, last, ts) :=
  report_sumTail_of_not g t last fun o position rest heq _ => h.stops o position rest heq

theorem report_productTail_of_endsBefore {ts : List Token} (h : EndsBefore .product ts)
    (t : Tree String) (last : Token) : report (productTail g t last ts) = .ok (t, last, ts) := by
  refine report_productTail_of_not g t last fun o position rest heq ho => ?_
  rcases h.stops o position rest heq with rfl | rfl <;> simp at ho

theorem powerTail_of_endsBefore {ts : List Token} (h : EndsBefore .power ts) (t : Tree String)
    (last : Token) : powerTail g t last ts = .ok (t, last, ts) := by
  unfold powerTail
  split
  · exact absurd rfl (h.stops _ _ _ rfl)
  · rfl

theorem EndsBefore.signed_of_product {ts : List Token} (h : EndsBefore .product ts) :
    EndsBefore .signed ts :=
  h.mono (by rintro o (rfl | rfl) <;> exact nofun)

theorem found_sum_of_product {ls : List Lexeme} {t : Tree String} (h : Found g .product ls t) :
    Found g .sum ls t := by
  intro us rest hus hrest
  obtain ⟨last, hr⟩ := h us rest hus hrest.signed_of_product
  refine ⟨last, ?_⟩
  rw [report_parseSum, hr, report_productTail_of_endsBefore hrest]
  rfl

theorem found_addition {ls rs : List Lexeme} {t u : Tree String} {o : Operator}
    (ho : o = .add ∨ o = .sub) (hl : Found g .sum ls t) (hr : Found g .product rs u) :
    Found g .sum (ls ++ .operator o :: rs) (.binary o t u) := by
  intro us rest hus hrest
  obtain ⟨us, vs, rfl, hls, hvs⟩ := exists_of_lexemes_append hus
  obtain ⟨position, vs, rfl, hrs⟩ := exists_of_lexemes_cons hvs
  have hleaves : Level.product.leaves o := ho
  have hnext : EndsBefore .product (⟨.operator o, position⟩ :: (vs ++ rest)) :=
    endsBefore_operator hleaves position _
  obtain ⟨last, hl⟩ := hl us _ hls hnext
  obtain ⟨last', hr⟩ := hr vs rest hrs hrest.signed_of_product
  refine ⟨last', ?_⟩
  rw [List.append_assoc, List.cons_append, hl, report_sumTail_cons g ho, hr,
    report_productTail_of_endsBefore hrest]
  rfl

theorem found_product_of_signed {ls : List Lexeme} {t : Tree String} (h : Found g .signed ls t) :
    Found g .product ls t := by
  intro us rest hus hrest
  obtain ⟨last, hr⟩ := h us rest hus hrest
  refine ⟨last, ?_⟩
  rw [report_parseProduct, hr]
  rfl

theorem found_multiplication {ls rs : List Lexeme} {t u : Tree String} {o : Operator}
    (ho : o = .mul ∨ o = .div) (hl : Found g .product ls t) (hr : Found g .signed rs u) :
    Found g .product (ls ++ .operator o :: rs) (.binary o t u) := by
  intro us rest hus hrest
  obtain ⟨us, vs, rfl, hls, hvs⟩ := exists_of_lexemes_append hus
  obtain ⟨position, vs, rfl, hrs⟩ := exists_of_lexemes_cons hvs
  have hnext : EndsBefore .signed (⟨.operator o, position⟩ :: (vs ++ rest)) := by
    refine endsBefore_operator ?_ position _
    rcases ho with rfl | rfl <;> exact nofun
  obtain ⟨last, hl⟩ := hl us _ hls hnext
  obtain ⟨last', hr⟩ := hr vs rest hrs hrest
  refine ⟨last', ?_⟩
  rw [List.append_assoc, List.cons_append, hl, report_productTail_cons g ho, hr]
  rfl

/-- A power starts with an operand and not with a sign. -/
theorem exists_startsOperand {ls : List Lexeme} {t : Tree String} (h : Derives g .power ls t) :
    ∃ l rest, ls = l :: rest ∧ l.startsOperand := by
  have hprimary : ∀ {ls t}, Derives g .primary ls t →
      ∃ l rest, ls = l :: rest ∧ l.startsOperand := by
    intro ls t h
    cases h <;> exact ⟨_, _, rfl, rfl⟩
  cases h with
  | primary h => exact hprimary h
  | raising h _ =>
      obtain ⟨l, rest, rfl, hl⟩ := hprimary h
      exact ⟨l, _, rfl, hl⟩

theorem found_signed_of_power {ls : List Lexeme} {t : Tree String} (hd : Derives g .power ls t)
    (h : Found g .power ls t) : Found g .signed ls t := by
  intro us rest hus hrest
  obtain ⟨last, hr⟩ := h us rest hus (hrest.mono fun _ h => h)
  refine ⟨last, ?_⟩
  obtain ⟨l, ls, rfl, hl⟩ := exists_startsOperand hd
  obtain ⟨position, us, rfl, -⟩ := exists_of_lexemes_cons hus
  rw [report_parseSigned_of_not, hr]
  rintro _ _ ⟨⟩
  cases hl

theorem found_negation {ls : List Lexeme} {t : Tree String} (h : Found g .signed ls t) :
    Found g .signed (.operator .sub :: ls) (.negate t) := by
  intro us rest hus hrest
  obtain ⟨position, us, rfl, hls⟩ := exists_of_lexemes_cons hus
  obtain ⟨last, hr⟩ := h us rest hls hrest
  refine ⟨last, ?_⟩
  rw [List.cons_append, report_parseSigned_cons, hr]
  rfl

theorem found_power_of_primary {ls : List Lexeme} {t : Tree String} (h : Found g .primary ls t) :
    Found g .power ls t := by
  intro us rest hus hrest
  obtain ⟨last, hr⟩ := h us rest hus (hrest.mono fun _ _ => trivial)
  refine ⟨last, ?_⟩
  rw [report_parsePower, hr]
  exact powerTail_of_endsBefore hrest t last

theorem found_raising {ls rs : List Lexeme} {t u : Tree String} (hl : Found g .primary ls t)
    (hr : Found g .power rs u) :
    Found g .power (ls ++ .operator .pow :: rs) (.binary .pow t u) := by
  intro us rest hus hrest
  obtain ⟨us, vs, rfl, hls, hvs⟩ := exists_of_lexemes_append hus
  obtain ⟨position, vs, rfl, hrs⟩ := exists_of_lexemes_cons hvs
  have hnext : EndsBefore .primary (⟨.operator .pow, position⟩ :: (vs ++ rest)) :=
    ⟨nofun, fun _ _ _ _ => trivial⟩
  obtain ⟨last, hl⟩ := hl us _ hls hnext
  obtain ⟨last', hr⟩ := hr vs rest hrs hrest
  refine ⟨last', ?_⟩
  rw [List.append_assoc, List.cons_append, report_parsePower, hl]
  change report (parsePower g (vs ++ rest)) >>= _ = _
  rw [hr]
  rfl

/-- A sum before a token that ends it. -/
theorem report_parseSum_of_found {ls : List Lexeme} {t : Tree String} (h : Found g .sum ls t)
    {us rest : List Token} (hus : lexemes us = ls) (hrest : EndsBefore .sum rest) :
    ∃ last, report (parseSum g (us ++ rest)) = .ok (t, last, rest) := by
  obtain ⟨last, hr⟩ := h us rest hus (hrest.mono fun _ h => h.elim)
  exact ⟨last, hr.trans (report_sumTail_of_endsBefore hrest t last)⟩

theorem found_group {ls : List Lexeme} {t : Tree String} (h : Found g .sum ls t) :
    Found g .primary (.leftParen :: (ls ++ [.rightParen])) t := by
  intro us rest hus hrest
  obtain ⟨position, us, rfl, hbody⟩ := exists_of_lexemes_cons hus
  obtain ⟨us, vs, rfl, hls, hvs⟩ := exists_of_lexemes_append hbody
  obtain ⟨position', vs, rfl, hnil⟩ := exists_of_lexemes_cons hvs
  obtain rfl : vs = [] := List.map_eq_nil_iff.mp hnil
  obtain ⟨last, hr⟩ := report_parseSum_of_found h hls
    (endsBefore_other (l := .rightParen) nofun nofun position' rest)
  refine ⟨⟨.rightParen, position'⟩, ?_⟩
  rw [List.cons_append, report_parsePrimary_group, List.append_assoc]
  change report (parseSum g (us ++ ⟨.rightParen, position'⟩ :: rest)) >>= _ = _
  rw [hr]
  rfl

theorem found_name {name : String} {t : Tree String}
    (h : ∀ position, nameTree g.names name position = .ok t) : Found g .primary [.name name] t := by
  intro us rest hus hrest
  obtain ⟨position, us, rfl, hnil⟩ := exists_of_lexemes_cons hus
  obtain rfl : us = [] := List.map_eq_nil_iff.mp hnil
  refine ⟨⟨.name name, position⟩, ?_⟩
  rw [List.cons_append, List.nil_append, report_parsePrimary_name g name position hrest.uncalled, h]
  rfl

theorem endsBefore_arguments {args : List (List Lexeme × Tree String)} {us : List Token}
    (hus : lexemes us = args.flatMap fun arg => .comma :: arg.1) (position : Nat)
    (rest : List Token) : EndsBefore .sum (us ++ ⟨.rightParen, position⟩ :: rest) := by
  cases args with
  | nil =>
      obtain rfl : us = [] := List.map_eq_nil_iff.mp hus
      exact endsBefore_other (l := .rightParen) nofun nofun position rest
  | cons arg args =>
      obtain ⟨comma, us, rfl, -⟩ := exists_of_lexemes_cons hus
      exact endsBefore_other (l := .comma) nofun nofun comma _

/-- Further arguments, each after its comma. -/
theorem found_arguments {args : List (List Lexeme × Tree String)}
    (h : ∀ arg ∈ args, Found g .sum arg.1 arg.2) (values : List (Tree String)) (last : Token)
    {us : List Token} (hus : lexemes us = args.flatMap fun arg => .comma :: arg.1) (position : Nat)
    (rest : List Token) :
    ∃ last', report (argsTail g values last (us ++ ⟨.rightParen, position⟩ :: rest)) =
      .ok (values ++ args.map Prod.snd, last', ⟨.rightParen, position⟩ :: rest) := by
  induction args generalizing values last us with
  | nil =>
      obtain rfl : us = [] := List.map_eq_nil_iff.mp hus
      refine ⟨last, ?_⟩
      rw [List.nil_append, report_argsTail_of_not g values last (by rintro _ _ ⟨⟩)]
      simp
  | cons arg args ih =>
      obtain ⟨ws, vs, rfl, hws, hvs⟩ := exists_of_lexemes_append hus
      obtain ⟨comma, us, rfl, hls⟩ := exists_of_lexemes_cons hws
      obtain ⟨last₁, hfirst⟩ := report_parseSum_of_found (h arg (by simp)) hls
        (endsBefore_arguments hvs position rest)
      obtain ⟨last₂, hmore⟩ :=
        ih (fun arg harg => h arg (by simp [harg])) (values ++ [arg.2]) last₁ hvs
      refine ⟨last₂, ?_⟩
      rw [List.append_assoc, List.cons_append, report_argsTail_cons, hfirst]
      change report (argsTail g (values ++ [arg.2]) last₁ _) = _
      rw [hmore]
      simp

theorem found_call {name : String} {f : Function} {args : List (List Lexeme × Tree String)}
    (hf : Function.ofName? name = some f) (hne : args ≠ []) (hadmits : g.admits f args.length)
    (h : ∀ arg ∈ args, Found g .sum arg.1 arg.2) :
    Found g .primary
      (.name name :: .leftParen :: (separated (args.map Prod.fst) ++ [.rightParen]))
      (.call f (args.map Prod.snd)) := by
  intro us rest hus hrest
  obtain ⟨position, us, rfl, hcall⟩ := exists_of_lexemes_cons hus
  obtain ⟨position', us, rfl, hbody⟩ := exists_of_lexemes_cons hcall
  obtain ⟨us, ws, rfl, hargs, hws⟩ := exists_of_lexemes_append hbody
  obtain ⟨position'', ws, rfl, hnil⟩ := exists_of_lexemes_cons hws
  obtain rfl : ws = [] := List.map_eq_nil_iff.mp hnil
  obtain ⟨arg, args, rfl⟩ := List.exists_cons_of_ne_nil hne
  rw [List.map_cons, separated_cons, List.flatMap_map] at hargs
  obtain ⟨us, vs, rfl, hls, hvs⟩ := exists_of_lexemes_append hargs
  obtain ⟨last₁, hfirst⟩ := report_parseSum_of_found (h arg (by simp)) hls
    (endsBefore_arguments hvs position'' rest)
  obtain ⟨last₂, hmore⟩ := found_arguments (fun arg harg => h arg (by simp [harg])) [arg.2] last₁
    hvs position'' rest
  refine ⟨⟨.rightParen, position''⟩, ?_⟩
  have happend : (⟨.name name, position⟩ : Token) :: ⟨.leftParen, position'⟩ ::
      (us ++ vs ++ [⟨.rightParen, position''⟩]) ++ rest = ⟨.name name, position⟩ ::
      ⟨.leftParen, position'⟩ :: (us ++ (vs ++ ⟨.rightParen, position''⟩ :: rest)) := by simp
  rw [happend, report_parsePrimary_call g hf, hfirst]
  change report (argsTail g [arg.2] last₁ _) >>= closed >>= called g f name position = _
  rw [hmore, bind_assoc]
  change called g f name position (arg.2 :: args.map Prod.snd, _, rest) = _
  simp only [called, List.length_cons, List.length_map] at hadmits ⊢
  rw [if_pos hadmits]
  rfl

/-- Whatever derives a tree is read as that tree. -/
theorem found {level : Level} {ls : List Lexeme} {t : Tree String} (h : Derives g level ls t) :
    Found g level ls t := by
  induction h with
  | product _ ih => exact found_sum_of_product ih
  | addition ho _ _ ihl ihr => exact found_addition ho ihl ihr
  | signed _ ih => exact found_product_of_signed ih
  | multiplication ho _ _ ihl ihr => exact found_multiplication ho ihl ihr
  | power hd ih => exact found_signed_of_power hd ih
  | negation _ ih => exact found_negation ih
  | primary _ ih => exact found_power_of_primary ih
  | raising _ _ ihl ihr => exact found_raising ihl ihr
  | @number text =>
      intro us rest hus _
      obtain ⟨position, us, rfl, hnil⟩ := exists_of_lexemes_cons hus
      obtain rfl : us = [] := List.map_eq_nil_iff.mp hnil
      exact ⟨_, report_parsePrimary_number g text position rest⟩
  | group _ ih => exact found_group ih
  | symbol hname => exact found_name fun position => by simp [nameTree, hname]
  | constant hname hc => exact found_name fun position => by simp [nameTree, hname, hc]
  | call args hf hne hadmits _ ih => exact found_call hf hne hadmits ih

/-! ## The parser and its grammar -/

theorem parseAll_eq_ok_iff (ts : List Token) (t : Tree String) :
    parseAll g ts = .ok t ↔ Derives g .sum (lexemes ts) t := by
  rw [parseAll_eq]
  constructor
  · intro h
    obtain ⟨⟨u, last, rest⟩, hsum, hdone⟩ := exists_of_bind h
    obtain ⟨us, rfl, hd⟩ := (reads_descent g).1 ts _ _ _ hsum
    cases rest with
    | nil =>
        cases hdone
        simpa using hd
    | cons _ _ => cases hdone
  · intro h
    have hend : EndsBefore .sum [] := ⟨nofun, nofun⟩
    obtain ⟨last, hsum⟩ := report_parseSum_of_found (found h) rfl hend
    rw [List.append_nil] at hsum
    rw [hsum]
    rfl

/-- **The parser returns a tree exactly if the whole token list derives it**, and so no token list
derives two trees. -/
theorem parse_eq_ok_iff_derives (names : List String) (ts : List Token) :
    (∀ t, parse names ts = .ok t ↔ Derives (.ofNames names) .sum (lexemes ts) t) ∧
      ∀ t u, Derives (.ofNames names) .sum (lexemes ts) t →
        Derives (.ofNames names) .sum (lexemes ts) u → t = u := by
  refine ⟨parseAll_eq_ok_iff ts, ?_⟩
  intro t u ht hu
  have h := ((parseAll_eq_ok_iff ts t).mpr ht).symm.trans ((parseAll_eq_ok_iff ts u).mpr hu)
  exact Except.ok.inj h

end PhasePortrait.Formula
