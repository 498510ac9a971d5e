import PhasePortrait.Proofs.Evaluation.Poison
import PhasePortrait.Proofs.Evaluation.Shielding
import PhasePortrait.Proofs.Terms.Factors

/-!
# Trees whose value a line keeps

The line that a tree is compiled to puts the same operations in another order: terms and factors are
sorted, and signs move. With exact signs and commutative sums and products that makes no difference. It
does where factors are put together anew, in a product that stands behind a sign: a factor that is a
product itself is opened up, and a number is combined with what follows it. In all other trees the line
arrives at the value of the tree, or stops.

## Main definitions

* `SignLaws α` — signs are exact, sums and products commute.
* `Tree.Kept symbols s t` — no factors are put together anew in the tree `t`, behind a sign if `s` holds.
* `Line.Comes b t v` — the line `t` arrives at `v`, if it arrives at all.
-/
namespace PhasePortrait
open Scalar

/-- Signs are exact, and sums and products do not depend on an order. -/
structure SignLaws (α : Type) [Scalar α] : Prop where
  neg_neg (x : α) : - -x = x
  neg_mul (x y : α) : -x * y = -(x * y)
  neg_div (x y : α) : -x / y = -(x / y)
  sub_eq (x y : α) : x - y = x + -y
  add_comm (x y : α) : x + y = y + x
  mul_comm (x y : α) : x * y = y * x

variable {α : Type} [Elementary α] {b : Bindings α}

theorem Operator.ne_pow {o : Operator} (ho : o = .mul ∨ o = .div) : o ≠ .pow := by
  obtain rfl | rfl := ho
  · exact Operator.noConfusion
  · exact Operator.noConfusion

/-- The sign of a product or quotient is that of its first operand. -/
theorem SignLaws.operate_neg (signs : SignLaws α) {o : Operator} (ho : o = .mul ∨ o = .div) (v w : α) :
    Tree.operate o (-v) w = -Tree.operate o v w := by
  obtain rfl | rfl := ho
  · exact signs.neg_mul v w
  · exact signs.neg_div v w

/-! ## Lines with a value -/

namespace Line

variable {x y : Line Decimal} {v w : α}

/-- The line arrives at a number `v` that is no whole operand, if it arrives at all. -/
def Comes (b : Bindings α) (t : Line Decimal) (v : α) : Prop :=
  ∀ z, (t.map ofDecimal).eval b = .ok z → z.whole = false ∧ z.value = v

theorem comes_literal (d : Decimal) : (literal d).Comes b (ofDecimal d) := by
  rintro _ ⟨⟩
  exact ⟨rfl, rfl⟩

theorem comes_symbol {s : Symbol} (h : (b.value s).whole = false) :
    (symbol s).Comes b (b.value s).value := by
  rintro _ ⟨⟩
  exact ⟨h, rfl⟩

theorem comes_constant {c : Constant} (h : b.lookup (.named c.name) = none) :
    (constant c).Comes b c.value := by
  intro z hz
  obtain rfl := Except.ok.inj hz
  rw [Bindings.constant, h]
  exact ⟨rfl, rfl⟩

theorem Comes.negate (h : x.Comes b v) : x.negate.Comes b (-v) := by
  intro z hz
  obtain ⟨y, hy, hz⟩ := exists_of_bind hz
  obtain rfl := Except.ok.inj hz
  obtain ⟨hwhole, rfl⟩ := h y hy
  rw [Operand.negate, hwhole]
  exact ⟨rfl, rfl⟩

theorem Comes.binary {o : Operator} (ho : o ≠ .pow) (hx : x.Comes b v) (hy : y.Comes b w) :
    (binary o x y).Comes b (Tree.operate o v w) := by
  intro z hz
  obtain ⟨p, hp, hz⟩ := exists_of_bind hz
  obtain ⟨q, hq, hz⟩ := exists_of_bind hz
  obtain ⟨hpwhole, rfl⟩ := hx p hp
  obtain ⟨hqwhole, rfl⟩ := hy q hq
  cases o with
  | add | sub | mul =>
    obtain rfl := Except.ok.inj hz
    rw [Operand.arithmetic, hpwhole]
    exact ⟨rfl, rfl⟩
  | div =>
    obtain rfl := Operand.eq_of_divide hz
    exact ⟨rfl, rfl⟩
  | pow => exact absurd rfl ho

/-- Arguments with values come to operands with these values, none of which is whole. -/
theorem values_of_evalAll {ts : List (Line Decimal)} {vs : List α} {xs : List (Operand α)}
    (h : List.Forall₂ (fun t v => Comes b t v) ts vs)
    (hxs : evalAll b (mapAll ofDecimal ts) = .ok xs) :
    xs.map Operand.value = vs ∧ (ts ≠ [] → xs.all Operand.whole = false) := by
  have hreached := forall₂_of_evalAll hxs
  clear hxs
  induction hreached generalizing vs with
  | nil =>
    cases h
    exact ⟨rfl, fun h => absurd rfl h⟩
  | cons hx _ ih =>
    cases h with
    | cons hv hvs =>
      obtain ⟨hwhole, rfl⟩ := hv _ hx
      rw [List.map_cons, (ih hvs).1, List.all_cons, hwhole]
      exact ⟨rfl, fun _ => rfl⟩

theorem comes_call (f : Function) {ts : List (Line Decimal)} {vs : List α} (hne : ts ≠ [])
    (h : List.Forall₂ (fun t v => Comes b t v) ts vs) : (call f ts).Comes b (f.apply vs) := by
  intro z hz
  obtain ⟨xs, hxs, hz⟩ := exists_of_bind hz
  obtain ⟨hvalues, hwhole⟩ := values_of_evalAll h hxs
  unfold Bindings.call at hz
  split at hz
  · cases hz
  · obtain rfl := Except.ok.inj hz
    rw [hvalues, hwhole hne, Bool.and_false]
    exact ⟨rfl, rfl⟩

end Line

/-! ## Runs with a value -/

namespace Run

/-- A run of one or two operands with a value. -/
inductive Gives (b : Bindings α) : Run → α → Prop where
  | operand {negative : Bool} {x : Line Decimal} {v : α} (hx : x.Comes b v) :
    Gives b ⟨negative, x, []⟩ (if negative then -v else v)
  | pair {negative : Bool} {o : Operator} {x y : Line Decimal} {v w : α} (ho : o = .mul ∨ o = .div)
    (hx : x.Comes b v) (hy : y.Comes b w) :
    Gives b ⟨negative, x, [(o, y)]⟩ (if negative then -(Tree.operate o v w) else Tree.operate o v w)

variable {r : Run} {v : α}

theorem Gives.unsigned (h : r.Gives b v) :
    ∃ w, r.unsigned.Comes b w ∧ v = if r.negative then -w else w := by
  cases h with
  | operand hx => exact ⟨_, hx, rfl⟩
  | pair ho hx hy =>
    exact ⟨_, hx.binary (Operator.ne_pow ho) hy, rfl⟩

theorem Gives.line (signs : SignLaws α) (h : r.Gives b v) : r.line.Comes b v := by
  cases h with
  | @operand negative x v hx =>
    cases negative with
    | false => exact hx
    | true => exact hx.negate
  | @pair negative o x y v w ho hx hy =>
    cases negative with
    | false => exact hx.binary (Operator.ne_pow ho) hy
    | true =>
      show Line.Comes b (.binary o x.negate y) (-Tree.operate o v w)
      rw [← signs.operate_neg ho]
      exact hx.negate.binary (Operator.ne_pow ho) hy

theorem gives_ofLine {x : Line Decimal} (h : x.Comes b v) : (ofLine x).Gives b v :=
  .operand h

/-- A sign of the second run makes a difference of a sum. -/
theorem comes_joined (signs : SignLaws α) {r' : Run} {w : α} (h : r.Gives b v) (h' : r'.Gives b w) :
    (joined [r, r']).Comes b (v + w) := by
  obtain ⟨u, hu, rfl⟩ := h'.unsigned
  cases hnegative : r'.negative with
  | false =>
    show Line.Comes b (.binary (if r'.negative then .sub else .add) r.line r'.unsigned) _
    rw [hnegative]
    exact (h.line signs).binary Operator.noConfusion hu
  | true =>
    show Line.Comes b (.binary (if r'.negative then .sub else .add) r.line r'.unsigned) _
    rw [hnegative, if_pos rfl, if_pos rfl, ← signs.sub_eq]
    exact (h.line signs).binary Operator.noConfusion hu

end Run

/-! ## Trees with a value -/

namespace Tree

/-- The number that a text is compiled to. -/
def literal (text : String) : α := ofDecimal (Approx.ofText text).toDecimal

/-- The value of a tree over bindings, worked off as it stands. -/
def valueOver (b : Bindings α) (t : Tree String) : α :=
  (t.map literal).value fun name => (b.value (.named name)).value

/-- The value of a tree behind a sign, if `s` holds. -/
def signedValue (b : Bindings α) (s : Bool) (t : Tree String) : α :=
  if s then -valueOver b t else valueOver b t

/-- Whether the product of `l` and `r` does not combine a negative number with `r`. -/
def Uncombined (s : Bool) (o : Operator) (l r : Tree String) : Prop :=
  Term.leadsNegative s l = true → l.numeral? = none ∨ Term.staysApart o r

/-- Whether the product with a first factor `l` does not open up the factor `f`. -/
def Unopened (s : Bool) (o : Operator) (l : Tree String) (f : Term) : Prop :=
  Term.leadsNegative s l = true → o = .mul → f.binding ≠ .product

/-- Trees that are compiled to a line with their value, behind a sign if `s` holds: no number is a
negative zero, no declared name takes the place of a constant, and no product behind a sign combines
its number or opens up its factors. -/
inductive Kept (symbols : List Symbol) : Bool → Tree String → Prop where
  | number {s : Bool} (text : String) (h : s = true → (Approx.ofText text).mantissa ≠ 0) :
    Kept symbols s (.number text)
  | symbol {s : Bool} (name : String) : Kept symbols s (.symbol name)
  | constant {s : Bool} (c : Constant) (h : .named c.name ∉ symbols) : Kept symbols s (.constant c)
  | negate {s : Bool} {t : Tree String} (h : Kept symbols (!s) t) : Kept symbols s (.negate t)
  | sum {s : Bool} {o : Operator} {l r : Tree String} (ho : o = .add ∨ o = .sub)
    (hl : Kept symbols false l) (hr : Kept symbols (o == .sub) r) : Kept symbols s (.binary o l r)
  | power {s : Bool} {l r : Tree String} (hl : Kept symbols false l) (hr : Kept symbols false r) :
    Kept symbols s (.binary .pow l r)
  | product {s : Bool} {o : Operator} {l r : Tree String} (ho : o = .mul ∨ o = .div)
    (hl : Kept symbols (l.numeral?.isSome && s) l) (hr : Kept symbols false r)
    (hcombined : Uncombined s o l r) (hfirst : Unopened s o l (Term.firstFactor l))
    (hother : Unopened s o l (Term.ofTree .compiled r)) : Kept symbols s (.binary o l r)
  | call {s : Bool} (f : Function) {args : List (Tree String)} (hne : args ≠ [])
    (h : ∀ t ∈ args, Kept symbols false t) : Kept symbols s (.call f args)

theorem valueOver_call (b : Bindings α) (f : Function) (args : List (Tree String)) :
    valueOver b (.call f args) = f.apply (args.map (valueOver b)) := by
  show f.apply (valueAll _ (mapAll literal args)) = _
  congr 1
  induction args with
  | nil => rfl
  | cons t args ih => exact congrArg (_ :: ·) ih

theorem signedValue_negate (signs : SignLaws α) (s : Bool) (t : Tree String) :
    signedValue b s (.negate t) = signedValue b (!s) t := by
  cases s with
  | false => rfl
  | true => exact signs.neg_neg _

end Tree

namespace Term

variable {keyOf : Term → Key} {s : Bool} {t l r : Tree String} {depth : Nat}

theorem ofTrees_eq_map (style : Style) (ts : List (Tree String)) :
    ofTrees style ts = ts.map (ofTree style) := by
  induction ts with
  | nil => rfl
  | cons t ts ih => rw [ofTrees, ih, List.map_cons]

theorem writtenTerms_perm (keyOf : Term → Key) (ts : List Term) : (writtenTerms keyOf ts).Perm ts := by
  have hexponents : (byExponents keyOf ts).Perm ts := by
    unfold byExponents
    refine ((perm_sortBy _ _).map Summand.term).trans ?_
    rw [List.map_map]
    exact .of_eq (List.map_id ts)
  unfold writtenTerms
  split
  · next a b heq =>
    split
    · rw [← heq]
      exact List.filter_append_perm _ _
    · exact hexponents
  · exact hexponents

/-- A sum is written as the runs of its terms; those of sums are closed. -/
theorem exists_run_sum (keyOf : Term → Key) (depth : Nat) (ts : List Term) : ∃ summand : Term → Run,
    run keyOf (depth + 1) (sum ts) = .ofLine (Run.joined ((writtenTerms keyOf ts).map summand)) ∧
      ∀ t, summand t = run keyOf depth t ∨ summand t = .ofLine (run keyOf depth t).line := by
  refine ⟨_, rfl, fun t => ?_⟩
  cases t with
  | sum us => exact .inr rfl
  | _ => exact .inl rfl

/-- Two terms are added up in either order. -/
theorem comes_sum (signs : SignLaws α) {f g : Term} {v w : α} (hf : (run keyOf depth f).Gives b v)
    (hg : (run keyOf depth g).Gives b w) {x : Line Decimal}
    (hx : run keyOf (depth + 1) (sum [f, g]) = .ofLine x) : x.Comes b (v + w) := by
  obtain ⟨summand, hrun, hsummand⟩ := exists_run_sum keyOf depth [f, g]
  have hgives : ∀ {t : Term} {v : α}, (run keyOf depth t).Gives b v → (summand t).Gives b v := by
    intro t v h
    obtain heq | heq := hsummand t
    · rwa [heq]
    · rw [heq]
      exact Run.gives_ofLine (h.line signs)
  obtain rfl := congrArg Run.first (hx.symm.trans hrun)
  obtain h | h := List.perm_pair.mp (writtenTerms_perm keyOf [f, g])
  · rw [h]
    exact Run.comes_joined signs (hgives hf) (hgives hg)
  · rw [h, signs.add_comm]
    exact Run.comes_joined signs (hgives hg) (hgives hf)

/-- A number behind a sign is written with one, unless it is zero. -/
theorem gives_number {text : String} (h : s = true → (Approx.ofText text).mantissa ≠ 0)
    (hdepth : 0 < depth) : (run keyOf depth (number (.approx (.ofSigned s text)))).Gives b
      (if s then -Tree.literal text else Tree.literal text) := by
  obtain ⟨depth, rfl⟩ := Nat.exists_eq_add_one_of_ne_zero hdepth.ne'
  have hsign : (Approx.ofSigned s text).isNegative = s := by
    rw [Approx.isNegative_ofSigned]
    cases s with
    | false => rfl
    | true => exact bne_iff_ne.mpr (h rfl)
  have hdecimal : (Approx.ofSigned s text).toDecimal = (Approx.ofText text).toDecimal := by
    cases s with
    | false => rfl
    | true => simp [Approx.ofSigned, Approx.toDecimal, Approx.neg, Approx.magnitude]
  show Run.Gives b ⟨(Approx.ofSigned s text).isNegative,
    .literal (Approx.ofSigned s text).toDecimal, []⟩ _
  rw [hsign, hdecimal]
  exact .operand (Line.comes_literal _)

theorem gives_of_plain (hplain : (ofTree .compiled t).isPlain = true)
    (h : ∀ depth x, (ofTree .compiled t).depth ≤ depth + 1 →
      run keyOf (depth + 1) (ofTree .compiled t) = .ofLine x → x.Comes b (t.valueOver b))
    (hdepth : (signed s t).depth ≤ depth) :
    (run keyOf depth (signed s t)).Gives b (t.signedValue b s) := by
  obtain ⟨d, x, hd, hx, hrun⟩ := exists_run_signed keyOf hplain hdepth
  rw [hrun]
  exact .operand (h d x hd hx)

/-- A product that neither combines its number nor opens up its factors is the product of what these
are written as. -/
theorem gives_product (signs : SignLaws α) {o : Operator} (ho : o = .mul ∨ o = .div)
    (hcombined : Tree.Uncombined s o l r) (hfirst : Tree.Unopened s o l (firstFactor l))
    (hother : Tree.Unopened s o l (ofTree .compiled r)) {v w : α}
    (hv : (run keyOf depth (firstFactor l)).Gives b v)
    (hw : (run keyOf depth (ofTree .compiled r)).Gives b w) :
    (run keyOf (depth + 1) (signed s (.binary o l r))).Gives b
      (if leadsNegative s l then -(Tree.operate o v w) else Tree.operate o v w) := by
  have hsplits := splits_signed keyOf ho hcombined
  rw [run]
  obtain rfl | rfl := ho
  · have hentries : ∀ f : Term, Tree.Unopened s .mul l f →
        entries (run keyOf depth) (if leadsNegative s l then .sum else .product) f =
          [(.mul, (run keyOf depth f).line)] := by
      refine fun f hf => entries_eq fun hproduct => ?_
      cases hnegative : leadsNegative s l with
      | false => exact le_rfl
      | true => exact absurd hproduct (hf hnegative rfl)
    rw [show otherFactor .mul r = ofTree .compiled r from rfl] at hsplits
    obtain h | h := runWith_of_mul (run keyOf depth) hsplits (divisor?_firstFactor l)
      (divisor?_ofTree r) rfl
    · rw [h, hentries _ hfirst, hentries _ hother]
      exact .pair (.inl rfl) (hv.line signs) (hw.line signs)
    · rw [h, hentries _ hfirst, hentries _ hother]
      have hcomm : Tree.operate .mul v w = Tree.operate .mul w v := signs.mul_comm v w
      rw [hcomm]
      exact .pair (.inl rfl) (hw.line signs) (hv.line signs)
  · rw [runWith_of_div (run keyOf depth) hsplits (divisor?_firstFactor l) rfl, entries_eq]
    · exact .pair (.inr rfl) (hv.line signs) (hw.line signs)
    · intro _
      cases leadsNegative s l with
      | false => decide
      | true => decide

/-! ## Numbers that products begin with -/

theorem valueOver_of_numeral (signs : SignLaws α) : ∀ {t : Tree String} {n : Bool × String},
    t.numeral? = some n → t.valueOver b = if n.1 then -Tree.literal n.2 else Tree.literal n.2
  | .number _, _, h => by
    cases h
    rfl
  | .negate t, _, h => by
    obtain ⟨n, ht, rfl⟩ := Option.map_eq_some_iff.mp h
    have hvalue : (Tree.negate t).valueOver b = -t.valueOver b := rfl
    rw [hvalue, valueOver_of_numeral signs ht]
    cases n.1 with
    | false => rfl
    | true => exact signs.neg_neg _
  | .symbol _, _, h | .constant _, _, h | .binary _ _ _, _, h | .call _ _, _, h => by
    cases h

/-- A number that is kept is no negative zero. -/
theorem mantissa_of_kept {symbols : List Symbol} (h : t.Kept symbols s) {n : Bool × String}
    (hn : t.numeral? = some n) (hs : (s ^^ n.1) = true) : (Approx.ofText n.2).mantissa ≠ 0 := by
  induction h generalizing n with
  | number text h =>
    cases hn
    exact h (by simpa using hs)
  | negate h ih =>
    obtain ⟨m, ht, rfl⟩ := Option.map_eq_some_iff.mp hn
    have hmantissa := ih ht (by rwa [Bool.not_xor, ← Bool.xor_not])
    exact hmantissa
  | _ => cases hn

/-- The sign in front of a product and its first factor make up its value. -/
theorem signedValue_product (keyOf : Term → Key) (depth : Nat) (signs : SignLaws α)
    {symbols : List Symbol} {o : Operator} (ho : o = .mul ∨ o = .div)
    (hl : l.Kept symbols (l.numeral?.isSome && s)) (hdepth : (firstFactor l).depth ≤ depth)
    (ih : l.numeral? = none → (run keyOf depth (ofTree .compiled l)).Gives b (l.valueOver b)) :
    ∃ v : α, (run keyOf depth (firstFactor l)).Gives b v ∧ ∀ r : Tree String,
      (Tree.binary o l r).signedValue b s =
        if leadsNegative s l then -(Tree.operate o v (r.valueOver b))
        else Tree.operate o v (r.valueOver b) := by
  cases hnumeral : l.numeral? with
  | none =>
    refine ⟨l.valueOver b, ?_, fun r => ?_⟩
    · rw [firstFactor_of_none hnumeral]
      exact ih hnumeral
    · rw [leadsNegative_of_none s hnumeral]
      rfl
  | some n =>
    refine ⟨Tree.literal n.2, ?_, fun r => ?_⟩
    · rw [firstFactor_of_some hnumeral] at hdepth ⊢
      exact gives_number (s := false) (fun h => absurd h Bool.false_ne_true) hdepth
    · rw [hnumeral] at hl
      have hsign : leadsNegative s l = (s ^^ n.1) := by
        rw [leadsNegative_of_some s hnumeral]
        cases hodd : (s ^^ n.1) with
        | false => rfl
        | true => exact bne_iff_ne.mpr (mantissa_of_kept hl hnumeral hodd)
      have hvalue : (Tree.binary o l r).valueOver b =
          if n.1 then -(Tree.operate o (Tree.literal n.2) (r.valueOver b))
          else Tree.operate o (Tree.literal n.2) (r.valueOver b) := by
        have hoperate : (Tree.binary o l r).valueOver b =
            Tree.operate o (l.valueOver b) (r.valueOver b) := rfl
        rw [hoperate, valueOver_of_numeral signs hnumeral]
        cases n.1 with
        | false => rfl
        | true => exact signs.operate_neg ho _ _
      rw [hsign, Tree.signedValue, hvalue]
      cases s with
      | false => simp
      | true =>
        cases n.1 with
        | false => rfl
        | true => exact signs.neg_neg _

/-! ## Trees that are kept -/

section
variable {symbols : List Symbol} (signs : SignLaws α) (hwhole : ∀ s, (b.value s).whole = false)
  (hsymbols : ∀ s, s ∉ symbols → b.lookup s = none)
include signs hwhole hsymbols

/-- **A tree that is kept is compiled to a line with its value.** -/
theorem gives_of_kept (h : t.Kept symbols s) (hdepth : (signed s t).depth ≤ depth) :
    (run keyOf depth (signed s t)).Gives b (t.signedValue b s) := by
  induction h generalizing depth with
  | @number s text h =>
    have hsigned : signed s (.number text) = number (.approx (.ofSigned s text)) := by
      cases s
      · rfl
      · rfl
    rw [hsigned] at hdepth ⊢
    exact gives_number h hdepth
  | symbol name =>
    refine gives_of_plain rfl (fun depth x _ hx => ?_) hdepth
    obtain rfl := congrArg Run.first hx
    exact Line.comes_symbol (hwhole _)
  | constant c h =>
    refine gives_of_plain rfl (fun depth x _ hx => ?_) hdepth
    obtain rfl := congrArg Run.first hx
    exact Line.comes_constant (hsymbols _ h)
  | negate h ih =>
    rw [signed_negate] at hdepth ⊢
    rw [Tree.signedValue_negate signs]
    exact ih hdepth
  | @sum s o l r ho _ _ ihl ihr =>
    have hsum := ofTree_sum (l := l) (r := r) ho
    refine gives_of_plain (by rw [hsum]; rfl) (fun depth x hle hx => ?_) hdepth
    rw [hsum] at hle hx
    replace hle : max (ofTree .compiled l).depth (max (signed (o == .sub) r).depth 0) + 1 ≤ depth + 1 :=
      hle
    have hvalue : (Tree.binary o l r).valueOver b = l.valueOver b + r.signedValue b (o == .sub) := by
      obtain rfl | rfl := ho
      · rfl
      · exact signs.sub_eq _ _
    rw [hvalue]
    exact comes_sum signs (ihl (show (ofTree .compiled l).depth ≤ depth by omega)) (ihr (by omega)) hx
  | @power s l r _ _ ihl ihr =>
    refine gives_of_plain rfl (fun depth x hle hx => ?_) hdepth
    replace hle : max (ofTree .compiled l).depth (max (ofTree .compiled r).depth 0) + 1 ≤ depth + 1 :=
      hle
    obtain rfl := congrArg Run.first hx
    have hl := ihl (show (ofTree .compiled l).depth ≤ depth by omega)
    have hr := ihr (show (ofTree .compiled r).depth ≤ depth by omega)
    exact Line.comes_call .pow (List.cons_ne_nil _ _)
      (.cons (hl.line signs) (.cons (hr.line signs) .nil))
  | @product s o l r ho hl _ hcombined hfirst hother ihl ihr =>
    obtain ⟨depth, rfl, hfirstDepth, hotherDepth⟩ := exists_depth ho hdepth
    obtain ⟨v, hv, hvalue⟩ := signedValue_product keyOf depth signs ho hl hfirstDepth
      fun hnumeral => by
        rw [hnumeral] at ihl
        rw [firstFactor_of_none hnumeral] at hfirstDepth
        exact ihl hfirstDepth
    rw [hvalue]
    exact gives_product signs ho hcombined hfirst hother hv (ihr hotherDepth)
  | @call s f args hne _ ih =>
    refine gives_of_plain rfl (fun depth x hle hx => ?_) hdepth
    replace hle : depthAll (ofTrees .compiled args) + 1 ≤ depth + 1 := hle
    obtain rfl := congrArg Run.first hx
    rw [ofTrees_eq_map] at hle
    rw [Tree.valueOver_call]
    refine Line.comes_call f ?_ ?_
    · simpa [ofTrees_eq_map] using hne
    · rw [ofTrees_eq_map, List.map_map, List.forall₂_map_left_iff, List.forall₂_map_right_iff,
        List.forall₂_same]
      intro t ht
      have hle := depth_le_depthAll (List.mem_map_of_mem (f := ofTree .compiled) ht)
      exact (ih t ht (show (ofTree .compiled t).depth ≤ depth by omega)).line signs

end

end Term

end PhasePortrait
