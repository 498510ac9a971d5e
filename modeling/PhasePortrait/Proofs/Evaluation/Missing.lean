import PhasePortrait.Number.Double
import PhasePortrait.Proofs.Evaluation.Nodes
import PhasePortrait.Proofs.Flow.Decoupling
import PhasePortrait.Proofs.Number.Functions

/-!
# Missing numbers

A part of a formula that comes to no number leaves the formula without a value: arithmetic and functions
hand it on to the parts around it, up to a power, which may forget it. What an equation works off is not
its tree, though, but the line of that tree, and behind a minus sign a line puts the factors of a product
together anew. There a part may drop out, as `a` does from `-2/(a*X/a)`, and a product that overflows may
no longer do so. The way from the part up to the line is therefore made of two: in the tree to a node that
is an operand of the line, and from there on in the line.

## Main definitions

* `Tree.Feeds w t` — no power stands above the node `w` of the tree `t`.
-/
namespace PhasePortrait
open Scalar

/-! ## The way through the tree -/

namespace Tree

/-- The node `w` has no power above it in a tree, which takes it up by arithmetic and functions alone. -/
inductive Feeds (w : Tree String) : Tree String → Prop where
  | refl : Feeds w w
  | negate {t : Tree String} (h : Feeds w t) : Feeds w (.negate t)
  | left {o : Operator} {l r : Tree String} (ho : o ≠ .pow) (h : Feeds w l) : Feeds w (.binary o l r)
  | right {o : Operator} {l r : Tree String} (ho : o ≠ .pow) (h : Feeds w r) : Feeds w (.binary o l r)
  | argument {f : Function} {args : List (Tree String)} {t : Tree String} (hf : f ≠ .pow) (ht : t ∈ args)
    (h : Feeds w t) : Feeds w (.call f args)

section
variable {p : Symbol → Prop} {w u t : Tree String}

theorem Feeds.within (h : w.Feeds t) (ht : t.Within p) : w.Within p := by
  induction h with
  | refl => exact ht
  | negate _ ih => exact ih ht
  | left _ _ ih => exact ih ht.2.1
  | right _ _ ih => exact ih ht.2.2
  | argument _ hmem _ ih => exact ih (allWithin_iff.mp ht.2 _ hmem)

theorem Stands.within {symbols : List Symbol} {closed s : Bool} (h : u.Stands symbols closed s t)
    (ht : t.Within p) : u.Within p := by
  induction h with
  | whole | operand => exact ht
  | closed _ ih | negate _ ih => exact ih ht
  | summand_left _ _ ih | factor_left _ _ _ _ ih => exact ih ht.2.1
  | summand_right _ _ ih | factor_right _ _ _ ih | divisor _ _ ih => exact ih ht.2.2
  | argument _ hmem _ ih => exact ih (allWithin_iff.mp ht.2 _ hmem)

end

variable {α : Type} [Elementary α] {b : Bindings α} {w t : Tree String}

theorem isNaN_operate (laws : NaNSpoils α) {o : Operator} (ho : o ≠ .pow) {x y : α}
    (h : isNaN x = true ∨ isNaN y = true) : isNaN (operate o x y) = true := by
  cases o with
  | add => exact laws.add x y h
  | sub => exact laws.sub x y h
  | mul => exact laws.mul x y h
  | div => exact laws.div x y h
  | pow => exact absurd rfl ho

/-- In the tree itself nothing but a power forgets a node without a number. -/
theorem Feeds.isNaN_valueOver (laws : NaNSpoils α) (h : w.Feeds t) (hw : isNaN (w.valueOver b) = true) :
    isNaN (t.valueOver b) = true := by
  induction h with
  | refl => exact hw
  | negate _ ih => exact laws.neg _ ih
  | left ho _ ih => exact isNaN_operate laws ho (.inl ih)
  | right ho _ ih => exact isNaN_operate laws ho (.inr ih)
  | argument hf hmem _ ih =>
    rw [valueOver_call]
    exact Function.isNaN_apply laws hf ⟨_, List.mem_map_of_mem hmem, ih⟩

/-- The value of a tree does not depend on shields. -/
theorem valueOver_of_exposes {b' : Bindings α} (h : b.Exposes b') : t.valueOver b = t.valueOver b' :=
  congrArg (value · (t.map literal)) (funext fun name => (h.getD (.named name) _).value)

end Tree

/-! ## Names in their places -/

namespace Term

theorem hideNames_of_absent {names : List String} {t : Term}
    (h : ∀ name ∈ names, Symbol.isWritable name = false → t.Within (· ≠ .named name)) :
    t.hideNames names = t := by
  have hentries : ∀ entry ∈ (Symbol.hidden names).zipIdx, t.Within (· ≠ .named entry.1.1) := by
    intro entry hentry
    obtain ⟨hmem, hwritable⟩ := Symbol.mem_hidden.mp (List.fst_mem_of_mem_zipIdx hentry)
    exact h _ (List.fst_mem_of_mem_zipIdx hmem) hwritable
  unfold hideNames
  generalize (Symbol.hidden names).zipIdx = entries at hentries
  induction entries with
  | nil => rfl
  | cons entry entries ih =>
    obtain ⟨hentry, hrest⟩ := List.forall_mem_cons.mp hentries
    obtain ⟨⟨name, position⟩, index⟩ := entry
    rw [List.foldl_cons]
    dsimp only at hentry ⊢
    rw [rename_of_absent hentry]
    exact ih hrest

end Term

namespace Symbol

/-- A name that needs no placeholder stands in its place as its identifier. -/
theorem getElem?_ofNames {names : List String} {k : Nat} {name : String} (h : names[k]? = some name)
    (hwritable : isWritable name = true) : (ofNames names)[k]? = some (named (Text.folded name)) := by
  have hvisible : (hidden names).idxOf? (name, k) = none :=
    List.idxOf?_eq_none_iff.mpr fun hmem => by
      rw [(mem_hidden.mp hmem).2] at hwritable
      cases hwritable
  unfold ofNames
  dsimp only
  rw [List.getElem?_map, List.getElem?_zipIdx, h]
  simp [hvisible]

end Symbol

namespace Formula

/-- The names in the tree of a formula are their own identifiers. -/
theorem folded_of_read {text : String} {s : Scope} {t : Tree String} (h : read text s = .ok t) :
    t.Within fun symbol => ∀ name, symbol = .named name → Text.folded name = name := by
  refine within_of_read h (fun ts hts name _ hword n heq => ?_) fun i hi n heq => ?_
  · rw [← Symbol.named.inj heq]
    exact (tokenize_eq_ok_iff.mp hts).2.folded_eq hword
  · rw [← Symbol.named.inj heq]
    have hfolded : ∀ i ∈ t.builtIns, Text.folded i = i :=
      Tree.forall_mem_builtIns (fun f => by cases f <;> decide +kernel)
        (fun c => by cases c <;> decide +kernel) t
    exact hfolded i hi

end Formula

variable {α : Type} [Elementary α]

/-! ## Bindings -/

namespace Bindings

variable {symbols : List Symbol} {operands : List (Operand α)}

omit [Elementary α] in
theorem lookup_zip_of_not_mem {s : Symbol} (h : s ∉ symbols) :
    (symbols.zip operands).lookup s = none := by
  refine List.lookup_eq_none_iff.mpr fun p hp => ?_
  exact bne_iff_ne.mpr fun heq => h (heq ▸ (List.of_mem_zip hp).1)

theorem whole_value_zip (h : ∀ x ∈ operands, x.whole = false) (s : Symbol) :
    (value (symbols.zip operands) s).whole = false := by
  unfold value
  cases hlookup : (symbols.zip operands).lookup s with
  | none => rfl
  | some x =>
    obtain ⟨before, after, heq, -⟩ := List.lookup_eq_some_iff.mp hlookup
    have hmem : (s, x) ∈ symbols.zip operands := heq ▸ by simp
    exact h x (List.of_mem_zip hmem).2

omit [Elementary α] in
/-- A symbol of its own is bound to the operand in its place. -/
theorem lookup_zip (h : symbols.Nodup) {k : Nat} {s : Symbol} {x : Operand α}
    (hs : symbols[k]? = some s) (hx : operands[k]? = some x) :
    (symbols.zip operands).lookup s = some x := by
  induction symbols generalizing operands k with
  | nil => cases hs
  | cons t symbols ih =>
    cases operands with
    | nil => cases hx
    | cons y operands =>
      obtain ⟨ht, hsymbols⟩ := List.nodup_cons.mp h
      rw [List.zip_cons_cons, List.lookup_cons]
      cases k with
      | zero =>
        obtain rfl := Option.some.inj hs
        rw [beq_self_eq_true]
        exact hx
      | succ k =>
        have hne : s ≠ t := fun heq => ht (heq ▸ List.mem_of_getElem? hs)
        rw [beq_eq_false_iff_ne.mpr hne]
        exact ih hsymbols hs hx

end Bindings

/-! ## Exact arithmetic -/

namespace PartialReal

theorem isNaN_iff {x : PartialReal} : isNaN x = true ↔ x = undefined := by
  cases x with
  | real x =>
    have hle : real x ≤ real x := le_refl x
    simp [isNaN, same, hle]
  | undefined =>
    have hle : ¬undefined ≤ undefined := id
    simp [isNaN, same, hle]

theorem strict_lift {op : ℝ → PartialReal} : Strict (lift op) := by
  intro x h
  obtain rfl := isNaN_iff.mp h
  exact isNaN_iff.mpr rfl

theorem strict₂_lift₂ {op : ℝ → ℝ → PartialReal} : Strict₂ (lift₂ op) := by
  intro x y h
  rw [isNaN_iff, isNaN_iff] at h
  rw [isNaN_iff]
  obtain rfl | rfl := h
  · rfl
  · cases x with
    | real _ | undefined => rfl

theorem not_between {r : ℝ → ℝ → Prop} {x y : PartialReal} (h : isNaN x = true ∨ isNaN y = true) :
    ¬Between r x y := by
  rw [isNaN_iff, isNaN_iff] at h
  obtain rfl | rfl := h
  · exact id
  · cases x with
    | real _ | undefined => exact id

/-- Exact arithmetic hands on what is undefined. -/
theorem nanSpoils : NaNSpoils PartialReal where
  nan := isNaN_iff.mpr rfl
  not_finite h := by
    rw [isNaN_iff.mp h]
    rfl
  not_le := not_between
  not_lt := not_between
  add := strict₂_lift₂
  sub := strict₂_lift₂
  mul := strict₂_lift₂
  div := strict₂_lift₂
  neg := strict_lift
  library := by
    simp only [List.forall_mem_cons, List.not_mem_nil, false_imp_iff, implies_true, and_true]
    refine ⟨?_, ?_, ?_, ?_, ?_, ?_, ?_, ?_, ?_, ?_, ?_, ?_, ?_, ?_, ?_, ?_⟩ <;> exact strict_lift

/-- An equation that holds of real numbers and of what is undefined. -/
theorem ext₂ {f g : PartialReal → PartialReal → PartialReal}
    (hreal : ∀ x y, f (real x) (real y) = g (real x) (real y))
    (hleft : ∀ y, f undefined y = g undefined y) (hright : ∀ x, f (real x) undefined = g (real x) undefined)
    (x y : PartialReal) : f x y = g x y := by
  cases x with
  | undefined => exact hleft y
  | real x =>
    cases y with
    | undefined => exact hright x
    | real y => exact hreal x y

theorem neg_real_div (x y : ℝ) : -real x / real y = -(real x / real y) := by
  by_cases hy : y = 0
  · have hdiv : ∀ z, real z / real y = undefined := fun z => if_pos hy
    rw [hdiv x]
    exact hdiv (-x)
  · have hdiv : ∀ z, real z / real y = real (z / y) := fun z => if_neg hy
    rw [hdiv x]
    exact (hdiv (-x)).trans (congrArg real (neg_div y x))

/-- Signs are exact in exact arithmetic. -/
theorem signLaws : SignLaws PartialReal where
  neg_neg x := by
    cases x with
    | real x => exact congrArg real (neg_neg x)
    | undefined => rfl
  neg_mul := ext₂ (fun x y => congrArg real (neg_mul x y)) (fun _ => rfl) fun _ => rfl
  neg_div := ext₂ neg_real_div (fun _ => rfl) fun _ => rfl
  sub_eq := ext₂ (fun x y => congrArg real (sub_eq_add_neg x y)) (fun _ => rfl) fun _ => rfl
  add_comm := ext₂ (fun x y => congrArg real (add_comm x y)) (fun y => by cases y <;> rfl) fun _ => rfl
  mul_comm := ext₂ (fun x y => congrArg real (mul_comm x y)) (fun y => by cases y <;> rfl) fun _ => rfl

end PartialReal

/-! ## Equations -/

namespace Equation
open Formula

variable {text : String} {s : Scope} {q : Equation α} {c : Compiled α}

/-- A valid equation has the line of the tree that its formula is read as, over different symbols. -/
theorem compiled_of_outcome (hq : ofText? text s = .ok q) (hc : q.outcome = .ok c) :
    q.scope = s ∧ read (Text.strip text) s = .ok c.tree ∧ c.line = lineOf c.tree s.names ∧
      c.symbols = Symbol.ofNames s.names ∧ (Symbol.ofNames s.names).Nodup := by
  obtain ⟨hrepeats, rfl⟩ := ofText?_eq_ok_iff.mp hq
  obtain ⟨tree, hread, hprepare⟩ := exists_of_bind hc
  obtain rfl := compiled_of_prepare hprepare
  exact ⟨rfl, hread, rfl, rfl, by_contra fun h => hrepeats ⟨⟨tree, hread⟩, h⟩⟩

/-- A node without a number leaves the equation without a value, over any operands. -/
theorem value_of_stands (laws : NaNSpoils α) (signs : SignLaws α) (hq : ofText? text s = .ok q)
    (hc : q.outcome = .ok c)
    (hnames : ∀ name ∈ s.names, Symbol.isWritable name = false → c.tree.Within (· ≠ .named name))
    {u : Tree String} (hu : u.Stands c.symbols true false c.tree) {operands : List (Operand α)}
    (hwhole : ∀ x ∈ operands, x.whole = false)
    (hnan : isNaN (u.valueOver (c.symbols.zip operands)) = true) : q.value operands = nan := by
  obtain ⟨-, -, hline, -, -⟩ := compiled_of_outcome hq hc
  have habsent : (Term.ofTree .compiled c.tree).hideNames s.names = Term.ofTree .compiled c.tree :=
    Term.hideNames_of_absent fun name hname h => Term.within_ofTree (hnames name hname h)
  rw [value_eq hc, hline, lineOf, habsent]
  refine Line.value_of_spoilt laws ?_
  have hdepth : (Term.ofTree .compiled c.tree).depth ≤ (Term.ofTree .compiled c.tree).ample := by
    unfold Term.ample
    omega
  exact (Term.spoilt_of_stands laws signs (Bindings.whole_value_zip hwhole)
    (fun _ => Bindings.lookup_zip_of_not_mem) hu hnan (s := false) hdepth).2.1

/-- A parameter that is not given is no number wherever the formula uses it. -/
theorem isNaN_of_missing (laws : NaNSpoils α) {P : List String} (hq : ofText? text (.line P) = .ok q)
    (hc : q.outcome = .ok c) {name : String} (hname : name ∈ P)
    (hwritable : Symbol.isWritable name = true)
    (hused : ∀ p : Symbol → Prop, c.tree.Within p → p (.named name)) (plain : Bool) (x : α)
    {given : List (String × α)} (hmissing : given.lookup name = none) :
    isNaN ((Tree.symbol name).valueOver (c.symbols.zip (q.lineOperands plain x given))) = true := by
  obtain ⟨hscope, hread, -, hsymbols, hnodup⟩ := compiled_of_outcome hq hc
  obtain ⟨k, hk⟩ := List.mem_iff_getElem?.mp hname
  have hplace : ("X" :: P)[k + 1]? = some name := hk
  have hsymbol : (Symbol.ofNames ("X" :: P))[k + 1]? = some (.named name) := by
    rw [Symbol.getElem?_ofNames hplace hwritable, hused _ (folded_of_read hread) name rfl]
  have hoperand : (q.lineOperands plain x given)[k + 1]? = some (.ofValue false nan) := by
    simp [lineOperands, hscope, Scope.line, parameterValues, hk, hmissing]
  have hlookup := Bindings.lookup_zip hnodup hsymbol hoperand
  rw [hsymbols]
  show isNaN (Bindings.value _ (.named name)).value = true
  rw [Bindings.value, hlookup]
  exact laws.nan

/-- **What is no number leaves an equation without a value**: a node that comes to no number, below an
operand that is met when the line is worked off, with no power between the two, makes the evaluation and the
bound form `nan`; and so does such a parameter if it is not given. Where no factors are put together anew,
the whole tree is such an operand. -/
theorem nan_of_feeds (laws : NaNSpoils α) (signs : SignLaws α) (hq : ofText? text s = .ok q)
    (hc : q.outcome = .ok c)
    (hnames : ∀ name ∈ s.names, Symbol.isWritable name = false → c.tree.Within (· ≠ .named name))
    {u w : Tree String} (hu : u.Stands c.symbols true false c.tree) (hw : w.Feeds u) :
    (∀ values, values.length = s.vars.length →
      isNaN (w.valueOver (c.symbols.zip (values.map (.ofValue false)))) = true →
        q.evaluate values = .ok nan ∧ q.value (values.map (.ofValue true)) = nan) ∧
    ∀ plain x given,
      (isNaN (w.valueOver (c.symbols.zip (q.lineOperands plain x given))) = true →
        q.value (q.lineOperands plain x given) = nan) ∧
      ∀ P, s = .line P → ∀ name ∈ P, w = .symbol name → given.lookup name = none →
        q.value (q.lineOperands plain x given) = nan := by
  have hvalue : ∀ operands : List (Operand α), (∀ y ∈ operands, y.whole = false) →
      isNaN (w.valueOver (c.symbols.zip operands)) = true → q.value operands = nan :=
    fun operands hwhole hnan =>
      value_of_stands laws signs hq hc hnames hu hwhole (hw.isNaN_valueOver laws hnan)
  have hline : ∀ plain x given, isNaN (w.valueOver (c.symbols.zip (q.lineOperands plain x given))) = true →
      q.value (q.lineOperands plain x given) = nan := fun plain x given =>
    hvalue _ (by simp [lineOperands, Operand.ofValue])
  constructor
  · intro values hcount hnan
    have hwhole : ∀ plain, ∀ y ∈ values.map (Operand.ofValue plain), y.whole = false := by
      simp [Operand.ofValue]
    have hscope : q.scope = s := (compiled_of_outcome hq hc).1
    rw [evaluate_eq hc, hscope, if_pos hcount, hvalue _ (hwhole false) hnan]
    refine ⟨rfl, hvalue _ (hwhole true) ?_⟩
    have hexposes := List.forall₂_map_left_iff.mpr (List.forall₂_map_right_iff.mpr
      (List.forall₂_same.mpr fun x (_ : x ∈ values) => Operand.exposes_ofValue true x))
    rwa [Tree.valueOver_of_exposes (Bindings.exposes_zip c.symbols hexposes)]
  · refine fun plain x given => ⟨hline plain x given, ?_⟩
    rintro P rfl name hname rfl hmissing
    have hused : ∀ p : Symbol → Prop, c.tree.Within p → p (.named name) :=
      fun p hp => hw.within (hu.within hp)
    have hwritable : Symbol.isWritable name = true := by
      by_contra hhidden
      have habsent := hnames name (List.mem_cons_of_mem _ hname) (Bool.eq_false_iff.mpr hhidden)
      exact hused _ habsent rfl
    exact hline plain x given (isNaN_of_missing laws hq hc hname hwritable hused plain x hmissing)

/-- `a` is missing; the product `X*X*X` behind the sign is opened up. -/
theorem nan_of_feeds_max :
    ∃ q : Equation PartialReal, ∃ c : Compiled PartialReal,
      ofText? "max(a,X)-X*X*X" (.line ["a"]) = .ok q ∧ q.outcome = .ok c ∧
      (∀ name ∈ (Scope.line ["a"]).names, Symbol.isWritable name = false →
        c.tree.Within (· ≠ .named name)) ∧
      (Tree.call .max [.symbol "a", .symbol "X"]).Stands c.symbols true false c.tree ∧
      (Tree.symbol "a").Feeds (.call .max [.symbol "a", .symbol "X"]) ∧
      ∀ plain x, q.value (q.lineOperands plain x []) = nan := by
  have hread : read (Text.strip "max(a,X)-X*X*X") (.line ["a"]) =
      .ok (.binary .sub (.call .max [.symbol "a", .symbol "X"])
        (.binary .mul (.binary .mul (.symbol "X") (.symbol "X")) (.symbol "X"))) := by
    with_unfolding_all rfl
  have hc := outcome_of_passes (α := PartialReal) hread fun trial htrial => by
    obtain ⟨x, a, hargs⟩ := List.length_eq_two.mp (Battery.length_of_mem_trials htrial)
    rw [hargs]
    exact .inl rfl
  have hq : ofText? (α := PartialReal) "max(a,X)-X*X*X" (.line ["a"]) = .ok (ofText _ _) :=
    ofText?_eq_ok_iff.mpr ⟨fun hrepeats => hrepeats.2 (by decide +kernel), rfl⟩
  have hwritable : ∀ name ∈ (Scope.line ["a"]).names, Symbol.isWritable name = true := by
    decide +kernel
  have hnames : ∀ {p : String → Prop}, ∀ name ∈ (Scope.line ["a"]).names,
      Symbol.isWritable name = false → p name := by
    intro p name hname hhidden
    rw [hwritable name hname] at hhidden
    cases hhidden
  have hkept {symbols : List Symbol} : (Tree.call .max [.symbol "a", .symbol "X"]).Kept symbols false :=
    .call .max (List.cons_ne_nil _ _) (Combination.forall_mem_pair.mpr ⟨.symbol "a", .symbol "X"⟩)
  have hfeeds : (Tree.symbol "a").Feeds (.call .max [.symbol "a", .symbol "X"]) :=
    .argument Function.noConfusion List.mem_cons_self .refl
  have hstands {symbols : List Symbol} (r : Tree String) : (Tree.call .max [.symbol "a", .symbol "X"]).Stands
      symbols true false (.binary .sub (.call .max [.symbol "a", .symbol "X"]) r) :=
    .closed (.summand_left (.inr rfl) (.whole hkept))
  exact ⟨_, _, hq, hc, hnames, hstands _, hfeeds, fun plain x =>
    ((nan_of_feeds PartialReal.nanSpoils PartialReal.signLaws hq hc hnames (hstands _) hfeeds).2 plain x []).2
      ["a"] rfl "a" List.mem_cons_self rfl rfl⟩

/-- Behind the sign the missing `a` drops out of `a*X/a`. -/
theorem missing_parameter_drops_out :
    ∃ c : Compiled Float, (ofText "-2/(a*X/a)" (.line ["a"])).outcome = .ok c ∧
      (Tree.symbol "a").Feeds c.tree ∧
      isNaN ((Tree.symbol "a").valueOver (c.symbols.zip
        ((ofText "-2/(a*X/a)" (.line ["a"])).lineOperands false (1.0 : Float) []))) = true ∧
      same ((ofText "-2/(a*X/a)" (.line ["a"])).value
        ((ofText "-2/(a*X/a)" (.line ["a"])).lineOperands false (1.0 : Float) [])) (-2.0) = true := by
  have hread : read (Text.strip "-2/(a*X/a)") (.line ["a"]) =
      .ok (.binary .div (.negate (.number "2"))
        (.binary .div (.binary .mul (.symbol "a") (.symbol "X")) (.symbol "a"))) := by
    with_unfolding_all rfl
  have hvalid : (ofText (α := Float) "-2/(a*X/a)" (.line ["a"])).isValid = true := by
    decide +kernel
  obtain ⟨t, ht, hc⟩ := exists_read_of_isValid hvalid
  obtain rfl := Except.ok.inj (hread.symm.trans ht)
  have hdiv : Operator.div ≠ .pow := Operator.noConfusion
  refine ⟨_, hc, ?_, ?_, ?_⟩
  · exact .right hdiv (.right hdiv .refl)
  · decide +kernel
  · decide +kernel

end Equation

end PhasePortrait
