import PhasePortrait.Formula.Equation
import PhasePortrait.Proofs.Terms.Combining

/-!
# What lines of arithmetic look up

A formula is compiled through terms into a line of arithmetic. Each stage keeps to what the stage
before it looks up, apart from the placeholders of hidden names, and the value of a line depends on
the bindings of what it looks up alone.

## Main definitions

* `Tree.Within p t`, `Line.Within p t` — all that a tree or a line looks up satisfies `p`.
-/
namespace PhasePortrait

variable {p : Symbol → Prop}

/-! ## Trees -/

namespace Tree
variable {ν : Type}

mutual
/-- All that a tree looks up satisfies `p`. -/
def Within (p : Symbol → Prop) : Tree ν → Prop
  | number _ => True
  | symbol name => p (.named name)
  | constant c => c.Within p
  | negate t => Within p t
  | binary o l r => (o = .pow → p (.named Function.pow.identifier)) ∧ Within p l ∧ Within p r
  | call f args => p (.named f.identifier) ∧ AllWithin p args

def AllWithin (p : Symbol → Prop) : List (Tree ν) → Prop
  | [] => True
  | t :: ts => Within p t ∧ AllWithin p ts
end

end Tree

namespace Term
open Combination

theorem within_divide {a b : Term} (ha : a.Within p) (hb : b.Within p) : (divide a b).Within p := by
  have hinverse : b.inverse.Within p := within_whole_power hb (-1)
  unfold divide
  split
  · exact hinverse
  · exact within_product.mpr (forall_mem_pair.mpr ⟨ha, hinverse⟩)

theorem within_ofBinary {o : Operator} {a b : Term} (ha : a.Within p) (hb : b.Within p)
    (ho : o = .pow → p (.named Function.pow.identifier)) :
    (ofBinary .compiled o a b).Within p := by
  cases o with
  | add => exact within_sum.mpr (forall_mem_pair.mpr ⟨ha, hb⟩)
  | sub => exact within_sum.mpr (forall_mem_pair.mpr ⟨ha, within_negate hb⟩)
  | mul => exact within_product.mpr (forall_mem_pair.mpr ⟨ha, hb⟩)
  | div => exact within_divide ha hb
  | pow => exact within_call.mpr ⟨ho rfl, forall_mem_pair.mpr ⟨ha, hb⟩⟩

mutual
theorem within_ofTree : ∀ {t : Tree String}, t.Within p → (ofTree .compiled t).Within p
  | .number _, _ => within_number _
  | .symbol _, h => h
  | .constant _, h => h
  | .negate _, h => within_negate (within_ofTree h)
  | .binary _ _ _, h => within_ofBinary (within_ofTree h.2.1) (within_ofTree h.2.2) h.1
  | .call _ _, h => within_call.mpr ⟨h.1, within_ofTrees h.2⟩

theorem within_ofTrees : ∀ {ts : List (Tree String)}, Tree.AllWithin p ts →
    ∀ t ∈ ofTrees .compiled ts, t.Within p
  | [], _ => nofun
  | _ :: _, h => List.forall_mem_cons.mpr ⟨within_ofTree h.1, within_ofTrees h.2⟩
end

/-! ## Hidden names -/

section
variable {rules : Combination} {old new : Symbol}

mutual
theorem within_rename (hrules : rules.Keeps p) (hnew : p new) :
    ∀ {t : Term}, t.Within p → (rename rules old new t).1.Within p
  | .number _, h | .constant _, h | .undefined, h | .exponential _, h => h
  | .symbol s, h => by
    rw [rename]
    split
    · exact hnew
    · exact h
  | .sum ts, h => by
    have hterms := within_renameAll hrules hnew h
    rw [rename]
    dsimp only
    split
    · exact hrules.sum _ hterms
    · exact h
  | .product ts, h => by
    have hfactors := within_renameAll hrules hnew h
    rw [rename]
    dsimp only
    split
    · exact hrules.product _ hfactors
    · exact h
  | .power b e, h => by
    have hbase := within_rename hrules hnew h.1
    rw [rename]
    dsimp only
    split
    · exact hrules.power _ _ hbase
    · exact ⟨hbase, h.2⟩
  | .call f ts, h => by
    rw [rename]
    exact within_call.mpr ⟨h.1, within_renameAll hrules hnew h.2⟩

theorem within_renameAll (hrules : rules.Keeps p) (hnew : p new) :
    ∀ {ts : List Term}, AllWithin p ts → ∀ t ∈ (renameAll rules old new ts).1, t.Within p
  | [], _ => nofun
  | _ :: _, h => List.forall_mem_cons.mpr
      ⟨within_rename hrules hnew h.1, within_renameAll hrules hnew h.2⟩
end

mutual
/-- A symbol that does not occur leaves no place to another one. -/
theorem rename_of_absent :
    ∀ {t : Term}, t.Within (· ≠ old) → rename rules old new t = (t, false)
  | .number _, _ | .constant _, _ | .undefined, _ | .exponential _, _ => by simp [rename]
  | .symbol s, h => by
    rw [rename, if_neg h]
  | .sum ts, h => by
    rw [rename, renameAll_of_absent h]
    rfl
  | .product ts, h => by
    rw [rename, renameAll_of_absent h]
    rfl
  | .power b e, h => by
    rw [rename, rename_of_absent h.1]
  | .call f ts, h => by
    rw [rename, renameAll_of_absent h.2]

theorem renameAll_of_absent :
    ∀ {ts : List Term}, AllWithin (· ≠ old) ts → renameAll rules old new ts = (ts, false)
  | [], _ => rfl
  | _ :: _, h => by
    rw [renameAll, rename_of_absent h.1, renameAll_of_absent h.2]
    rfl
end

end

theorem within_hideNames {names : List String}
    (hnew : ∀ index < (Symbol.hidden names).length, p (.placeholder index)) {t : Term}
    (h : t.Within p) : (t.hideNames names).Within p := by
  have hentries : ∀ entry ∈ (Symbol.hidden names).zipIdx, p (.placeholder entry.2) :=
    fun entry hentry => hnew _ (List.snd_lt_of_mem_zipIdx hentry)
  unfold hideNames
  generalize (Symbol.hidden names).zipIdx = entries at hentries
  induction entries generalizing t with
  | nil => exact h
  | cons entry entries ih =>
    obtain ⟨hentry, hentries⟩ := List.forall_mem_cons.mp hentries
    exact ih (within_rename (keeps_level _) hentry h) hentries

/-! ## The order that terms are written in -/

variable {keyOf : Term → Key}

theorem mem_byExponents {ts : List Term} {t : Term} (h : t ∈ byExponents keyOf ts) : t ∈ ts := by
  unfold byExponents at h
  simp only [List.mem_map, mem_sortBy] at h
  obtain ⟨_, ⟨u, hu, rfl⟩, rfl⟩ := h
  exact hu

theorem mem_writtenTerms {ts : List Term} {t : Term} (h : t ∈ writtenTerms keyOf ts) : t ∈ ts := by
  unfold writtenTerms at h
  split at h
  · next a b heq =>
    split at h
    · have hmem : t ∈ ts.filter isNumeral ++ ts.filter fun t => !t.isNumeral := by rwa [heq]
      exact (List.mem_append.mp hmem).elim List.mem_of_mem_filter List.mem_of_mem_filter
    · exact mem_byExponents h
  · exact mem_byExponents h

theorem within_writtenFactors {fs : List Term} (h : ∀ t ∈ fs, t.Within p) :
    ∀ t ∈ writtenFactors keyOf fs, t.Within p := by
  unfold writtenFactors keyedFactors Key.sortOn
  simp only [List.forall_mem_map, mem_sortBy]
  split
  · split
    · have hrest := fun t ht => h t (List.mem_cons_of_mem _ ht)
      simpa using hrest
    · exact h
  · exact h

theorem within_signedFactors {t : Term} (h : t.Within p) :
    ∀ u ∈ (signedFactors keyOf t).2, u.Within p := by
  have hunsigned : (if (splitNumber t).1.isNegative then
      t.combination.scaled (splitNumber t).1.neg (splitNumber t).2 else t).Within p := by
    split
    · exact (keeps_level _).scaled _ (within_splitNumber h)
    · exact h
  unfold signedFactors
  dsimp only
  split
  · next fs heq =>
    rw [heq] at hunsigned
    exact within_writtenFactors (within_product.mp hunsigned)
  · exact List.forall_mem_singleton.mpr hunsigned

end Term

/-! ## Lines -/

namespace Line
variable {ν μ : Type}

mutual
/-- All that a line looks up satisfies `p`. -/
def Within (p : Symbol → Prop) : Line ν → Prop
  | literal _ | whole _ | undefined => True
  | symbol s => p s
  | constant c => p (.named c.name)
  | negate t => Within p t
  | binary o l r => (o = .pow → p (.named Function.pow.identifier)) ∧ Within p l ∧ Within p r
  | power t _ => Within p t
  | exponential _ => p (.named Function.exp.name)
  | call f ts => p (.named f.identifier) ∧ AllWithin p ts

def AllWithin (p : Symbol → Prop) : List (Line ν) → Prop
  | [] => True
  | t :: ts => Within p t ∧ AllWithin p ts
end

theorem allWithin_iff {ts : List (Line ν)} : AllWithin p ts ↔ ∀ t ∈ ts, t.Within p := by
  induction ts with
  | nil => simp [AllWithin]
  | cons t ts ih => simp [AllWithin, ih]

mutual
theorem within_map (g : ν → μ) : ∀ {t : Line ν}, t.Within p → (t.map g).Within p
  | .literal _, h | .whole _, h | .undefined, h | .symbol _, h | .constant _, h
  | .exponential _, h => h
  | .negate t, h => within_map g (t := t) h
  | .binary _ _ _, h => ⟨h.1, within_map g h.2.1, within_map g h.2.2⟩
  | .power t _, h => within_map g (t := t) h
  | .call _ _, h => ⟨h.1, allWithin_map g h.2⟩

theorem allWithin_map (g : ν → μ) :
    ∀ {ts : List (Line ν)}, AllWithin p ts → AllWithin p (mapAll g ts)
  | [], _ => trivial
  | _ :: _, h => ⟨within_map g h.1, allWithin_map g h.2⟩
end

end Line

/-! ## Runs -/

namespace Run

/-- All that the parts of a run look up satisfies `p`; no operator is a power. -/
structure Within (p : Symbol → Prop) (r : Run) : Prop where
  first : r.first.Within p
  rest : ∀ i ∈ r.rest, i.1 ≠ .pow ∧ i.2.Within p

theorem within_ofLine {x : Line Decimal} (h : x.Within p) : (ofLine x).Within p := ⟨h, nofun⟩

theorem within_ofNumber (c : Coefficient) : (ofNumber c).Within p := by
  unfold ofNumber
  split
  · exact ⟨trivial, nofun⟩
  · exact ⟨trivial, List.forall_mem_singleton.mpr ⟨nofun, trivial⟩⟩
  · exact ⟨trivial, nofun⟩

theorem within_applyAll {first : Line Decimal} {rest : List (Operator × Line Decimal)}
    (hfirst : first.Within p) (hrest : ∀ i ∈ rest, i.1 ≠ .pow ∧ i.2.Within p) :
    (applyAll first rest).Within p := by
  unfold applyAll
  induction rest generalizing first with
  | nil => exact hfirst
  | cons i rest ih =>
    obtain ⟨⟨ho, hi⟩, hrest⟩ := List.forall_mem_cons.mp hrest
    exact ih ⟨fun h => absurd h ho, hfirst, hi⟩ hrest

variable {r : Run} (h : r.Within p)
include h

theorem Within.unsigned : r.unsigned.Within p := within_applyAll h.first h.rest

theorem Within.signedFirst :
    (if r.negative then .negate r.first else r.first : Line Decimal).Within p := by
  split
  · exact h.first
  · exact h.first

theorem Within.line : r.line.Within p := within_applyAll h.signedFirst h.rest

theorem Within.factors : ∀ i ∈ r.factors, i.1 ≠ .pow ∧ i.2.Within p :=
  List.forall_mem_cons.mpr ⟨⟨nofun, h.signedFirst⟩, h.rest⟩

omit h in
theorem within_ofFactors (negative : Bool) {fs : List (Operator × Line Decimal)}
    (h : ∀ i ∈ fs, i.1 ≠ .pow ∧ i.2.Within p) : (ofFactors negative fs).Within p := by
  cases fs with
  | nil => exact ⟨trivial, nofun⟩
  | cons f fs =>
    obtain ⟨hf, hfs⟩ := List.forall_mem_cons.mp h
    exact ⟨hf.2, hfs⟩

omit h in
theorem within_joined {rs : List Run} (h : ∀ r ∈ rs, r.Within p) : (joined rs).Within p := by
  cases rs with
  | nil => exact trivial
  | cons first rs =>
    obtain ⟨hfirst, hrs⟩ := List.forall_mem_cons.mp h
    suffices ∀ x : Line Decimal, x.Within p →
        (rs.foldl (fun x r => .binary (if r.negative then .sub else .add) x r.unsigned) x).Within p
      from this _ hfirst.line
    clear hfirst h
    induction rs with
    | nil => exact fun _ hx => hx
    | cons r rs ih =>
      obtain ⟨hr, hrs⟩ := List.forall_mem_cons.mp hrs
      refine fun x hx => ih hrs _ ⟨fun hpow => ?_, hx, hr.unsigned⟩
      split at hpow
      · cases hpow
      · cases hpow

end Run

namespace Term
variable {keyOf : Term → Key} {part : Term → Run}

theorem within_of_divisor {t b : Term} {n : Nat} (h : t.Within p) (hd : divisor? t = some (b, n)) :
    b.Within p := by
  unfold divisor? at hd
  split at hd
  · split at hd
    · cases hd
      exact h.1
    · cases hd
  · cases hd

theorem within_foldl_mul {x : Line Decimal} {ys : List (Line Decimal)} (hx : x.Within p)
    (hys : ∀ y ∈ ys, y.Within p) : (ys.foldl (fun x y => .binary .mul x y) x).Within p := by
  induction ys generalizing x with
  | nil => exact hx
  | cons y ys ih =>
    obtain ⟨hy, hys⟩ := List.forall_mem_cons.mp hys
    exact ih ⟨nofun, hx, hy⟩ hys

theorem within_runWith (hpart : ∀ t, t.Within p → (part t).Within p) {t : Term}
    (h : t.Within p) : (runWith keyOf part t).Within p := by
  have hline : ∀ t, t.Within p → (part t).line.Within p := fun t ht => (hpart t ht).line
  unfold runWith
  split
  · exact Run.within_ofNumber _
  · exact Run.within_ofLine h
  · exact Run.within_ofLine h.1
  · exact Run.within_ofLine trivial
  · exact Run.within_ofLine (h.2 rfl)
  · exact Run.within_ofLine (hline _ h.1)
  · next b e he =>
    have hpow : p (.named Function.pow.identifier) := by
      obtain ⟨n, rfl⟩ | hpow := h.2.2
      · exact absurd rfl (he n)
      · exact hpow
    exact Run.within_ofLine ⟨hpow, hline b h.1, hline e h.2.1, trivial⟩
  · next f ts =>
    obtain ⟨hf, hts⟩ := within_call.mp h
    refine Run.within_ofLine ⟨hf, Line.allWithin_iff.mpr (List.forall_mem_map.mpr fun t ht => ?_)⟩
    exact hline t (hts t ht)
  · next ts =>
    refine Run.within_ofLine (Run.within_joined (List.forall_mem_map.mpr fun t ht => ?_))
    have ht := within_sum.mp h t (mem_writtenTerms ht)
    split
    · exact Run.within_ofLine (hline _ ht)
    · exact hpart _ ht
  · next fs =>
    have hfactors : ∀ u ∈ (signedFactors keyOf (product fs)).2, u.Within p :=
      within_signedFactors h
    dsimp only
    generalize (signedFactors keyOf (product fs)).2 = factors at hfactors
    have hapart : ∀ f ∈ factors, ∀ level, ∀ i ∈ if f.binding.strength ≤ level
        then [(Operator.mul, (part f).line)] else (part f).factors, i.1 ≠ .pow ∧ i.2.Within p := by
      intro f hf level
      have hf := hpart f (hfactors f hf)
      split
      · exact List.forall_mem_singleton.mpr ⟨nofun, hf.line⟩
      · exact hf.factors
    refine Run.within_ofFactors _ (List.forall_mem_append.mpr ⟨?_, ?_⟩)
    · split
      · exact List.forall_mem_singleton.mpr ⟨nofun, trivial⟩
      · intro i hi
        obtain ⟨f, hf, hi⟩ := List.mem_flatMap.mp hi
        exact hapart f (List.mem_of_mem_filter hf) _ i hi
    · split
      · exact nofun
      · next d ds heq =>
        have hdivisors : ∀ x ∈ d :: ds, x.Within p := by
          rw [← heq, List.forall_mem_map]
          rintro ⟨b, n⟩ hmem
          obtain ⟨f, hf, hb⟩ := List.mem_filterMap.mp hmem
          have hb := hline b (within_of_divisor (hfactors f hf) hb)
          dsimp only
          split
          · exact hb
          · exact hb
        obtain ⟨hd, hds⟩ := List.forall_mem_cons.mp hdivisors
        exact List.forall_mem_singleton.mpr ⟨nofun, within_foldl_mul hd hds⟩

theorem within_run (depth : Nat) {t : Term} (h : t.Within p) : (run keyOf depth t).Within p := by
  induction depth generalizing t with
  | zero => exact Run.within_ofLine trivial
  | succ depth ih => exact within_runWith (fun t ht => ih ht) h

theorem within_line {t : Term} (h : t.Within p) : t.line.Within p := (within_run _ h).line

end Term

namespace Line

section
variable {α : Type} [Elementary α] {b b' : Bindings α}

theorem call_congr {f : Function}
    (h : b.lookup (.named f.identifier) = b'.lookup (.named f.identifier)) :
    b.call f = b'.call f := by
  unfold Bindings.call Bindings.replaces
  rw [h]

mutual
/-- The value of a line depends on the bindings of what it looks up alone. -/
theorem eval_congr (hb : ∀ s, p s → b.lookup s = b'.lookup s) :
    ∀ {t : Line α}, t.Within p → t.eval b = t.eval b'
  | .literal _, _ | .whole _, _ | .undefined, _ => rfl
  | .symbol s, h => by
    rw [eval, eval, Bindings.value, Bindings.value, hb s h]
  | .constant c, h => by
    rw [eval, eval, Bindings.constant, Bindings.constant, hb _ h]
  | .negate t, h => by
    rw [eval, eval, eval_congr hb (t := t) h]
  | .binary o l r, h => by
    have ho : b.combine o = b'.combine o := by
      cases o with
      | pow =>
        funext x y
        exact congrFun (call_congr (hb _ (h.1 rfl))) [x, y]
      | _ => rfl
    rw [eval, eval, eval_congr hb h.2.1, eval_congr hb h.2.2, ho]
  | .power t n, h => by
    rw [eval, eval, eval_congr hb (t := t) h]
  | .exponential n, h => by
    rw [eval, eval, Bindings.exponential, Bindings.exponential, Bindings.replaces,
      Bindings.replaces, hb _ h]
  | .call f ts, h => by
    rw [eval, eval, evalAll_congr hb h.2, call_congr (hb _ h.1)]

theorem evalAll_congr (hb : ∀ s, p s → b.lookup s = b'.lookup s) :
    ∀ {ts : List (Line α)}, AllWithin p ts → evalAll b ts = evalAll b' ts
  | [], _ => rfl
  | _ :: _, h => by
    rw [evalAll, evalAll, eval_congr hb h.1, evalAll_congr hb h.2]
end

end

end Line

/-- A compiled tree looks up what the tree does, and placeholders of hidden names. -/
theorem Formula.within_lineOf {α : Type} [Elementary α] {tree : Tree String} (h : tree.Within p)
    {names : List String}
    (hnew : ∀ index < (Symbol.hidden names).length, p (.placeholder index)) :
    (lineOf tree names : Line α).Within p :=
  Line.within_map _ (Term.within_line (Term.within_hideNames hnew (Term.within_ofTree h)))

end PhasePortrait
