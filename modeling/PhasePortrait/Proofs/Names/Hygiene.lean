import Mathlib.Data.List.Nodup
import Mathlib.Data.List.TakeWhile
import PhasePortrait.Number.Double
import PhasePortrait.Proofs.Except
import PhasePortrait.Proofs.Names.Construction

/-!
# Declaring one more name

A declared name that a formula does not mention adds one symbol at the end of the bindings that its
line is evaluated over. The line is the same, and so is its value, unless it looks that very symbol
up: for a constant, a function, or a power. Nothing keeps a parameter from being called `pi`,
`safe_sin` or `safe_pow`, though, and then it takes their place.

## Main definitions

* `Fresh text P n` — nothing in the formula `text` over the parameters `P` is taken for `n`.
-/
namespace PhasePortrait

/-! ## The symbol of the new name -/

namespace Symbol
variable {names : List String} {n : String}

/-- The symbol that a name declared after others stands as, if it is hidden after them too. -/
def ofLast (names : List String) (n : String) : Symbol :=
  if isWritable n then named (Text.folded n) else placeholder (hidden names).length

theorem mem_hidden {entry : String × Nat} :
    entry ∈ hidden names ↔ entry ∈ names.zipIdx ∧ isWritable entry.1 = false := by
  simp [hidden]

/-- The entry of the last name is none of the entries before it. -/
theorem last_not_mem_zipIdx : (n, names.length) ∉ names.zipIdx := fun h =>
  absurd (List.snd_lt_of_mem_zipIdx h) (by simp)

theorem hidden_concat (h : hidden names <+: hidden (names ++ [n])) :
    hidden (names ++ [n]) =
      hidden names ++ if isWritable n then [] else [(n, names.length)] := by
  obtain ⟨rest, hrest⟩ := h
  have hperm : (hidden names ++ rest).Perm
      (hidden names ++ if isWritable n then [] else [(n, names.length)]) := by
    rw [hrest]
    refine (perm_sortBy _ _).trans ?_
    rw [List.zipIdx_append, List.filter_append]
    refine .append (perm_sortBy _ _).symm ?_
    cases hn : isWritable n <;> simp [hn]
  have hrest' := (List.perm_append_left_iff _).mp hperm
  rw [← hrest]
  congr 1
  cases hn : isWritable n with
  | true =>
    rw [hn] at hrest'
    exact hrest'.eq_nil
  | false =>
    rw [hn] at hrest'
    exact hrest'.eq_singleton

theorem ofNames_concat (h : hidden names <+: hidden (names ++ [n])) :
    ofNames (names ++ [n]) = ofNames names ++ [ofLast names n] := by
  have hindex (entry : String × Nat) : (hidden (names ++ [n])).idxOf? entry =
      ((hidden names).idxOf? entry).or
        (((if isWritable n then [] else [(n, names.length)]).idxOf? entry).map
          (· + (hidden names).length)) := by
    rw [hidden_concat h]
    exact List.findIdx?_append
  have hlast : (hidden names).idxOf? (n, names.length) = none :=
    List.idxOf?_eq_none_iff.mpr fun hmem => last_not_mem_zipIdx (mem_hidden.mp hmem).1
  unfold ofNames
  dsimp only
  rw [List.zipIdx_append, List.map_append]
  congr 1
  · refine List.map_congr_left fun entry hentry => ?_
    have hne : entry ≠ (n, names.length) := fun heq => last_not_mem_zipIdx (heq ▸ hentry)
    have hnone : (if isWritable n then [] else [(n, names.length)]).idxOf? entry = none := by
      rw [List.idxOf?_eq_none_iff]
      split
      · exact List.not_mem_nil
      · simpa using hne
    rw [hindex, hnone, Option.map_none, Option.or_none]
  · cases hn : isWritable n <;> simp [hindex, hlast, hn, ofLast, List.idxOf?_cons]

theorem length_ofNames (names : List String) : (ofNames names).length = names.length := by
  simp [ofNames]

theorem mem_ofNames {s : Symbol} (h : s ∈ ofNames names) :
    (∃ m ∈ names, s = named (Text.folded m)) ∨
      ∃ index < (hidden names).length, s = placeholder index := by
  unfold ofNames at h
  obtain ⟨⟨m, i⟩, hentry, rfl⟩ := List.mem_map.mp h
  dsimp only
  split
  · next index hindex =>
    obtain ⟨hlength, -⟩ := List.idxOf?_eq_some_iff.mp hindex
    exact .inr ⟨index, hlength, rfl⟩
  · exact .inl ⟨m, List.fst_mem_of_mem_zipIdx hentry, rfl⟩

theorem eq_folded_of_named_eq_ofLast {i : String} (h : named i = ofLast names n) :
    i = Text.folded n := by
  unfold ofLast at h
  split at h
  · exact named.inj h
  · cases h

theorem placeholder_ne_ofLast {index : Nat} (h : index < (hidden names).length) :
    placeholder index ≠ ofLast names n := by
  intro heq
  unfold ofLast at heq
  split at heq
  · cases heq
  · exact absurd h (placeholder.inj heq ▸ lt_irrefl _)

theorem ofLast_not_mem (hapart : ∀ m ∈ names, Text.folded m ≠ Text.folded n) :
    ofLast names n ∉ ofNames names := by
  intro hmem
  obtain ⟨m, hm, heq⟩ | ⟨index, hindex, heq⟩ := mem_ofNames hmem
  · exact hapart m hm (eq_folded_of_named_eq_ofLast heq.symm)
  · exact placeholder_ne_ofLast hindex heq.symm

theorem isWritable_identifier (f : Function) : isWritable f.identifier = true := by
  cases f <;> decide +kernel

theorem isWritable_of_mem_identifiers {c : Constant} {i : String} (h : i ∈ c.identifiers) :
    isWritable i = true := by
  suffices ∀ i ∈ c.identifiers, isWritable i = true from this i h
  cases c <;> decide +kernel

end Symbol

namespace Tree
variable {ν : Type}

mutual
theorem forall_mem_builtIns {P : String → Prop} (hf : ∀ f : Function, P f.identifier)
    (hc : ∀ c : Constant, ∀ i ∈ c.identifiers, P i) : ∀ (t : Tree ν), ∀ i ∈ t.builtIns, P i
  | number _ | symbol _ => nofun
  | constant c => hc c
  | negate t => forall_mem_builtIns hf hc t
  | binary _ l r => forall_mem_builtIns_binary.mpr
      ⟨fun _ => hf .pow, forall_mem_builtIns hf hc l, forall_mem_builtIns hf hc r⟩
  | call f args => List.forall_mem_cons.mpr ⟨hf f, forall_mem_builtInsAll hf hc args⟩

theorem forall_mem_builtInsAll {P : String → Prop} (hf : ∀ f : Function, P f.identifier)
    (hc : ∀ c : Constant, ∀ i ∈ c.identifiers, P i) :
    ∀ (ts : List (Tree ν)), ∀ i ∈ builtInsAll ts, P i
  | [] => nofun
  | t :: ts =>
    List.forall_mem_append.mpr ⟨forall_mem_builtIns hf hc t, forall_mem_builtInsAll hf hc ts⟩
end

/-- What is built in needs no placeholder. -/
theorem isWritable_builtIns : ∀ (t : Tree ν), ∀ i ∈ t.builtIns, Symbol.isWritable i = true :=
  forall_mem_builtIns Symbol.isWritable_identifier fun _ _ => Symbol.isWritable_of_mem_identifiers

end Tree

namespace Term
variable {names : List String} {n : String} {t : Term}

theorem hideNames_concat (h : Symbol.hidden names <+: Symbol.hidden (names ++ [n]))
    (ht : Symbol.isWritable n = false → t.Within (· ≠ .named n)) :
    t.hideNames (names ++ [n]) = t.hideNames names := by
  cases hn : Symbol.isWritable n with
  | true => rw [hideNames, Symbol.hidden_concat h, if_pos hn, List.append_nil, hideNames]
  | false =>
    have habsent : (t.hideNames names).Within (· ≠ .named n) :=
      within_hideNames (fun _ _ => nofun) (ht hn)
    rw [hideNames, Symbol.hidden_concat h, hn, List.zipIdx_append, List.foldl_append, ← hideNames]
    exact congrArg Prod.fst (rename_of_absent habsent)

end Term

/-! ## The words of a formula -/

theorem Text.folded_of_ascii {s : String} (h : ∀ c ∈ s.toList, c.toNat < 128) : folded s = s := by
  have hforms : ∀ cs : List Char, (∀ c ∈ cs, c.toNat < 128) → cs.flatMap foldChar = cs := by
    intro cs hcs
    induction cs with
    | nil => rfl
    | cons c cs ih =>
      obtain ⟨hc, hcs⟩ := List.forall_mem_cons.mp hcs
      rw [List.flatMap_cons, ih hcs, foldChar, if_pos hc]
      rfl
  rw [folded, hforms _ h, String.ofList_toList]

namespace Formula

theorem not_name_of_punctuation {c : Char} {l : Lexeme} (h : punctuation? c = some l)
    (name : String) : l ≠ .name name := by
  unfold punctuation? at h
  split at h
  · cases h
    exact nofun
  · cases h
    exact nofun
  · cases h
    exact nofun
  · obtain ⟨o, -, rfl⟩ := Option.map_eq_some_iff.mp h
    exact nofun

theorem lt_of_isNameChar {c : Char} (h : isNameChar c) : c.toNat < 128 := by
  obtain h | h := Bool.or_eq_true_iff.mp h
  · exact lt_of_isAlphanum h
  · rw [beq_iff_eq.mp h]
    decide

/-- A word is its own identifier. -/
theorem Scans.folded_eq {p : Nat} {cs : List Char} {ts : List Token} (h : Scans p cs ts)
    {name : String} (hname : Lexeme.name name ∈ lexemes ts) : Text.folded name = name := by
  induction h with
  | nil => cases hname
  | blank _ _ ih => exact ih hname
  | number _ _ ih => exact ih ((List.mem_cons.mp hname).resolve_left nofun)
  | mark hl _ ih =>
    exact ih ((List.mem_cons.mp hname).resolve_left (not_name_of_punctuation hl name).symm)
  | @name p c cs ts hc _ ih =>
    obtain hword | hname := List.mem_cons.mp hname
    · obtain rfl := Lexeme.name.inj hword
      refine Text.folded_of_ascii fun d hd => ?_
      rw [String.toList_ofList] at hd
      obtain rfl | hd := List.mem_cons.mp hd
      · exact lt_of_isAlphanum (isAlphanum_of_isAlpha hc)
      · exact lt_of_isNameChar (List.mem_takeWhile_imp hd)
    · exact ih hname

/-! ## One more parameter -/

/-- Nothing in a formula over some parameters is taken for a further name: it is no word of the
formula, and its identifier is neither that of another name nor built in and used by the formula.
If it has to be hidden, it is hidden after the others, whose placeholders it would renumber
otherwise, and with them the order of terms. -/
structure Fresh (text : String) (P : List String) (n : String) : Prop where
  absent : ∀ ts, tokenize text = .ok ts → Lexeme.name n ∉ lexemes ts
  apart : ∀ m ∈ "X" :: P, Text.folded m ≠ Text.folded n
  unused : ∀ t, read text (.line P) = .ok t → Text.folded n ∉ t.builtIns
  last : Symbol.hidden ("X" :: P) <+: Symbol.hidden ("X" :: P ++ [n])

variable {text : String} {P : List String} {n : String}

theorem scopeFault_line_eq_none_iff : scopeFault (.line P) = none ↔
    declaredNameFault "X" = none ∧ ∀ name ∈ P, declaredNameFault name = none ∧ name ≠ "X" := by
  simp [scopeFault, Scope.line, Scope.names, forall_and, and_assoc]

theorem scopeFault_of_concat (h : scopeFault (.line (P ++ [n])) = none) :
    scopeFault (.line P) = none := by
  rw [scopeFault_line_eq_none_iff] at h ⊢
  exact h.imp_right fun h name hname => h name (List.mem_append_left _ hname)

theorem read_concat (hlegal : scopeFault (.line (P ++ [n])) = none) (h : Fresh text P n)
    (t : Tree String) : read text (.line (P ++ [n])) = .ok t ↔ read text (.line P) = .ok t := by
  have hagree : ∀ ts, tokenize text = .ok ts →
      AgreeOn (lexemes ts) (Scope.line P).names (Scope.line (P ++ [n])).names := by
    intro ts hts name hname
    have hne : name ≠ n := fun heq => h.absent ts hts (heq ▸ hname)
    simp [hne]
  exact ⟨read_congr (scopeFault_of_concat hlegal) fun ts hts => (hagree ts hts).symm,
    read_congr hlegal hagree⟩

/-- What the tree of a formula looks up: words that are declared, and what is built in. -/
theorem within_of_read {p : Symbol → Prop} {s : Scope} {t : Tree String} (h : read text s = .ok t)
    (hnames : ∀ ts, tokenize text = .ok ts → ∀ name ∈ s.names, Lexeme.name name ∈ lexemes ts →
      p (.named name))
    (hbuiltIns : ∀ i ∈ t.builtIns, p (.named i)) : t.Within p := by
  obtain ⟨ts, hcheck, hparse⟩ := read_eq_ok_iff.mp h
  obtain ⟨-, htokens, -⟩ := check_eq_ok_iff.mp hcheck
  exact ((parseAll_eq_ok_iff ts t).mp hparse).within
    (fun name hword hname => hnames ts htokens name hname hword) hbuiltIns

/-- The tree of a formula does not look up what a fresh name stands as. -/
theorem Fresh.within_ofLast (h : Fresh text P n) {t : Tree String}
    (ht : read text (.line P) = .ok t) : t.Within (· ≠ Symbol.ofLast ("X" :: P) n) := by
  refine within_of_read ht (fun ts hts name hname hword heq => ?_) fun i hi heq => ?_
  · refine h.apart name hname ?_
    rw [(tokenize_eq_ok_iff.mp hts).2.folded_eq hword]
    exact Symbol.eq_folded_of_named_eq_ofLast heq
  · exact h.unused t ht (Symbol.eq_folded_of_named_eq_ofLast heq ▸ hi)

/-- A fresh name leaves the line of a formula as it is. -/
theorem Fresh.lineOf_eq {α : Type} [Elementary α] (h : Fresh text P n) {t : Tree String}
    (ht : read text (.line P) = .ok t) :
    (lineOf t ("X" :: P ++ [n]) : Line α) = lineOf t ("X" :: P) := by
  have habsent (hn : Symbol.isWritable n = false) : t.Within (· ≠ .named n) := by
    refine within_of_read ht (fun ts hts name _ hword heq => ?_) fun i hi heq => ?_
    · exact h.absent ts hts (Symbol.named.inj heq ▸ hword)
    · have hwritable := t.isWritable_builtIns i hi
      rw [Symbol.named.inj heq, hn] at hwritable
      cases hwritable
  rw [lineOf, lineOf, Term.hideNames_concat h.last fun hn => Term.within_ofTree (habsent hn)]

end Formula

/-! ## The battery -/

namespace Battery
variable {α ε : Type}

/-- Trials that differ in their arguments alone are judged alike if the calls come to the same. -/
theorem run_map {evaluator evaluator' : Nat → List α → Outcome ε} {g : List α → List α}
    {trials : List (String × List α)}
    (h : ∀ trial ∈ trials, ∀ index, evaluator' index (g trial.2) = evaluator index trial.2)
    (index : Nat) :
    (run evaluator' index (trials.map fun trial => (trial.1, g trial.2))).2 =
      (run evaluator index trials).2 := by
  induction trials generalizing index with
  | nil => rfl
  | cons trial trials ih =>
    obtain ⟨htrial, htrials⟩ := List.forall_mem_cons.mp h
    simp only [List.map_cons, run, htrial]
    split
    · rfl
    · exact ih htrials (index + 1)

variable [Scalar α]

theorem trials_concat (P : List String) (n : String) :
    (trials (.line (P ++ [n])) : List (String × List α)) =
      (trials (.line P)).map fun trial => (trial.1, trial.2 ++ [1.0]) := by
  simp [trials, Scope.line]

theorem length_of_mem_trials {P : List String} {trial : String × List α}
    (h : trial ∈ trials (.line P)) : trial.2.length = ("X" :: P).length := by
  simp only [trials, Scope.line] at h
  obtain ⟨c, -, rfl⟩ := List.mem_map.mp h
  simp

end Battery

namespace Formula
variable {α : Type} [Elementary α] {text : String} {P : List String} {n : String}

/-- A binding of a symbol that a line does not look up makes no difference. -/
theorem eval_concat {t : Line α} {s : Symbol} (ht : t.Within (· ≠ s)) {symbols : List Symbol}
    {operands : List (Operand α)} (hlength : symbols.length = operands.length) (x : Operand α) :
    t.eval ((symbols ++ [s]).zip (operands ++ [x])) = t.eval (symbols.zip operands) := by
  refine Line.eval_congr (fun u hu => ?_) ht
  rw [List.zip_append hlength, List.lookup_append, List.zip_cons_cons, List.lookup_cons,
    beq_eq_false_iff_ne.mpr hu]
  simp

theorem Fresh.eval_eq (h : Fresh text P n) {t : Tree String} (ht : read text (.line P) = .ok t)
    {operands : List (Operand α)} (hlength : ("X" :: P).length = operands.length) (x : Operand α) :
    (lineOf t ("X" :: P)).eval
        ((Symbol.ofNames ("X" :: P) ++ [Symbol.ofLast ("X" :: P) n]).zip (operands ++ [x])) =
      (lineOf t ("X" :: P)).eval ((Symbol.ofNames ("X" :: P)).zip operands) := by
  refine eval_concat (within_lineOf (h.within_ofLast ht) fun index hindex => ?_) ?_ x
  · exact Symbol.placeholder_ne_ofLast hindex
  · rw [Symbol.length_ofNames, hlength]

theorem Fresh.prepare_eq (h : Fresh text P n) {t : Tree String}
    (ht : read text (.line P) = .ok t) :
    (prepare t (.line (P ++ [n])) : Except Fault (Compiled α)) =
      (prepare t (.line P)).map fun c =>
        ⟨c.tree, c.line, c.symbols ++ [Symbol.ofLast ("X" :: P) n]⟩ := by
  have hsmoke : (Battery.smokeTest (fun _ args => outcomeOf
        ((lineOf t ("X" :: P) : Line α).eval
          ((Symbol.ofNames ("X" :: P) ++ [Symbol.ofLast ("X" :: P) n]).zip
            (args.map (.ofValue false))))) (.line (P ++ [n]))).2 =
      (Battery.smokeTest (fun _ args => outcomeOf
        ((lineOf t ("X" :: P) : Line α).eval
          ((Symbol.ofNames ("X" :: P)).zip (args.map (.ofValue false))))) (.line P)).2 := by
    rw [Battery.smokeTest, Battery.trials_concat]
    refine Battery.run_map (g := (· ++ [1.0])) (fun trial htrial _ => ?_) 0
    have hlength : ("X" :: P).length = (trial.2.map (Operand.ofValue false)).length := by
      rw [List.length_map, Battery.length_of_mem_trials htrial]
    rw [List.map_append, List.map_singleton, h.eval_eq ht hlength]
  unfold prepare
  simp only [Scope.names_line]
  rw [← List.cons_append, h.lineOf_eq ht, Symbol.ofNames_concat h.last, hsmoke]
  split
  · rfl
  · rfl

theorem Fresh.nodup_iff (h : Fresh text P n) :
    (Symbol.ofNames (Scope.line (P ++ [n])).names).Nodup ↔
      (Symbol.ofNames (Scope.line P).names).Nodup := by
  have hlast := Symbol.ofLast_not_mem h.apart
  rw [Scope.names_line, Scope.names_line, ← List.cons_append, Symbol.ofNames_concat h.last,
    ← List.concat_eq_append, List.nodup_concat]
  exact and_iff_right hlast

end Formula

namespace Equation
open Formula Scalar
variable {α : Type} [Elementary α] {P : List String} {n : String} {q q' : Equation α}

theorem lineOperands_concat (hq : q.scope = .line P) (hq' : q'.scope = .line (P ++ [n]))
    (plain : Bool) (x : α) (given : List (String × α)) : q'.lineOperands plain x given =
      q.lineOperands plain x given ++ [.ofValue false ((given.lookup n).getD nan)] := by
  simp [lineOperands, hq, hq', Scope.line, parameterValues]

theorem length_lineOperands (hq : q.scope = .line P) (plain : Bool) (x : α)
    (given : List (String × α)) :
    ("X" :: P).length = (q.lineOperands plain x given).length := by
  simp [lineOperands, hq, Scope.line, parameterValues]

theorem value_concat {text : String} (hfresh : Fresh text P n) {t : Tree String}
    (ht : read text (.line P) = .ok t) (hq : q.scope = .line P) (hq' : q'.scope = .line (P ++ [n]))
    (hc : q.outcome = .ok ⟨t, lineOf t ("X" :: P), Symbol.ofNames ("X" :: P)⟩)
    (hc' : q'.outcome = .ok ⟨t, lineOf t ("X" :: P),
      Symbol.ofNames ("X" :: P) ++ [Symbol.ofLast ("X" :: P) n]⟩)
    (plain : Bool) (x : α) (given : List (String × α)) :
    q'.value (q'.lineOperands plain x given) = q.value (q.lineOperands plain x given) := by
  rw [value_eq hc, value_eq hc', lineOperands_concat hq hq', Line.value, Line.value]
  dsimp only
  rw [hfresh.eval_eq ht (length_lineOperands hq plain x given)]

/-- **A name that nothing in the formula is taken for may be declared beside the others.** -/
theorem equation_concat_of_fresh (text : String) (P : List String) (n : String)
    (hlegal : scopeFault (.line (P ++ [n])) = none) (hfresh : Fresh (Text.strip text) P n) :
    (ofText? (α := α) text (.line P) = .error .repeatedName ∧
      ofText? (α := α) text (.line (P ++ [n])) = .error .repeatedName) ∨
    ∃ q q' : Equation α, ofText? text (.line P) = .ok q ∧
      ofText? text (.line (P ++ [n])) = .ok q' ∧ q'.isValid = q.isValid ∧
      ∀ plain x given,
        q'.value (q'.lineOperands plain x given) = q.value (q.lineOperands plain x given) := by
  unfold ofText?
  dsimp only
  cases hread : read (Text.strip text) (.line P) with
  | error fault =>
    cases hread' : read (Text.strip text) (.line (P ++ [n])) with
    | error fault' => exact .inr ⟨_, _, rfl, rfl, rfl, fun _ _ _ => rfl⟩
    | ok t => cases ((read_concat hlegal hfresh t).mp hread').symm.trans hread
  | ok t =>
    rw [(read_concat hlegal hfresh t).mpr hread]
    dsimp only
    by_cases hdistinct : (Symbol.ofNames (Scope.line P).names).Nodup
    · rw [if_pos hdistinct, if_pos (hfresh.nodup_iff.mpr hdistinct), hfresh.prepare_eq hread]
      refine .inr ⟨_, _, rfl, rfl, ?_, fun plain x given => ?_⟩
      · unfold isValid
        cases prepare (α := α) t (.line P) <;> rfl
      · cases hprepare : prepare (α := α) t (.line P) with
        | error fault => rfl
        | ok c =>
          obtain rfl := compiled_of_prepare hprepare
          exact value_concat hfresh hread rfl rfl rfl rfl plain x given
    · rw [if_neg hdistinct, if_neg (mt hfresh.nodup_iff.mp hdistinct)]
      exact .inl ⟨rfl, rfl⟩

theorem equation_concat_of_fresh_decay :
    scopeFault (.line ["r", "k"]) = none ∧ Fresh "r*sin(X)" ["r"] "k" ∧
      ∃ q q' : Equation Float, ofText? "r*sin(X)" (.line ["r"]) = .ok q ∧
        ofText? "r*sin(X)" (.line ["r", "k"]) = .ok q' ∧ q'.isValid = q.isValid ∧
        ∀ plain x given,
          q'.value (q'.lineOperands plain x given) = q.value (q.lineOperands plain x given) := by
  have hlegal : scopeFault (.line ["r", "k"]) = none := by decide +kernel
  have habsent : (tokenize "r*sin(X)").toOption.all
      (fun ts => !(lexemes ts).contains (.name "k")) = true := by
    decide +kernel
  have hunused : (read "r*sin(X)" (.line ["r"])).toOption.all
      (fun t => !t.builtIns.contains (Text.folded "k")) = true := by
    decide +kernel
  have hfresh : Fresh "r*sin(X)" ["r"] "k" :=
    ⟨fun ts hts => by simpa using of_all_toOption habsent ts hts, by decide +kernel,
      fun t ht => by simpa using of_all_toOption hunused t ht, by decide +kernel⟩
  have hok : (ofText? (α := Float) "r*sin(X)" (.line ["r"])).isOk = true := by decide +kernel
  refine ⟨hlegal, hfresh, (equation_concat_of_fresh "r*sin(X)" ["r"] "k" hlegal hfresh).resolve_left ?_⟩
  rintro ⟨hrepeated, -⟩
  rw [hrepeated] at hok
  cases hok

/-- A parameter may take the place of a function, which makes the formula invalid, or of a
constant, which changes its value. -/
theorem declared_name_captures :
    (scopeFault (.line ["safe_sin"]) = none ∧
      (ofText (α := Float) "sin(X)" (.line [])).isValid = true ∧
      (ofText (α := Float) "sin(X)" (.line ["safe_sin"])).isValid = false) ∧
    scopeFault (.line ["pi"]) = none ∧
      same ((ofText "PI*X" (.line [])).value
        ((ofText "PI*X" (.line [])).lineOperands false (2.0 : Float) [("pi", 3.0)]))
        6.283185307179586 = true ∧
      same ((ofText "PI*X" (.line ["pi"])).value
        ((ofText "PI*X" (.line ["pi"])).lineOperands false (2.0 : Float) [("pi", 3.0)])) 6.0 =
        true := by
  decide +kernel

end Equation

end PhasePortrait
