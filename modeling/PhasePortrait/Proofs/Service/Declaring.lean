import PhasePortrait.Proofs.Grammar.FirstRule
import PhasePortrait.Proofs.Grammar.Spacing
import PhasePortrait.Proofs.Names.Permutation
import PhasePortrait.Proofs.Service.Answering
import PhasePortrait.Proofs.Writing

/-!
# Parameters that a request gives

A list of parameters that could be read has every name once, and its names are made of small
letters, digits and underscores. Such names are identifiers, never the state variable, and stand as
different symbols. So there is a system of any formula over them, every value that it asks for is
there, and its names are only refused if one of them is the name of a function.
-/
namespace PhasePortrait

/-! ## Entries -/

namespace Entries
variable {β : Type} {name : String} {value : β} {entries : List (String × β)}

theorem names_set_of_mem (h : name ∈ entries.map Prod.fst) :
    (set name value entries).map Prod.fst = entries.map Prod.fst := by
  induction entries with
  | nil => cases h
  | cons entry rest ih =>
    obtain ⟨k, v⟩ := entry
    rw [set]
    split
    · next hk => rw [List.map_cons, List.map_cons, hk]
    · next hk =>
      have hrest := (List.mem_cons.mp h).resolve_left fun heq => hk heq.symm
      rw [List.map_cons, List.map_cons, ih hrest]

/-- A new name comes last. -/
theorem set_of_not_mem (h : name ∉ entries.map Prod.fst) :
    set name value entries = entries ++ [(name, value)] := by
  induction entries with
  | nil => rfl
  | cons entry rest ih =>
    obtain ⟨k, v⟩ := entry
    rw [List.map_cons, List.mem_cons, not_or] at h
    rw [set, if_neg (Ne.symm h.1), ih h.2, List.cons_append]

theorem names_set_of_not_mem (h : name ∉ entries.map Prod.fst) :
    (set name value entries).map Prod.fst = entries.map Prod.fst ++ [name] := by
  rw [set_of_not_mem h, List.map_append]
  rfl

/-- Entries with every name once are found under their names. -/
theorem lookup_of_mem (h : (entries.map Prod.fst).Nodup) (hmem : (name, value) ∈ entries) :
    entries.lookup name = some value := by
  induction entries with
  | nil => cases hmem
  | cons entry rest ih =>
    obtain ⟨k, v⟩ := entry
    obtain ⟨hk, hrest⟩ := List.nodup_cons.mp h
    rw [List.lookup_cons]
    obtain heq | hmem := List.mem_cons.mp hmem
    · cases heq
      rw [beq_self_eq_true]
    · have hne : name ≠ k := fun heq => hk (heq ▸ List.mem_map.mpr ⟨_, hmem, rfl⟩)
      rw [beq_eq_false_iff_ne.mpr hne]
      exact ih hrest hmem

end Entries

/-! ## Names that can be read -/

namespace Parameters
open Formula

/-- Every name is there once, and of the form that is asked for. -/
structure WellNamed (names : List String) : Prop where
  nodup : names.Nodup
  isName : ∀ name ∈ names, isName name

theorem wellNamed_nil : WellNamed (([] : List (String × Float)).map Prod.fst) :=
  ⟨List.nodup_nil, List.forall_mem_nil _⟩

theorem WellNamed.set {name : String} {value : Float} {entries : List (String × Float)}
    (h : WellNamed (entries.map Prod.fst)) (hname : Parameters.isName name) :
    WellNamed ((Entries.set name value entries).map Prod.fst) := by
  by_cases hmem : name ∈ entries.map Prod.fst
  · rwa [Entries.names_set_of_mem hmem]
  · rw [Entries.names_set_of_not_mem hmem]
    refine ⟨?_, ?_⟩
    · rw [← List.concat_eq_append, List.nodup_concat]
      exact ⟨hmem, h.nodup⟩
    · exact List.forall_mem_append.mpr ⟨h.isName, List.forall_mem_singleton.mpr hname⟩

theorem isName_of_readPiece {piece name : String} {value : Float}
    (h : readPiece piece = .ok (name, value)) : isName name := by
  unfold readPiece at h
  dsimp only at h
  split at h
  · cases h
  · split at h
    · cases h
    · next hname =>
      split at h
      · cases h
        simpa using hname
      · cases h

theorem wellNamed_readPieces {pieces : List String} {entries params : List (String × Float)}
    (hentries : WellNamed (entries.map Prod.fst)) (h : readPieces entries pieces = .ok params) :
    WellNamed (params.map Prod.fst) := by
  induction pieces generalizing entries with
  | nil =>
    cases h
    exact hentries
  | cons piece pieces ih =>
    obtain ⟨⟨name, value⟩, hpiece, hrest⟩ := exists_of_bind h
    exact ih (hentries.set (isName_of_readPiece hpiece)) hrest

/-- The names of a list of parameters, each of which is there once. -/
theorem wellNamed_read {text : String} {params : List (String × Float)}
    (h : read text = .ok params) : WellNamed (params.map Prod.fst) := by
  unfold read at h
  split at h
  · cases h
    exact wellNamed_nil
  · exact wellNamed_readPieces wellNamed_nil h

/-- Characters of a name are small, and may stand in an identifier; it may start with a letter. -/
theorem spec_of_namePart {c : Char} (h : isLowerLetter c || c.isDigit || c == '_') :
    c.toNat < 128 ∧ (Text.isAlphaNumeric c || c == '_') ∧ c.toLower = c ∧
      (isLowerLetter c → Text.isLetter c) := by
  have hascii : c.toNat < 128 := by
    rw [Bool.or_eq_true, Bool.or_eq_true, beq_iff_eq] at h
    obtain (h | h) | rfl := h
    · have hz : c.val ≤ 122 := of_decide_eq_true (Bool.and_eq_true_iff.mp h).2
      rw [UInt32.le_iff_toNat_le] at hz
      exact Nat.lt_of_le_of_lt hz (by decide)
    · exact lt_of_isAlphanum (Bool.or_eq_true_iff.mpr (.inr h))
    · decide
  refine ⟨hascii, ?_⟩
  refine of_ascii (P := fun c => (isLowerLetter c || c.isDigit || c == '_') →
    (Text.isAlphaNumeric c || c == '_') ∧ c.toLower = c ∧
      (isLowerLetter c → Text.isLetter c)) ?_ hascii h
  decide +kernel

section
variable {name : String} (h : isName name)
include h

/-- What a name is made of: a small letter, and more characters of a word. -/
theorem exists_chars_of_isName : ∃ c cs, name.toList = c :: cs ∧ isLowerLetter c ∧
    ∀ d ∈ name.toList, isLowerLetter d || d.isDigit || d == '_' := by
  unfold isName at h
  split at h
  · cases h
  · next c cs htext =>
    obtain ⟨hc, hcs⟩ := Bool.and_eq_true_iff.mp h
    refine ⟨c, cs, htext, hc, ?_⟩
    rw [htext, List.forall_mem_cons, hc]
    exact ⟨rfl, List.all_eq_true.mp hcs⟩

theorem folded_of_isName : Text.folded name = name := by
  obtain ⟨-, -, -, -, hparts⟩ := exists_chars_of_isName h
  exact Text.folded_of_ascii fun c hc => (spec_of_namePart (hparts c hc)).1

theorem lower_of_isName : Text.lower name = name := by
  obtain ⟨-, -, -, -, hparts⟩ := exists_chars_of_isName h
  refine String.toList_inj.mp ?_
  rw [Text.lower, String.toList_map]
  exact (List.map_congr_left fun c hc => (spec_of_namePart (hparts c hc)).2.2.1).trans (List.map_id' _)

theorem isIdentifier_of_isName : Formula.isIdentifier name := by
  obtain ⟨c, cs, htext, hc, hparts⟩ := exists_chars_of_isName h
  rw [htext] at hparts
  have hletter := (spec_of_namePart (hparts c List.mem_cons_self)).2.2.2 hc
  unfold Formula.isIdentifier
  rw [htext]
  refine Bool.and_eq_true_iff.mpr ⟨hletter, List.all_eq_true.mpr fun d hd => ?_⟩
  exact (spec_of_namePart (hparts d hd)).2.1

theorem ne_stateVariable_of_isName : name ≠ "X" := by
  rintro rfl
  revert h
  decide

end

end Parameters

/-! ## Declared names and their symbols -/

namespace Symbol
variable {names : List String}

/-- Different names that are their own identifiers stand as different symbols. -/
theorem nodup_ofNames (hnames : names.Nodup) (hfolded : ∀ name ∈ names, Text.folded name = name) :
    (ofNames names).Nodup := by
  rw [ofNames_eq_map hnames]
  refine (List.nodup_map_iff_inj_on hnames).mpr fun a ha b hb heq => ?_
  unfold standIn at heq
  split at heq
  · next i hi =>
    split at heq
    · next j hj =>
      cases heq
      obtain ⟨_, ha, -⟩ := List.idxOf?_eq_some_iff.mp hi
      obtain ⟨_, hb, -⟩ := List.idxOf?_eq_some_iff.mp hj
      exact ha.symm.trans hb
    · cases heq
  · split at heq
    · cases heq
    · rw [hfolded a ha, hfolded b hb] at heq
      exact named.inj heq

end Symbol

/-! ## Faults of declared names -/

theorem Fault.rule?_of_nameCollision {fault : Fault} (h : fault.kind = .nameCollision) :
    fault.rule? = some .declaredName := by
  cases fault <;> first | rfl | cases h

theorem Battery.kind_of_run {α ε : Type} {evaluator : Nat → List α → Outcome ε} {index : Nat}
    {trials : List (String × List α)} {fault : Fault}
    (h : (run evaluator index trials).2 = some (.refusal fault)) : fault.kind = .smokeTest := by
  induction trials generalizing index with
  | nil => cases h
  | cons trial trials ih =>
    rw [run] at h
    split at h
    · next interruption hinterruption =>
      cases h
      unfold interruptionAt at hinterruption
      split at hinterruption <;> cases hinterruption
      · rfl
      · rfl
    · exact ih h

namespace Formula
variable {α : Type} [Elementary α] {text : String} {s : Scope} {t : Tree String} {fault : Fault}

theorem kind_of_prepare (h : (prepare t s : Except Fault (Compiled α)) = .error fault) :
    fault.kind = .smokeTest := by
  unfold prepare at h
  dsimp only at h
  split at h
  · next interruption hsmoke =>
    cases h
    obtain fault | exception := interruption
    · exact Battery.kind_of_run hsmoke
    · exact exception.elim
  · cases h

/-- Names collide among the declared names. -/
theorem broken_of_nameCollision (h : compile (α := α) text s = .error fault)
    (hkind : fault.kind = .nameCollision) : Rule.Broken text s .declaredName := by
  cases hread : read text s with
  | ok t =>
    rw [compile_of_read hread] at h
    cases (kind_of_prepare h).symm.trans hkind
  | error fault' =>
    rw [compile_of_read_error hread] at h
    cases h
    rw [read] at hread
    cases hcheck : check text s with
    | error fault' =>
      rw [hcheck] at hread
      cases hread
      obtain ⟨-, -, -, hbroken, -⟩ := reports_check hcheck _ (Fault.rule?_of_nameCollision hkind)
      exact hbroken
    | ok ts =>
      obtain ⟨-, -, -, -, hwords⟩ := check_eq_ok_iff.mp hcheck
      rw [hcheck] at hread
      have hparse := kind_of_parseAll (wordsFault_eq_none_iff.mp hwords) hread
      rw [hkind] at hparse
      obtain hparse | hparse := hparse <;> cases hparse

end Formula

/-! ## Systems over the parameters of a request -/

namespace Parameters
open Formula

/-- The state variable may be declared, and is its own identifier. -/
theorem stateVariable_legal : Text.folded "X" = "X" ∧ isIdentifier "X" ∧
    (Function.ofName? "X").isSome = false := by
  decide +kernel

variable {names : List String} (h : WellNamed names)
include h

theorem WellNamed.nodup_symbols : (Symbol.ofNames (Scope.line names).names).Nodup := by
  have hX : "X" ∉ names := fun hX => ne_stateVariable_of_isName (h.isName _ hX) rfl
  refine Symbol.nodup_ofNames (List.nodup_cons.mpr ⟨hX, h.nodup⟩) (List.forall_mem_cons.mpr ⟨?_, ?_⟩)
  · exact stateVariable_legal.1
  · exact fun name hname => folded_of_isName (h.isName name hname)

/-- The declared names are refused for the name of a function alone. -/
theorem WellNamed.exists_function {text : String}
    (hbroken : Rule.Broken text (.line names) .declaredName) : ∃ f : Function, f.name ∈ names := by
  obtain ⟨name, hname, hfault⟩ | ⟨name, hname, hX⟩ := hbroken
  · obtain rfl | hname := List.mem_cons.mp hname
    · simp [stateVariable_legal] at hfault
    · obtain ⟨f, hf⟩ := Option.isSome_iff_exists.mp (hfault.resolve_left
        (not_not.mpr (isIdentifier_of_isName (h.isName name hname))))
      rw [Function.ofName?, lower_of_isName (h.isName name hname)] at hf
      have hname' : f.name = name := by simpa using List.find?_some hf
      exact ⟨f, hname' ▸ hname⟩
  · exact absurd (List.mem_singleton.mp hX) (ne_stateVariable_of_isName (h.isName name hname))

end Parameters

namespace Equation
variable {α : Type} [Elementary α]

theorem compile_of_fault? {text : String} {s : Scope} {fault : Fault}
    (h : (ofText (α := α) text s).fault? = some fault) :
    Formula.compile (α := α) (Text.strip text) s = .error fault := by
  rw [fault?, ofText] at h
  dsimp only at h
  split at h
  · cases h
  · next hcompile =>
    cases h
    exact hcompile

theorem parameterValues_of_nodup {given : List (String × α)}
    (h : (given.map Prod.fst).Nodup) :
    parameterValues (given.map Prod.fst) given = given.map Prod.snd := by
  rw [parameterValues, List.map_map]
  refine List.map_congr_left fun entry hentry => ?_
  dsimp only [Function.comp]
  rw [Entries.lookup_of_mem h hentry]
  rfl

end Equation

namespace Routes

theorem textField_of_text {data : Json} {key text : String} (h : data.get? key = some (.text text)) :
    textField data key = text := by
  unfold textField
  rw [h]
  by_cases hempty : text = ""
  · rw [hempty]
    rfl
  · have hfalsy : (Json.text text).isFalsy = false := by
      unfold Json.isFalsy
      split <;> simp_all
    dsimp only
    rw [hfalsy]
    rfl

/-- **Parameters that could be read are there for every formula.** Over the names of a list of
parameters, and for any text that is not blank, there is a system. Its parameters are these names,
all different, and all of its values are given. Each name is an identifier, and names collide only
if one of them is the name of a function. A request with this text and this list gets this system
and these values, unless the formula is refused. -/
theorem lineSystem_of_parameters {parameterText text : String} {params : ParameterValues Float}
    (hread : Parameters.read parameterText = .ok params) (htext : Text.isBlankText text = false) :
    ∃ s : LineSystem Float, LineSystem.ofText? (Text.strip text) (params.map Prod.fst) = .ok s ∧
      s.parameters = params.map Prod.fst ∧ s.parameters.Nodup ∧
      Equation.parameterValues s.parameters params = params.map Prod.snd ∧
      (∀ name ∈ s.parameters, Formula.isIdentifier name) ∧
      (s.xPrime.fault?.map Fault.kind = some .nameCollision →
        ∃ f : Function, f.name ∈ s.parameters) ∧
      ∀ data : Json, data.get? "equation" = some (.text text) →
        (data.get? "parameters").getD (.text "") = .text parameterText →
        lineSystem data = if s.isValid then .ok (s, params) else faulty s.errorMessage none := by
  have hnamed := Parameters.wellNamed_read hread
  have hdistinct : ¬Equation.Repeats (Text.strip text) (.line (params.map Prod.fst)) :=
    fun hrepeats => hrepeats.2 hnamed.nodup_symbols
  refine ⟨LineSystem.ofText (Text.strip text) (params.map Prod.fst), ?_, rfl, hnamed.nodup,
    Equation.parameterValues_of_nodup hnamed.nodup,
    fun name hname => Parameters.isIdentifier_of_isName (hnamed.isName name hname), ?_, ?_⟩
  · rw [LineSystem.ofText?, Equation.ofText?_of_not_repeats hdistinct]
    rfl
  · intro hkind
    obtain ⟨fault, hfault, hkind⟩ := Option.map_eq_some_iff.mp hkind
    exact hnamed.exists_function
      (Formula.broken_of_nameCollision (Equation.compile_of_fault? hfault) hkind)
  · intro data hequation hparameters
    have hstrip : (Text.strip text == "") = false := beq_eq_false_iff_ne.mpr fun hempty => by
      rw [Text.isBlankText_of_strip hempty] at htext
      cases htext
    have hgiven : parameters data = .ok params := by
      rw [parameters, hparameters]
      dsimp only
      rw [hread]
    unfold lineSystem
    simp only [textField_of_text hequation, hstrip, hgiven, refuseIf, Bool.false_eq_true, if_false,
      bind, Except.bind, pure, Except.pure]

theorem lineSystem_of_parameters_growth :
    ∃ params, Parameters.read "r = 2, lambda=0.5,r=1" = .ok params ∧
      Text.isBlankText "r*X*lambda" = false ∧
      ∃ s : LineSystem Float,
        LineSystem.ofText? (Text.strip "r*X*lambda") (params.map Prod.fst) = .ok s ∧
        s.parameters = params.map Prod.fst ∧ s.parameters.Nodup ∧
        Equation.parameterValues s.parameters params = params.map Prod.snd ∧
        (∀ name ∈ s.parameters, Formula.isIdentifier name) ∧
        (s.xPrime.fault?.map Fault.kind = some .nameCollision →
          ∃ f : Function, f.name ∈ s.parameters) ∧
        ∀ data : Json, data.get? "equation" = some (.text "r*X*lambda") →
          (data.get? "parameters").getD (.text "") = .text "r = 2, lambda=0.5,r=1" →
          lineSystem data = if s.isValid then .ok (s, params) else faulty s.errorMessage none := by
  obtain ⟨params, hread⟩ : ∃ params, Parameters.read "r = 2, lambda=0.5,r=1" = .ok params :=
    exists_of_isOk (by decide +kernel)
  have htext : Text.isBlankText "r*X*lambda" = false := by decide +kernel
  exact ⟨params, hread, htext, lineSystem_of_parameters hread htext⟩

end Routes

end PhasePortrait
