import Mathlib.Computability.Language
import PhasePortrait.Proofs.Number.Typed
import PhasePortrait.Proofs.Service.Declaring

/-!
# The format of parameter lists

A list of parameters is read piece by piece, and a piece either gives a value to a name or fails one of
three tests, of which the first one counts. So a list is read if all its pieces give values, and is refused
for the first piece that does not. The entries have the names in order of first appearance, each with its
last value. Blanks around names and values are trimmed together with those around their piece, and neither
a name nor a value has a comma, or a name an equals sign, within it: so whatever is written in this form is
read back.

## Main definitions

* `Parameters.nameForm` — the form of names, `[a-z][a-z0-9_]*`.
* `Parameters.Cut piece name value` — the piece is cut at its first equals sign.
* `Parameters.Gives piece row` — the piece gives a value to a name.
* `Parameters.Fails piece fault` — the first test that the piece fails, and with which text.
* `Parameters.Reads pieces outcome` — what reading these pieces comes to.
* `Parameters.Written` — a parameter as it may be written.
-/
namespace PhasePortrait
open Text

/-! ## Entries set one after the other -/

namespace Entries
variable {β : Type} {rows : List (String × β)}

/-- The entries after all these values have been set in turn. -/
def setAll (entries rows : List (String × β)) : List (String × β) :=
  rows.foldl (fun entries row => set row.1 row.2 entries) entries

theorem setAll_concat (entries rows : List (String × β)) (row : String × β) :
    setAll entries (rows ++ [row]) = set row.1 row.2 (setAll entries rows) := by
  rw [setAll, List.foldl_append]
  rfl

/-- The names stand in order of first appearance. -/
theorem names_setAll (rows : List (String × β)) :
    (setAll [] rows).map Prod.fst = (rows.map Prod.fst).eraseDups := by
  induction rows using List.reverseRecOn with
  | nil => rfl
  | append_singleton rows row ih =>
    rw [setAll_concat, List.map_append, List.eraseDups_append, List.map_singleton]
    by_cases hmem : row.1 ∈ rows.map Prod.fst
    · have hold : row.1 ∈ (setAll [] rows).map Prod.fst := by rwa [ih, List.mem_eraseDups]
      rw [names_set_of_mem hold, ih]
      simp [List.removeAll, hmem]
    · have hnew : row.1 ∉ (setAll [] rows).map Prod.fst := by rwa [ih, List.mem_eraseDups]
      rw [names_set_of_not_mem hnew, ih]
      simp [List.removeAll, hmem, List.eraseDups_cons]

/-- Each name has the value that it was given last. -/
theorem lookup_setAll (rows : List (String × β)) (name : String) :
    (setAll [] rows).lookup name = rows.reverse.lookup name := by
  induction rows using List.reverseRecOn with
  | nil => rfl
  | append_singleton rows row ih =>
    rw [setAll_concat, List.reverse_append, List.reverse_singleton, List.singleton_append,
      List.lookup_cons]
    by_cases hname : name = row.1
    · rw [hname, lookup_set_self, beq_self_eq_true]
    · rw [lookup_set_of_ne hname, beq_eq_false_iff_ne.mpr hname, ih]

/-- Different names stay as they are. -/
theorem setAll_of_nodup (h : (rows.map Prod.fst).Nodup) : setAll [] rows = rows := by
  induction rows using List.reverseRecOn with
  | nil => rfl
  | append_singleton rows row ih =>
    rw [List.map_append, List.map_singleton, ← List.concat_eq_append, List.nodup_concat] at h
    have hrows := ih h.2
    have hnew : row.1 ∉ (setAll [] rows).map Prod.fst := by rw [hrows]; exact h.1
    rw [setAll_concat, set_of_not_mem hnew, hrows]

end Entries

namespace Parameters
open Computability

/-! ## The form of names -/

def smallLetters : List Char := "abcdefghijklmnopqrstuvwxyz".toList

def nameCharacters : List Char := "abcdefghijklmnopqrstuvwxyz0123456789_".toList

/-- Words of one of these characters. -/
def oneOf (cs : List Char) : Language Char := {w | ∃ c ∈ cs, w = [c]}

/-- A small letter, then any number of small letters, digits and underscores. -/
def nameForm : Language Char := oneOf smallLetters * (oneOf nameCharacters)∗

theorem mem_kstar_oneOf_iff {cs w : List Char} : w ∈ (oneOf cs)∗ ↔ ∀ c ∈ w, c ∈ cs := by
  rw [Language.mem_kstar]
  constructor
  · rintro ⟨words, rfl, hwords⟩ c hc
    obtain ⟨word, hword, hc⟩ := List.mem_flatten.mp hc
    obtain ⟨d, hd, rfl⟩ := hwords word hword
    rwa [List.mem_singleton.mp hc]
  · intro h
    refine ⟨w.map fun c => [c], ?_, fun word hword => ?_⟩
    · rw [← List.flatMap_def, List.flatMap_singleton']
    · obtain ⟨c, hc, rfl⟩ := List.mem_map.mp hword
      exact ⟨c, h c hc, rfl⟩

theorem mem_smallLetters_iff {c : Char} : c ∈ smallLetters ↔ isLowerLetter c = true := by
  have hall : smallLetters.all isLowerLetter = true := by decide +kernel
  refine ⟨List.all_eq_true.mp hall c, fun h => ?_⟩
  have hascii : c.toNat < 128 := (spec_of_namePart (by rw [h]; rfl)).1
  exact Formula.of_ascii (P := fun c => isLowerLetter c = true → c ∈ smallLetters)
    (by decide +kernel) hascii h

theorem mem_nameCharacters_iff {c : Char} :
    c ∈ nameCharacters ↔ (isLowerLetter c || c.isDigit || c == '_') = true := by
  have hall : nameCharacters.all (fun c => isLowerLetter c || c.isDigit || c == '_') = true := by
    decide +kernel
  refine ⟨List.all_eq_true.mp hall c, fun h => ?_⟩
  exact Formula.of_ascii
    (P := fun c => (isLowerLetter c || c.isDigit || c == '_') = true → c ∈ nameCharacters)
    (by decide +kernel) (spec_of_namePart h).1 h

theorem isName_iff {name : String} : isName name = true ↔ name.toList ∈ nameForm := by
  rw [isName, nameForm, Language.mem_mul]
  cases name.toList with
  | nil =>
    refine iff_of_false Bool.false_ne_true ?_
    rintro ⟨_, ⟨_, -, rfl⟩, _, -, heq⟩
    exact List.cons_ne_nil _ _ heq
  | cons c cs =>
    rw [Bool.and_eq_true, List.all_eq_true]
    constructor
    · rintro ⟨hfirst, hrest⟩
      exact ⟨[c], ⟨c, mem_smallLetters_iff.mpr hfirst, rfl⟩, cs,
        mem_kstar_oneOf_iff.mpr fun d hd => mem_nameCharacters_iff.mpr (hrest d hd), rfl⟩
    · rintro ⟨_, ⟨d, hd, rfl⟩, rest, hrest, heq⟩
      cases heq
      exact ⟨mem_smallLetters_iff.mp hd, fun e he =>
        mem_nameCharacters_iff.mp (mem_kstar_oneOf_iff.mp hrest e he)⟩

/-- Names hold no blank, no equals sign and no comma. -/
theorem not_mark_of_mem_nameForm {cs : List Char} (h : cs ∈ nameForm) :
    ∀ c ∈ cs, isBlank c = false ∧ c ≠ '=' ∧ c ≠ ',' := by
  have hall : nameCharacters.all fun c => decide (isBlank c = false ∧ c ≠ '=' ∧ c ≠ ',') := by
    decide +kernel
  have hsub : smallLetters.all fun c => decide (c ∈ nameCharacters) := by decide +kernel
  simp only [List.all_eq_true, decide_eq_true_eq] at hall hsub
  obtain ⟨_, ⟨first, hfirst, rfl⟩, rest, hrest, rfl⟩ := Language.mem_mul.mp h
  intro c hc
  obtain rfl | hc := List.mem_cons.mp hc
  · exact hall _ (hsub _ hfirst)
  · exact hall c (mem_kstar_oneOf_iff.mp hrest c hc)

/-! ## One piece -/

/-- The piece is cut at its first equals sign. -/
structure Cut (piece name value : String) : Prop where
  eq : piece = name ++ "=" ++ value
  first : '=' ∉ name.toList

/-- The piece gives a value to a name: what stands before its first equals sign has the form of a name, and
what stands behind it is read as a number, both without the blanks around them. -/
inductive Gives (piece : String) : String × Float → Prop
  | intro {name value : String} {x : Float} (hcut : Cut piece name value)
      (hname : (strip name).toList ∈ nameForm) (hvalue : Reading.readNumber? (strip value) = some x) :
      Gives piece (strip name, x)

/-- The first test that the piece fails, with the text that is reported: the piece, or what stands for the
name or the value, without the blanks around it. -/
inductive Fails (piece : String) : ParameterFault → Prop
  | noEquals (h : '=' ∉ piece.toList) : Fails piece (.noEquals (strip piece))
  | badName {name value : String} (hcut : Cut piece name value)
      (hname : (strip name).toList ∉ nameForm) : Fails piece (.badName (strip name))
  | badValue {name value : String} (hcut : Cut piece name value)
      (hname : (strip name).toList ∈ nameForm) (hvalue : Reading.readNumber? (strip value) = none) :
      Fails piece (.badValue (strip value))

theorem exists_cut {piece : String} (h : '=' ∈ piece.toList) : ∃ name value, Cut piece name value := by
  obtain ⟨before, behind, heq, hfirst⟩ := List.eq_append_cons_of_mem h
  refine ⟨String.ofList before, String.ofList behind, ?_, by rwa [String.toList_ofList]⟩
  rw [← String.toList_inj, heq]
  simp

/-- Every piece gives a value or fails a test. -/
theorem gives_or_fails (piece : String) : (∃ row, Gives piece row) ∨ ∃ fault, Fails piece fault := by
  by_cases hmem : '=' ∈ piece.toList
  · obtain ⟨name, value, hcut⟩ := exists_cut hmem
    by_cases hname : (strip name).toList ∈ nameForm
    · cases hvalue : Reading.readNumber? (strip value) with
      | some x => exact .inl ⟨_, .intro hcut hname hvalue⟩
      | none => exact .inr ⟨_, .badValue hcut hname hvalue⟩
    · exact .inr ⟨_, .badName hcut hname⟩
  · exact .inr ⟨_, .noEquals hmem⟩

theorem readPiece_of_cut {piece name value : String} (h : Cut piece name value) :
    readPiece piece = if !isName (strip name) then .error (.badName (strip name))
      else (Reading.readNumber? (strip value)).elim (.error (.badValue (strip value)))
        fun x => .ok (strip name, x) := by
  obtain ⟨name', value', hcut, hname, hvalue⟩ :=
    exists_cutAt?_strip (by decide +kernel) h.first value
  have hpiece : cutAt? '=' (strip piece) = some (name', value') := by
    rw [h.eq]
    exact hcut
  unfold readPiece
  dsimp only
  rw [hpiece]
  dsimp only
  rw [hname, hvalue]
  cases Reading.readNumber? (strip value) <;> rfl

theorem readPiece_of_gives {piece : String} {row : String × Float} (h : Gives piece row) :
    readPiece piece = .ok row := by
  obtain ⟨hcut, hname, hvalue⟩ := h
  rw [readPiece_of_cut hcut, isName_iff.mpr hname, hvalue]
  rfl

theorem readPiece_of_fails {piece : String} {fault : ParameterFault} (h : Fails piece fault) :
    readPiece piece = .error fault := by
  cases h with
  | noEquals h =>
    have hstrip : '=' ∉ (strip piece).toList := by
      obtain ⟨front, back, heq, -⟩ := exists_eq_of_strip piece
      intro hmem
      exact h (heq ▸ List.mem_append_right _ (List.mem_append_left _ hmem))
    unfold readPiece
    dsimp only
    rw [cutAt?_eq_none hstrip]
  | badName hcut hname =>
    rw [readPiece_of_cut hcut, Bool.eq_false_iff.mpr (mt isName_iff.mp hname)]
    rfl
  | badValue hcut hname hvalue =>
    rw [readPiece_of_cut hcut, isName_iff.mpr hname, hvalue]
    rfl

/-! ## All pieces -/

/-- A list of pieces gives values, or has a first piece that fails. -/
theorem all_give_or_first_fails (pieces : List String) :
    (∃ rows, List.Forall₂ Gives pieces rows) ∨
      ∃ before piece after fault, pieces = before ++ piece :: after ∧
        (∀ p ∈ before, ∃ row, Gives p row) ∧ Fails piece fault := by
  induction pieces with
  | nil => exact .inl ⟨[], .nil⟩
  | cons piece pieces ih =>
    obtain ⟨row, hrow⟩ | ⟨fault, hfault⟩ := gives_or_fails piece
    · obtain ⟨rows, hrows⟩ | ⟨before, p, after, fault, rfl, hbefore, hfault⟩ := ih
      · exact .inl ⟨row :: rows, .cons hrow hrows⟩
      · exact .inr ⟨piece :: before, p, after, fault, rfl,
          List.forall_mem_cons.mpr ⟨⟨row, hrow⟩, hbefore⟩, hfault⟩
    · exact .inr ⟨[], piece, pieces, fault, rfl, List.forall_mem_nil _, hfault⟩

theorem exists_gives_of_mem {pieces : List String} {rows : List (String × Float)}
    (h : List.Forall₂ Gives pieces rows) : ∀ piece ∈ pieces, ∃ row, Gives piece row := by
  induction h with
  | nil => exact List.forall_mem_nil _
  | cons hrow _ ih => exact List.forall_mem_cons.mpr ⟨⟨_, hrow⟩, ih⟩

theorem readPieces_of_gives {pieces : List String} {rows : List (String × Float)}
    (h : List.Forall₂ Gives pieces rows) (entries : List (String × Float)) :
    readPieces entries pieces = .ok (Entries.setAll entries rows) := by
  induction h generalizing entries with
  | nil => rfl
  | cons hrow _ ih =>
    rw [readPieces, readPiece_of_gives hrow]
    exact ih _

theorem readPieces_of_fails {before after : List String} {piece : String} {fault : ParameterFault}
    (hbefore : ∀ p ∈ before, ∃ row, Gives p row) (h : Fails piece fault)
    (entries : List (String × Float)) :
    readPieces entries (before ++ piece :: after) = .error fault := by
  induction before generalizing entries with
  | nil =>
    rw [List.nil_append, readPieces, readPiece_of_fails h]
    rfl
  | cons p before ih =>
    obtain ⟨⟨row, hrow⟩, hbefore⟩ := List.forall_mem_cons.mp hbefore
    rw [List.cons_append, readPieces, readPiece_of_gives hrow]
    exact ih hbefore _

/-- Reading succeeds if and only if all pieces give values; then the entries have the names in order of
first appearance, each with the value of its last piece. Otherwise it fails with the first test that the
first failing piece fails. -/
structure Reads (pieces : List String) (outcome : Except ParameterFault (List (String × Float))) :
    Prop where
  ok_iff : (∃ entries, outcome = .ok entries) ↔ ∀ piece ∈ pieces, ∃ row, Gives piece row
  entries : ∀ rows, List.Forall₂ Gives pieces rows → ∃ entries, outcome = .ok entries ∧
    entries.map Prod.fst = (rows.map Prod.fst).eraseDups ∧
    ∀ name, entries.lookup name = rows.reverse.lookup name
  error_iff : ∀ fault, outcome = .error fault ↔ ∃ before piece after,
    pieces = before ++ piece :: after ∧ (∀ p ∈ before, ∃ row, Gives p row) ∧ Fails piece fault

theorem reads_readPieces (pieces : List String) : Reads pieces (readPieces [] pieces) where
  ok_iff := by
    constructor
    · rintro ⟨entries, hentries⟩
      obtain ⟨rows, hrows⟩ | ⟨before, piece, after, fault, rfl, hbefore, hfault⟩ :=
        all_give_or_first_fails pieces
      · exact exists_gives_of_mem hrows
      · rw [readPieces_of_fails hbefore hfault] at hentries
        cases hentries
    · intro h
      obtain ⟨rows, hrows⟩ | ⟨before, piece, after, fault, rfl, -, hfault⟩ :=
        all_give_or_first_fails pieces
      · exact ⟨_, readPieces_of_gives hrows []⟩
      · obtain ⟨row, hrow⟩ := h piece (by simp)
        have hboth := (readPiece_of_gives hrow).symm.trans (readPiece_of_fails hfault)
        cases hboth
  entries rows hrows :=
    ⟨_, readPieces_of_gives hrows [], Entries.names_setAll rows, Entries.lookup_setAll rows⟩
  error_iff fault := by
    constructor
    · intro h
      obtain ⟨rows, hrows⟩ | ⟨before, piece, after, fault', rfl, hbefore, hfault⟩ :=
        all_give_or_first_fails pieces
      · rw [readPieces_of_gives hrows] at h
        cases h
      · rw [readPieces_of_fails hbefore hfault] at h
        cases h
        exact ⟨before, piece, after, rfl, hbefore, hfault⟩
    · rintro ⟨before, piece, after, rfl, hbefore, hfault⟩
      exact readPieces_of_fails hbefore hfault []

/-! ## Writing -/

/-- A text of blanks, or of nothing. -/
abbrev Blanks := {text : String // isBlankText text = true}

/-- A parameter as it may be written: a name and a text that is read as its value, with blanks around
them. -/
structure Written where
  name : String
  value : String
  number : Float
  front : Blanks
  behindName : Blanks
  beforeValue : Blanks
  back : Blanks
  name_mem : name.toList ∈ nameForm
  value_reads : Reading.readNumber? value = some number

namespace Written
variable (w : Written)

def text : String :=
  w.front.val ++ w.name ++ w.behindName.val ++ "=" ++ (w.beforeValue.val ++ w.value ++ w.back.val)

def entry : String × Float := (w.name, w.number)

theorem strip_name : strip (w.front.val ++ w.name ++ w.behindName.val) = w.name := by
  rw [strip_append w.front.property w.behindName.property]
  exact strip_eq_self fun c hc => (not_mark_of_mem_nameForm w.name_mem c hc).1

theorem not_mem_of_blank {c : Char} (hc : isBlank c = false) (b : Blanks) : c ∉ b.val.toList := by
  intro hmem
  rw [isBlankText_iff_forall.mp b.property c hmem] at hc
  cases hc

theorem cut : Cut w.text (w.front.val ++ w.name ++ w.behindName.val)
    (w.beforeValue.val ++ w.value ++ w.back.val) where
  eq := rfl
  first := by
    have hblank : isBlank '=' = false := by decide +kernel
    have hname : '=' ∉ w.name.toList :=
      fun hmem => (not_mark_of_mem_nameForm w.name_mem _ hmem).2.1 rfl
    rw [String.toList_append, String.toList_append, List.mem_append, List.mem_append, not_or, not_or]
    exact ⟨⟨not_mem_of_blank hblank w.front, hname⟩, not_mem_of_blank hblank w.behindName⟩

theorem gives : Gives w.text w.entry := by
  have hname : (strip (w.front.val ++ w.name ++ w.behindName.val)).toList ∈ nameForm := by
    rw [w.strip_name]
    exact w.name_mem
  have hgives := Gives.intro w.cut hname
    (Reading.readNumber?_strip w.value_reads w.beforeValue.property w.back.property)
  rwa [w.strip_name] at hgives

theorem not_mem_comma : ',' ∉ w.text.toList := by
  have hblank : isBlank ',' = false := by decide +kernel
  have hname : ',' ∉ w.name.toList :=
    fun hmem => (not_mark_of_mem_nameForm w.name_mem _ hmem).2.2 rfl
  have hvalue : ',' ∉ w.value.toList := Reading.not_mem_of_readNumber? w.value_reads
  have hfront := not_mem_of_blank hblank w.front
  have hbehind := not_mem_of_blank hblank w.behindName
  have hbefore := not_mem_of_blank hblank w.beforeValue
  have hback := not_mem_of_blank hblank w.back
  simp [text, hname, hvalue, hfront, hbehind, hbefore, hback]

theorem mem_equals : '=' ∈ w.text.toList := by simp [text]

end Written

/-- What is written in the format is read back. -/
theorem read_written {ws : List Written} (h : (ws.map Written.name).Nodup) :
    read (",".intercalate (ws.map Written.text)) = .ok (ws.map Written.entry) := by
  cases ws with
  | nil => rfl
  | cons w rest =>
    have hseparated : Separated ',' (",".intercalate ((w :: rest).map Written.text))
        ((w :: rest).map Written.text) :=
      { ne_nil := by simp
        not_mem := by
          rintro _ hpiece
          obtain ⟨v, -, rfl⟩ := List.mem_map.mp hpiece
          exact v.not_mem_comma
        eq := rfl }
    have hmem : '=' ∈ (",".intercalate ((w :: rest).map Written.text)).toList := by
      cases rest with
      | nil => simpa using w.mem_equals
      | cons v rest => simp [String.intercalate_cons_cons, w.mem_equals]
    have hblank : isBlankText (",".intercalate ((w :: rest).map Written.text)) = false := by
      rw [Bool.eq_false_iff]
      intro hblank
      have hequals := isBlankText_iff_forall.mp hblank '=' hmem
      revert hequals
      decide +kernel
    have hgives : List.Forall₂ Gives ((w :: rest).map Written.text) ((w :: rest).map Written.entry) := by
      rw [List.forall₂_map_left_iff, List.forall₂_map_right_iff, List.forall₂_same]
      exact fun v _ => v.gives
    have hnames : ((w :: rest).map Written.entry).map Prod.fst = (w :: rest).map Written.name := by
      rw [List.map_map]
      rfl
    rw [read, hblank, ← separated_iff.mp hseparated, readPieces_of_gives hgives,
      Entries.setAll_of_nodup (hnames ▸ h)]
    rfl

/-- **Parameter lists are read in exactly their format.** A text that is not blank is divided at its commas
into pieces, and read as these say: all of them must give a value to a name, and the first that does not
is reported, by the message of the first test that it fails. What is written in this form, with different names and
blanks anywhere around names and values, is read back. -/
theorem read_exactly :
    (∀ text, isBlankText text = false →
      ∃ pieces, (∀ ps, Separated ',' text ps ↔ ps = pieces) ∧ Reads pieces (read text)) ∧
    ∀ ws : List Written, (ws.map Written.name).Nodup →
      read (",".intercalate (ws.map Written.text)) = .ok (ws.map Written.entry) := by
  refine ⟨fun text hblank => ⟨pieces ',' text, fun ps => separated_iff, ?_⟩, fun ws h => read_written h⟩
  rw [read, hblank]
  exact reads_readPieces _

/-- The second of these pieces is reported, as its name starts with a digit; and blanks around names,
values and commas are passed over. -/
theorem read_exactly_spaced :
    read "r=1,2r=3,x" = .error (.badName "2r") ∧
    ∃ x y, Reading.readNumber? "2.5" = some x ∧ Reading.readNumber? "1e3" = some y ∧
      read " r = 2.5 ,\tk=1e3" = .ok [("r", x), ("k", y)] := by
  constructor
  · obtain ⟨pieces, hpieces, hreads⟩ := read_exactly.1 "r=1,2r=3,x" (by decide +kernel)
    have hseparated : Separated ',' "r=1,2r=3,x" ["r=1", "2r=3", "x"] :=
      { ne_nil := List.cons_ne_nil _ _
        not_mem := by decide +kernel
        eq := by decide +kernel }
    obtain rfl := (hpieces _).mp hseparated
    obtain ⟨one, hone⟩ : ∃ x, Reading.readNumber? (strip "1") = some x :=
      Option.isSome_iff_exists.mp (by decide +kernel)
    have hfirst : Gives "r=1" (strip "r", one) :=
      .intro ⟨by decide +kernel, by decide +kernel⟩ (isName_iff.mp (by decide +kernel)) hone
    have hcut : Cut "2r=3" "2r" "3" := ⟨by decide +kernel, by decide +kernel⟩
    have hsecond : Fails "2r=3" (.badName (strip "2r")) :=
      .badName hcut fun hmem => absurd (isName_iff.mpr hmem) (by decide +kernel)
    have hstrip : strip "2r" = "2r" := by decide +kernel
    rw [hstrip] at hsecond
    exact (hreads.error_iff _).mpr ⟨["r=1"], "2r=3", ["x"], rfl,
      List.forall_mem_singleton.mpr ⟨_, hfirst⟩, hsecond⟩
  · obtain ⟨x, hx⟩ : ∃ x, Reading.readNumber? "2.5" = some x :=
      Option.isSome_iff_exists.mp (by decide +kernel)
    obtain ⟨y, hy⟩ : ∃ y, Reading.readNumber? "1e3" = some y :=
      Option.isSome_iff_exists.mp (by decide +kernel)
    have hread := read_exactly.2
      [{ name := "r", value := "2.5", number := x, front := ⟨" ", by decide +kernel⟩,
         behindName := ⟨" ", by decide +kernel⟩, beforeValue := ⟨" ", by decide +kernel⟩,
         back := ⟨" ", by decide +kernel⟩, name_mem := isName_iff.mp (by decide +kernel),
         value_reads := hx },
       { name := "k", value := "1e3", number := y, front := ⟨"\t", by decide +kernel⟩,
         behindName := ⟨"", by decide +kernel⟩, beforeValue := ⟨"", by decide +kernel⟩,
         back := ⟨"", by decide +kernel⟩, name_mem := isName_iff.mp (by decide +kernel),
         value_reads := hy }] (by simp)
    exact ⟨x, y, hx, hy, hread⟩

end Parameters

end PhasePortrait
