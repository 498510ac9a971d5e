import PhasePortrait.Proofs.Grammar.Agreement
import PhasePortrait.Proofs.Grammar.Exactness
import PhasePortrait.Proofs.Lexer.Spelling

/-!
# Writing a tree

Every tree can be written as a formula that is read back as the same tree, with parentheses around
every negation and every binary operation. Its numbers have to be numbers, its symbols declared, and
its constants not hidden by a declared name.

## Main definitions

* `Tree.written t` — a formula for `t`.
* `Tree.spelled t` — its lexemes.
* `Writable s t` — the words and numbers of `t` can be written where `s` is declared.
-/
namespace PhasePortrait

namespace Tree

mutual
/-- A formula for a tree. -/
def written : Tree String → String
  | number text => text
  | symbol name => name
  | constant c => c.name
  | negate t => "(-" ++ written t ++ ")"
  | binary o l r => "(" ++ written l ++ o.text ++ written r ++ ")"
  | call f args => f.name ++ "(" ++ ",".intercalate (writtenAll args) ++ ")"

def writtenAll : List (Tree String) → List String
  | [] => []
  | t :: ts => written t :: writtenAll ts
end

mutual
/-- The lexemes of the formula for a tree. -/
def spelled : Tree String → List Lexeme
  | number text => [.number text]
  | symbol name => [.name name]
  | constant c => [.name c.name]
  | negate t => .leftParen :: .operator .sub :: (spelled t ++ [.rightParen])
  | binary o l r => .leftParen :: (spelled l ++ .operator o :: spelled r ++ [.rightParen])
  | call f args =>
    .name f.name :: .leftParen :: (Formula.separated (spelledAll args) ++ [.rightParen])

def spelledAll : List (Tree String) → List (List Lexeme)
  | [] => []
  | t :: ts => spelled t :: spelledAll ts
end

theorem writtenAll_eq_map (ts : List (Tree String)) : writtenAll ts = ts.map written := by
  induction ts with
  | nil => rfl
  | cons t ts ih => rw [writtenAll, ih, List.map_cons]

theorem spelledAll_eq_map (ts : List (Tree String)) : spelledAll ts = ts.map spelled := by
  induction ts with
  | nil => rfl
  | cons t ts ih => rw [spelledAll, ih, List.map_cons]

end Tree

namespace Formula
open Number

/-- Numbers are written as numbers, symbols are declared and plain ASCII, no declared name hides a
constant, and functions have as many arguments as they admit. -/
inductive Writable (s : Scope) : Tree String → Prop
  | number {text} : Numeral text.toList → Writable s (.number text)
  | symbol {name} : name ∈ s.names → (∀ c ∈ name.toList, c.toNat < 128) → Writable s (.symbol name)
  | constant {c} : c.name ∉ s.names → Writable s (.constant c)
  | negate {t} : Writable s t → Writable s (.negate t)
  | binary {o l r} : Writable s l → Writable s r → Writable s (.binary o l r)
  | call {f args} : f.admits args.length → (∀ arg ∈ args, Writable s arg) →
      Writable s (.call f args)

variable {s : Scope} {t : Tree String}

/-! ## The lexemes derive the tree -/

theorem derives_of_primary {g : Grammar} {ls : List Lexeme} (h : Derives g .primary ls t)
    (level : Level) : Derives g level ls t := by
  have hpower := Derives.primary h
  have hsigned := Derives.power hpower
  have hproduct := Derives.signed hsigned
  cases level with
  | sum => exact .product hproduct
  | product => exact hproduct
  | signed => exact hsigned
  | power => exact hpower
  | primary => exact h

/-- An operation between operands in parentheses or without operators. -/
theorem derives_binary {g : Grammar} {ls rs : List Lexeme} {l r : Tree String}
    (hl : Derives g .primary ls l) (hr : Derives g .primary rs r) (o : Operator) :
    Derives g .sum (ls ++ .operator o :: rs) (.binary o l r) := by
  have hl := derives_of_primary hl
  have hr := derives_of_primary hr
  cases o with
  | add => exact .addition (.inl rfl) (hl .sum) (hr .product)
  | sub => exact .addition (.inr rfl) (hl .sum) (hr .product)
  | mul => exact .product (.multiplication (.inl rfl) (hl .product) (hr .signed))
  | div => exact .product (.multiplication (.inr rfl) (hl .product) (hr .signed))
  | pow => exact .product (.signed (.power (.raising (hl .primary) (hr .power))))

theorem ne_nil_of_admits {α : Type} {f : Function} {args : List α}
    (h : f.admits args.length) : args ≠ [] := by
  rintro rfl
  cases f <;> cases h

theorem derives_spelled (h : Writable s t) : Derives (.ofNames s.names) .primary t.spelled t := by
  induction h with
  | number _ => exact .number
  | symbol hname _ => exact .symbol hname
  | constant hname => exact .constant hname (Constant.ofName?_name _)
  | negate _ ih =>
      have hgroup := Derives.group (.product (.signed (.negation (derives_of_primary ih .signed))))
      simpa [Tree.spelled] using hgroup
  | binary _ _ ihl ihr => exact .group (derives_binary ihl ihr _)
  | @call f args hadmits _ ih =>
      have hcall := Derives.call (g := .ofNames s.names) (args.map fun arg => (arg.spelled, arg))
        (Function.ofName?_name f) (by simpa using ne_nil_of_admits hadmits)
        (by rwa [List.length_map])
        (by simpa using fun arg harg => derives_of_primary (ih arg harg) .sum)
      simpa [Tree.spelled, Tree.spelledAll_eq_map, Function.comp_def] using hcall

/-! ## The formula is the text of its lexemes -/

theorem spelling_separated (lss : List (List Lexeme)) :
    spelling (separated lss) = [','].intercalate (lss.map spelling) := by
  induction lss with
  | nil => rfl
  | cons ls lss ih =>
      cases lss with
      | nil => simp [List.intercalate]
      | cons rs lss =>
          rw [separated_cons_cons, spelling_append, spelling_cons, ih]
          simp [List.intercalate, Lexeme.text]

theorem toList_written (h : Writable s t) : t.written.toList = spelling t.spelled := by
  induction h with
  | number _ => simp [Tree.written, Tree.spelled, Lexeme.text]
  | symbol _ _ => simp [Tree.written, Tree.spelled, Lexeme.text]
  | constant _ => simp [Tree.written, Tree.spelled, Lexeme.text]
  | negate _ ih =>
      simp [Tree.written, Tree.spelled, Lexeme.text, ih, Operator.text, Operator.symbol]
  | binary _ _ ihl ihr => simp [Tree.written, Tree.spelled, Lexeme.text, ihl, ihr]
  | @call f args _ _ ih =>
      have hargs : args.map (String.toList ∘ Tree.written) = args.map (spelling ∘ Tree.spelled) :=
        List.map_congr_left ih
      simp [Tree.written, Tree.spelled, Lexeme.text, Tree.writtenAll_eq_map, Tree.spelledAll_eq_map,
        spelling_separated, String.toList_intercalate, hargs]

/-! ## Neighbours in the formula -/

/-- Neighbours that neither run together nor double the minus sign. -/
def Parted (a b : Lexeme) : Prop := Apart a b ∧ (a = .operator .sub → b ≠ .operator .sub)

/-- Lexemes of an operand, in which all neighbours are parted. -/
structure Tidy (ls : List Lexeme) : Prop where
  ne_nil : ls ≠ []
  parted : ls.IsChain Parted
  starts : ∀ l ∈ ls.head?, l.startsOperand
  ends : ∀ l ∈ ls.getLast?, l.endsOperand

theorem parted_mark {a b : Lexeme} (ha : a.endsOperand) (hb : goesOn b = false) : Parted a b := by
  refine ⟨fun _ => hb, ?_⟩
  rintro rfl
  cases ha

theorem mark_parted {a b : Lexeme} (ha : goesOn a = false) (hb : b.startsOperand) : Parted a b := by
  constructor
  · intro h
    rw [ha] at h
    cases h
  · rintro - rfl
    cases hb

theorem leftParen_parted (b : Lexeme) : Parted .leftParen b := ⟨nofun, nofun⟩

theorem tidy_singleton {l : Lexeme} (hstart : l.startsOperand) (hend : l.endsOperand) :
    Tidy [l] where
  ne_nil := nofun
  parted := .singleton l
  starts := by rintro _ ⟨⟩; exact hstart
  ends := by rintro _ ⟨⟩; exact hend

namespace Tidy
variable {ls rs : List Lexeme}

/-- Two operands with a mark between them. -/
theorem between (hls : Tidy ls) (hrs : Tidy rs) {m : Lexeme} (hm : goesOn m = false) :
    Tidy (ls ++ m :: rs) where
  ne_nil := by simp
  parted := by
    refine List.isChain_append.mpr ⟨hls.parted, hrs.parted.cons fun l hl => ?_, ?_⟩
    · exact mark_parted hm (hrs.starts l hl)
    · rintro l hl _ ⟨⟩
      exact parted_mark (hls.ends l hl) hm
  starts := by
    rw [List.head?_append_of_ne_nil _ hls.ne_nil]
    exact hls.starts
  ends := by
    rw [List.getLast?_append_of_ne_nil _ (by simp), List.getLast?_cons_of_ne_nil hrs.ne_nil]
    exact hrs.ends

/-- Up to a closing parenthesis. -/
theorem closed (h : Tidy ls) : (ls ++ [Lexeme.rightParen]).IsChain Parted := by
  refine List.isChain_append.mpr ⟨h.parted, .singleton _, ?_⟩
  rintro l hl _ ⟨⟩
  exact parted_mark (h.ends l hl) rfl

theorem enclosed (h : Tidy ls) : Tidy (.leftParen :: (ls ++ [.rightParen])) where
  ne_nil := nofun
  parted := h.closed.cons fun l _ => leftParen_parted l
  starts := by rintro _ ⟨⟩; rfl
  ends := by
    rw [← List.cons_append, List.getLast?_concat]
    rintro _ ⟨⟩; rfl

theorem negated (h : Tidy ls) :
    Tidy (.leftParen :: .operator .sub :: (ls ++ [.rightParen])) where
  ne_nil := nofun
  parted := by
    refine .cons_cons (leftParen_parted _) (h.closed.cons fun l hl => ?_)
    rw [List.head?_append_of_ne_nil _ h.ne_nil] at hl
    exact mark_parted rfl (h.starts l hl)
  starts := by rintro _ ⟨⟩; rfl
  ends := by
    rw [← List.cons_append, ← List.cons_append, List.getLast?_concat]
    rintro _ ⟨⟩; rfl

theorem called (h : Tidy ls) (name : String) :
    Tidy (.name name :: .leftParen :: (ls ++ [.rightParen])) where
  ne_nil := nofun
  parted := .cons_cons (parted_mark rfl rfl) h.enclosed.parted
  starts := by rintro _ ⟨⟩; rfl
  ends := by
    rw [← List.cons_append, ← List.cons_append, List.getLast?_concat]
    rintro _ ⟨⟩; rfl

end Tidy

theorem tidy_separated {lss : List (List Lexeme)} (hne : lss ≠ []) (h : ∀ ls ∈ lss, Tidy ls) :
    Tidy (separated lss) := by
  induction lss with
  | nil => exact absurd rfl hne
  | cons ls lss ih =>
      have hls := h ls List.mem_cons_self
      cases lss with
      | nil => rwa [separated_singleton]
      | cons rs lss =>
          rw [separated_cons_cons]
          exact hls.between (ih nofun fun ls' hls' => h ls' (List.mem_cons_of_mem _ hls')) rfl

theorem tidy_spelled (h : Writable s t) : Tidy t.spelled := by
  induction h with
  | number _ => exact tidy_singleton rfl rfl
  | symbol _ _ => exact tidy_singleton rfl rfl
  | constant _ => exact tidy_singleton rfl rfl
  | negate _ ih => exact ih.negated
  | binary _ _ ihl ihr =>
      rw [Tree.spelled]
      exact (ihl.between ihr rfl).enclosed
  | @call f args hadmits _ ih =>
      rw [Tree.spelled, Tree.spelledAll_eq_map]
      have hne : args.map Tree.spelled ≠ [] := by simpa using ne_nil_of_admits hadmits
      exact (tidy_separated hne (by simpa using ih)).called f.name

/-! ## Words and numbers in the formula -/

theorem isAlpha_of_isLetter {c : Char} (hc : c.toNat < 128) (h : Text.isLetter c) : c.isAlpha := by
  refine of_ascii (P := fun c => Text.isLetter c → c.isAlpha) ?_ hc h
  decide +kernel

theorem isNameChar_of_isAlphaNumeric {c : Char} (hc : c.toNat < 128)
    (h : Text.isAlphaNumeric c || c == '_') : isNameChar c := by
  refine of_ascii (P := fun c => (Text.isAlphaNumeric c || c == '_') → isNameChar c) ?_ hc h
  decide +kernel

/-- In ASCII, the identifiers that may be declared are the words that a formula may use. -/
theorem word_of_isIdentifier {name : String} (h : isIdentifier name)
    (hascii : ∀ c ∈ name.toList, c.toNat < 128) : Word name.toList := by
  unfold isIdentifier at h
  split at h
  · cases h
  · next c cs htext =>
    rw [htext] at hascii ⊢
    obtain ⟨hc, hcs⟩ := Bool.and_eq_true_iff.mp h
    refine ⟨c, cs, rfl, isAlpha_of_isLetter (hascii c List.mem_cons_self) hc, fun d hd => ?_⟩
    have hd := List.mem_cons_of_mem c hd
    exact isNameChar_of_isAlphaNumeric (hascii d hd) (List.all_eq_true.mp hcs d hd)

theorem isIdentifier_of_scopeFault (h : scopeFault s = none) {name : String}
    (hname : name ∈ s.names) : isIdentifier name := by
  simp only [scopeFault, Option.orElse_eq_orElse, Option.orElse_eq_or, Option.or_eq_none_iff] at h
  have hfault := List.findSome?_eq_none_iff.mp h.1 name hname
  unfold declaredNameFault at hfault
  split at hfault
  · cases hfault
  · next hidentifier => simpa using hidentifier

theorem spellable_of_mem_separated {lss : List (List Lexeme)}
    (h : ∀ ls ∈ lss, ∀ l ∈ ls, Spellable l) : ∀ l ∈ separated lss, Spellable l := by
  induction lss with
  | nil => exact nofun
  | cons ls lss ih =>
      obtain ⟨hls, hlss⟩ := List.forall_mem_cons.mp h
      cases lss with
      | nil => rwa [separated_singleton]
      | cons rs lss =>
          rw [separated_cons_cons, List.forall_mem_append, List.forall_mem_cons]
          exact ⟨hls, trivial, ih hlss⟩

theorem spellable_enclosed {ls : List Lexeme} (h : ∀ l ∈ ls, Spellable l) :
    ∀ l ∈ Lexeme.leftParen :: (ls ++ [.rightParen]), Spellable l := by
  simpa [or_imp, forall_and, Spellable] using h

theorem word_name (f : Function) : Word f.name.toList := by
  cases f <;> exact ⟨_, _, rfl, by decide, List.all_eq_true.mp (by decide)⟩

theorem spellable_spelled (hscope : scopeFault s = none) (h : Writable s t) :
    ∀ l ∈ t.spelled, Spellable l := by
  induction h with
  | number htext => exact List.forall_mem_singleton.mpr htext
  | symbol hname hascii =>
      exact List.forall_mem_singleton.mpr
        (word_of_isIdentifier (isIdentifier_of_scopeFault hscope hname) hascii)
  | @constant c _ =>
      refine List.forall_mem_singleton.mpr ?_
      cases c <;> exact ⟨_, _, rfl, by decide, List.all_eq_true.mp (by decide)⟩
  | @negate t _ ih =>
      have hsign : ∀ l ∈ Lexeme.operator .sub :: t.spelled, Spellable l :=
        List.forall_mem_cons.mpr ⟨trivial, ih⟩
      exact spellable_enclosed hsign
  | binary _ _ ihl ihr =>
      rw [Tree.spelled]
      exact spellable_enclosed
        (List.forall_mem_append.mpr ⟨ihl, List.forall_mem_cons.mpr ⟨trivial, ihr⟩⟩)
  | @call f args _ _ ih =>
      rw [Tree.spelled, Tree.spelledAll_eq_map]
      exact List.forall_mem_cons.mpr ⟨word_name f,
        spellable_enclosed (spellable_of_mem_separated (by simpa using ih))⟩

/-! ## The formula is read back -/

theorem seam_parted {ts : List Token} (h : (lexemes ts).IsChain Parted) {a b : Token}
    (hseam : Seam ts (some a) (some b)) : Parted a.lexeme b.lexeme := by
  obtain ⟨before, after, rfl, hlast, hhead⟩ := hseam
  rw [lexemes_append] at h
  exact (List.isChain_append.mp h).2.2 _ (by simp [lexemes, hlast]) _ (by simp [lexemes, hhead])

/-- **A tree that can be written is read back from its formula**, by the lexer, the rules and the
parser one after the other. -/
theorem parse_written (hscope : scopeFault s = none) (ht : Writable s t) :
    ∃ ts, tokenize t.written = .ok ts ∧ parse s.names ts = .ok t ∧
      (ts.length ≤ maxTokens → check t.written s = .ok ts) := by
  have htidy := tidy_spelled ht
  obtain ⟨ts, htokens, hlexemes⟩ := exists_tokenize (toList_written ht)
    (spellable_spelled hscope ht) (htidy.parted.imp fun _ _ h => h.1)
  have hparse : parse s.names ts = .ok t := by
    rw [parse, parseAll_eq_ok_iff, hlexemes]
    exact derives_of_primary (derives_spelled ht) .sum
  refine ⟨ts, htokens, hparse, fun hlength => check_eq_ok_of_parse htokens hlength hscope hparse ?_⟩
  rw [doubledMinus_iff (tokenize_eq_ok_iff.mp htokens).2.pairwise]
  rintro ⟨p, hseam⟩
  exact (seam_parted (hlexemes ▸ htidy.parted) hseam).2 rfl rfl

theorem parse_written_max :
    ∃ ts, tokenize "max((-1.5e3),(X^pi))" = .ok ts ∧
      parse Scope.planar.names ts = .ok (.call .max
        [.negate (.number "1.5e3"), .binary .pow (.symbol "X") (.constant .pi)]) ∧
      check "max((-1.5e3),(X^pi))" .planar = .ok ts := by
  have hnumeral : Numeral "1.5e3".toList := ⟨['1'] ++ '.' :: ['5'], ['e', '3'], by decide,
    .fraction (.inl nofun) (List.all_eq_true.mp rfl) (List.all_eq_true.mp rfl),
    .unsigned (by decide) nofun (List.all_eq_true.mp rfl)⟩
  have hargs : ∀ arg ∈ [.negate (.number "1.5e3"), .binary .pow (.symbol "X") (.constant .pi)],
      Writable .planar arg := by
    simp only [List.forall_mem_cons]
    exact ⟨.negate (.number hnumeral),
      .binary (.symbol (by decide) (List.forall_mem_singleton.mpr (by decide)))
        (.constant (by decide)), nofun⟩
  have hcall : Writable .planar (.call .max _) := .call (by decide) hargs
  obtain ⟨ts, htokens, hparse, hcheck⟩ := parse_written (by decide +kernel) hcall
  have hwritten : Tree.written (.call .max
      [.negate (.number "1.5e3"), .binary .pow (.symbol "X") (.constant .pi)]) =
        "max((-1.5e3),(X^pi))" := by decide +kernel
  have hlength : (tokenize "max((-1.5e3),(X^pi))").map List.length = .ok 13 := by decide +kernel
  rw [hwritten] at htokens hcheck
  rw [htokens] at hlength
  have hlength : ts.length = 13 := Except.ok.inj hlength
  exact ⟨ts, htokens, hparse, hcheck (hlength ▸ by decide)⟩

end Formula

end PhasePortrait
