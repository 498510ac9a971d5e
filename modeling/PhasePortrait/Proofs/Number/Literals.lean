import Mathlib.Data.Nat.Digits.Lemmas
import Mathlib.Data.Rat.Cast.CharZero
import Mathlib.Tactic.FieldSimp
import PhasePortrait.Formula.Term
import PhasePortrait.Proofs.Lexer.Munch

/-!
# What number texts denote

The lexer takes numbers from a text, and a reader turns each into a whole number times a power of
ten. The two are written apart from each other. Here the grammar of numbers is given a meaning by
the places of its digits (`Denotes`), and the reader takes every number of the grammar for what it
means, with nothing rounded (`read?_of_denotes`).

A whole number is used twice, rounded in the compiled formula and exact in its echo. Both start from
the same number. The exact one is only read up to a count of digits, leading zeros included.

## Main definitions

* `placeValue ds` — the whole number that digits make up.
* `Denotes cs q` — the number text `cs` denotes `q`.
* `Decimal.value d` — the number that was read.

## Main results

* `value_of_mem_tokenize` — numbers among the tokens of a text are read as what they denote.
-/
namespace PhasePortrait

/-- The number that a decimal stands for. -/
def Decimal.value (d : Decimal) : ℚ := d.mantissa * 10 ^ d.exponent

namespace Number

/-! ## The meaning of number texts -/

/-- The whole number of some digits. The last one counts ones, each other one ten times as much as
the one after it. -/
def placeValue (ds : List Char) : Nat :=
  Nat.ofDigits 10 (ds.reverse.map fun d => d.toNat - '0'.toNat)

/-- The part of a number before its exponent. Behind the dot a digit counts a tenth of the one
before it. -/
inductive MantissaDenotes : List Char → ℚ → Prop
  | whole {ds} : ds ≠ [] → Digits ds → MantissaDenotes ds (placeValue ds)
  | fraction {ds es} : ds ≠ [] ∨ es ≠ [] → Digits ds → Digits es →
      MantissaDenotes (ds ++ '.' :: es) (placeValue ds + placeValue es / 10 ^ es.length)

/-- An exponent, or none. -/
inductive ExponentDenotes : List Char → ℤ → Prop
  | none : ExponentDenotes [] 0
  | unsigned {mark ds} : mark ∈ ['e', 'E'] → ds ≠ [] → Digits ds →
      ExponentDenotes (mark :: ds) (placeValue ds)
  | plus {mark ds} : mark ∈ ['e', 'E'] → ds ≠ [] → Digits ds →
      ExponentDenotes (mark :: '+' :: ds) (placeValue ds)
  | minus {mark ds} : mark ∈ ['e', 'E'] → ds ≠ [] → Digits ds →
      ExponentDenotes (mark :: '-' :: ds) (-placeValue ds)

/-- An unsigned number and what it denotes. -/
def Denotes (cs : List Char) (q : ℚ) : Prop :=
  ∃ m x a e, cs = m ++ x ∧ MantissaDenotes m a ∧ ExponentDenotes x e ∧ q = a * 10 ^ e

theorem ExponentDenotes.exponent {x : List Char} {e : ℤ} (h : ExponentDenotes x e) :
    Exponent x := by
  cases h with
  | none => exact .none
  | unsigned hmark hne hds => exact .unsigned hmark hne hds
  | plus hmark hne hds => exact .signed hmark (by simp) hne hds
  | minus hmark hne hds => exact .signed hmark (by simp) hne hds

/-- Every number denotes something. -/
theorem Numeral.exists_denotes {cs : List Char} (h : Numeral cs) : ∃ q, Denotes cs q := by
  obtain ⟨m, x, rfl, hm, hx⟩ := h
  obtain ⟨a, ha⟩ : ∃ a, MantissaDenotes m a := by
    cases hm with
    | whole hne hds => exact ⟨_, .whole hne hds⟩
    | fraction hne hds hes => exact ⟨_, .fraction hne hds hes⟩
  obtain ⟨e, he⟩ : ∃ e, ExponentDenotes x e := by
    cases hx with
    | none => exact ⟨_, .none⟩
    | unsigned hmark hne hds => exact ⟨_, .unsigned hmark hne hds⟩
    | @signed mark sign ds hmark hsign hne hds =>
      rcases List.mem_cons.mp hsign with rfl | hsign
      · exact ⟨_, .plus hmark hne hds⟩
      · obtain rfl := List.mem_singleton.mp hsign
        exact ⟨_, .minus hmark hne hds⟩
  exact ⟨_, m, x, a, e, rfl, ha, he, rfl⟩

/-! ## Reading digits -/

theorem ofDigits_eq_placeValue (ds : List Char) : Decimal.ofDigits ds = placeValue ds := by
  induction ds using List.reverseRecOn with
  | nil => rfl
  | append_singleton ds d ih =>
    rw [placeValue, List.reverse_append, List.reverse_singleton, List.singleton_append,
      List.map_cons, Nat.ofDigits_cons, ← placeValue, ← ih, Decimal.ofDigits, List.foldl_append,
      ← Decimal.ofDigits, Nat.add_comm]
    rfl

theorem placeValue_append (ds es : List Char) :
    placeValue (ds ++ es) = placeValue ds * 10 ^ es.length + placeValue es := by
  rw [placeValue, List.reverse_append, List.map_append, Nat.ofDigits_append, List.length_map,
    List.length_reverse, Nat.add_comm, Nat.mul_comm]
  rfl

theorem readable_of_digits {ds : List Char} (hne : ds ≠ []) (hds : Digits ds) :
    ¬(ds.isEmpty || !ds.all Char.isDigit) = true := by
  have hall : ds.all Char.isDigit = true := List.all_eq_true.mpr hds
  rw [hall, List.isEmpty_eq_false_iff.mpr hne]
  exact Bool.false_ne_true

theorem not_other_of_mark {mark : Char} (h : mark ∈ ['e', 'E']) :
    ¬((mark != 'e' && mark != 'E') = true) := by
  simpa [or_iff_not_imp_left] using h

theorem readExponent?_of_denotes {x : List Char} {e : ℤ} (h : ExponentDenotes x e) :
    Decimal.readExponent? x = some e := by
  cases h with
  | none => rfl
  | unsigned hmark hne hds =>
    rw [Decimal.readExponent?, if_neg (not_other_of_mark hmark),
      if_neg (readable_of_digits hne hds), ofDigits_eq_placeValue]
    · rfl
    -- Digits start with no sign.
    · rintro r rfl
      exact absurd (hds '-' List.mem_cons_self) (by decide)
    · rintro r rfl
      exact absurd (hds '+' List.mem_cons_self) (by decide)
  | plus hmark hne hds | minus hmark hne hds =>
    rw [Decimal.readExponent?, if_neg (not_other_of_mark hmark),
      if_neg (readable_of_digits hne hds), ofDigits_eq_placeValue]
    rfl

/-! ## Reading numbers -/

section
variable {ds es x : List Char}

theorem read?_whole (hne : ds ≠ []) (hds : Digits ds)
    (hx : ∀ c ∈ x.head?, c.isDigit = false ∧ c ≠ '.') : Decimal.read? (ds ++ x) =
      (Decimal.readExponent? x).map fun e => ⟨Decimal.ofDigits ds, e⟩ := by
  have hstop : ∀ c ∈ x.head?, c.isDigit = false := fun c hc => (hx c hc).1
  have hdot : ∀ r, x ≠ '.' :: r := by
    rintro r rfl
    exact (hx '.' rfl).2 rfl
  have hempty : ds.isEmpty = false := by simpa using hne
  unfold Decimal.read?
  simp only [takeWhile_append_of_stop hds hstop, dropWhile_append_of_stop hds hstop, hempty]
  simp

theorem read?_fraction (hne : ds ≠ [] ∨ es ≠ []) (hds : Digits ds) (hes : Digits es)
    (hx : ∀ c ∈ x.head?, c.isDigit = false ∧ c ≠ '.') : Decimal.read? (ds ++ '.' :: (es ++ x)) =
      (Decimal.readExponent? x).map fun e => ⟨Decimal.ofDigits (ds ++ es), e - es.length⟩ := by
  have hstop : ∀ c ∈ x.head?, c.isDigit = false := fun c hc => (hx c hc).1
  have hdot : ∀ c ∈ ('.' :: (es ++ x)).head?, c.isDigit = false := by
    rintro _ ⟨⟩
    rfl
  have hempty : (ds.isEmpty && es.isEmpty) = false := by simpa [or_iff_not_imp_left] using hne
  unfold Decimal.read?
  simp only [takeWhile_append_of_stop hds hdot, dropWhile_append_of_stop hds hdot,
    takeWhile_append_of_stop hes hstop, dropWhile_append_of_stop hes hstop, hempty]
  rfl

end

/-- **A number is read as what it denotes.** -/
theorem read?_of_denotes {cs : List Char} {q : ℚ} (h : Denotes cs q) :
    ∃ d, Decimal.read? cs = some d ∧ d.value = q := by
  obtain ⟨m, x, a, e, rfl, hm, hx, rfl⟩ := h
  have hhead : ∀ c ∈ x.head?, c.isDigit = false ∧ c ≠ '.' := by
    have hbreaks : ∀ c ∈ (x ++ []).head?, c.isDigit = false ∧ c ≠ '.' := hx.exponent.breaks nofun
    rwa [List.append_nil] at hbreaks
  cases hm with
  | @whole ds hne hds =>
    refine ⟨⟨Decimal.ofDigits m, e⟩, ?_, ?_⟩
    · rw [read?_whole hne hds hhead, readExponent?_of_denotes hx]
      rfl
    · rw [Decimal.value, ofDigits_eq_placeValue]
  | @fraction ds es hne hds hes =>
    refine ⟨⟨Decimal.ofDigits (ds ++ es), e - es.length⟩, ?_, ?_⟩
    · rw [List.append_assoc, List.cons_append, read?_fraction hne hds hes hhead,
        readExponent?_of_denotes hx]
      rfl
    · rw [Decimal.value, ofDigits_eq_placeValue, placeValue_append, zpow_sub₀ (by norm_num),
        zpow_natCast]
      push_cast
      field_simp

end Number

/-! ## Numbers of a text -/

namespace Formula
open Number
open Rounding (tenTo scale)

theorem numeral_of_mem_tokenize {text s : String} {ts : List Token} {p : Nat}
    (h : tokenize text = .ok ts) (hmem : ⟨.number s, p⟩ ∈ ts) : Numeral s.toList :=
  ((tokenize_eq_ok_iff_and_decomposes.mp h).2.taken _ hmem).formed

theorem read?_digits {ds : List Char} (hne : ds ≠ []) (hds : Digits ds) :
    Decimal.read? ds = some ⟨placeValue ds, 0⟩ := by
  have hread := read?_whole (x := []) hne hds nofun
  rw [List.append_nil] at hread
  rw [hread, ofDigits_eq_placeValue]
  rfl

theorem cast_tenTo (n : Nat) : (tenTo n : ℚ) = 10 ^ n :=
  (Nat.cast_pow 10 n).trans (by rw [Nat.cast_ofNat])

/-- Scaling a whole number by a power of ten. -/
theorem value_scale (m : Nat) (e : ℤ) :
    0 < (scale m 1 e).2 ∧ (m : ℚ) * 10 ^ e = (scale m 1 e).1 / (scale m 1 e).2 := by
  unfold scale
  split
  · next he =>
    obtain ⟨k, rfl⟩ := Int.eq_ofNat_of_zero_le he
    refine ⟨Nat.one_pos, ?_⟩
    rw [Int.toNat_natCast, Nat.cast_mul, cast_tenTo, Nat.cast_one, div_one, zpow_natCast]
  · next he =>
    obtain ⟨k, rfl⟩ := Int.exists_eq_neg_ofNat (Int.le_of_lt (not_le.mp he))
    rw [Int.neg_neg, Int.toNat_natCast]
    refine ⟨Nat.mul_pos Nat.one_pos (Nat.pow_pos (by decide)), ?_⟩
    rw [one_mul, cast_tenTo, zpow_neg, zpow_natCast, div_eq_mul_inv]

/-- A decimal is rounded as the quotient that it stands for, if its exponent is not cut. -/
theorem ofDecimal_eq_ofQuotient (precision : Nat) {d : Decimal}
    (h : d.exponent.natAbs ≤ Approx.exponentLimit) :
    ∃ num den : ℕ, 0 < den ∧ d.value = num / den ∧
      Approx.ofDecimal precision d = Approx.ofQuotient precision false num den := by
  have hpower : max (-(Approx.exponentLimit : Int)) (min Approx.exponentLimit d.exponent) =
      d.exponent := by
    omega
  obtain ⟨hden, hvalue⟩ := value_scale d.mantissa d.exponent
  refine ⟨_, _, hden, hvalue, ?_⟩
  simp only [Approx.ofDecimal, hpower]

/-- A whole number is rounded as it is. -/
theorem ofDecimal_natCast (precision n : Nat) :
    Approx.ofDecimal precision ⟨n, 0⟩ = Approx.ofQuotient precision false n 1 := by
  have hpower : max (-(Approx.exponentLimit : Int)) (min Approx.exponentLimit 0) = 0 := by decide
  simp only [Approx.ofDecimal, hpower]
  congr 1
  exact Nat.mul_one n

/-- The number that a compiled formula has for a number text, as it is read before it is rounded. -/
theorem compiled_number {s : String} {d : Decimal} (h : Decimal.read? s.toList = some d) :
    ∃ precision, Term.ofTree .compiled (.number s) =
      .number (.approx (Approx.ofDecimal precision d)) := by
  refine ⟨Approx.bitsOfDigits (max Approx.leastDigits (Approx.digitsGiven s d)), ?_⟩
  change Term.number (.approx (Approx.ofText s)) = _
  rw [Approx.ofText, h]

/-- The echo of a whole number, if it can be read. -/
theorem echo?_digits {s : String} (h : Digits s.toList) :
    Term.echo? (.number s) = if s.toList.length ≤ Reading.maxDigits
      then some (Term.integer (placeValue s.toList)) else none := by
  have hall : s.toList.all Char.isDigit = true := List.all_eq_true.mpr h
  have hechoed : Term.ofTree .echo (.number s) = Term.integer (placeValue s.toList) := by
    change Term.Style.echoedNumber s = _
    rw [Term.Style.echoedNumber, if_pos hall, ofDigits_eq_placeValue]
  simp [Term.echo?, Tree.numbers, Term.Style.echoes, hall, hechoed]

/-- The echo of any other number is the number of the compiled formula. -/
theorem echo?_not_digits {s : String} (h : ¬Digits s.toList) :
    Term.echo? (.number s) = some (Term.ofTree .compiled (.number s)) := by
  have hall : s.toList.all Char.isDigit = false := by
    rw [Bool.eq_false_iff]
    exact fun hall => h (List.all_eq_true.mp hall)
  have hechoed : Term.ofTree .echo (.number s) = Term.ofTree .compiled (.number s) := by
    change Term.Style.echoedNumber s = _
    rw [Term.Style.echoedNumber, hall]
    rfl
  simp [Term.echo?, Tree.numbers, Term.Style.echoes, hall, hechoed]

/-- **The numbers among the tokens of a text are read as what they denote.** The reader takes each
of them, as the only number that its digits, dot and exponent denote. The compiled formula has this
number, rounded once, as long as its exponent of ten is not beyond `Approx.exponentLimit`, where
exponents are cut. A whole number is never cut. It is the same number in the echo, where it is
exact, if it has no more digits than are read; if it has more, there is no echo. -/
theorem value_of_mem_tokenize {text s : String} {ts : List Token} {p : Nat}
    (h : tokenize text = .ok ts) (hmem : ⟨.number s, p⟩ ∈ ts) :
    ∃ d, Decimal.read? s.toList = some d ∧
      (Denotes s.toList d.value ∧ ∀ q, Denotes s.toList q → q = d.value) ∧
      (∃ precision, Term.ofTree .compiled (.number s) =
          .number (.approx (Approx.ofDecimal precision d)) ∧
        (d.exponent.natAbs ≤ Approx.exponentLimit → ∃ num den : ℕ, 0 < den ∧ d.value = num / den ∧
          Approx.ofDecimal precision d = Approx.ofQuotient precision false num den)) ∧
      (Digits s.toList → ∃ n : ℕ, d.value = n ∧
        (∃ precision, Term.ofTree .compiled (.number s) =
          .number (.approx (Approx.ofQuotient precision false n 1))) ∧
        (s.toList.length ≤ Reading.maxDigits →
          Term.echo? (.number s) = some (Term.integer n)) ∧
        (Reading.maxDigits < s.toList.length → Term.echo? (.number s) = none)) ∧
      (¬Digits s.toList →
        Term.echo? (.number s) = some (Term.ofTree .compiled (.number s))) := by
  have hnumeral := numeral_of_mem_tokenize h hmem
  obtain ⟨q, hq⟩ := hnumeral.exists_denotes
  obtain ⟨d, hread, rfl⟩ := read?_of_denotes hq
  obtain ⟨precision, hcompiled⟩ := compiled_number hread
  refine ⟨d, hread, ⟨hq, fun q' hq' => ?_⟩,
    ⟨precision, hcompiled, ofDecimal_eq_ofQuotient precision⟩, fun hds => ?_, echo?_not_digits⟩
  · obtain ⟨d', hread', rfl⟩ := read?_of_denotes hq'
    rw [Option.some.inj (hread'.symm.trans hread)]
  · have hne : s.toList ≠ [] := by
      obtain ⟨c, tail, htext, -⟩ := exists_startsNumber hnumeral
      simp [htext]
    obtain rfl := Option.some.inj (hread.symm.trans (read?_digits hne hds))
    refine ⟨placeValue s.toList, by simp [Decimal.value], ?_, fun hle => ?_, fun hlt => ?_⟩
    · exact ⟨precision, by rw [hcompiled, ofDecimal_natCast]⟩
    · rw [echo?_digits hds, if_pos hle]
    · rw [echo?_digits hds, if_neg (Nat.not_le_of_lt hlt)]

theorem value_of_mem_tokenize_zeros :
    ∃ ts, tokenize "007*1.e5" = .ok ts ∧ ⟨.number "007", 0⟩ ∈ ts ∧
    ∃ d, Decimal.read? "007".toList = some d ∧
      (Denotes "007".toList d.value ∧ ∀ q, Denotes "007".toList q → q = d.value) ∧
      (∃ precision, Term.ofTree .compiled (.number "007") =
          .number (.approx (Approx.ofDecimal precision d)) ∧
        (d.exponent.natAbs ≤ Approx.exponentLimit → ∃ num den : ℕ, 0 < den ∧ d.value = num / den ∧
          Approx.ofDecimal precision d = Approx.ofQuotient precision false num den)) ∧
      (Digits "007".toList → ∃ n : ℕ, d.value = n ∧
        (∃ precision, Term.ofTree .compiled (.number "007") =
          .number (.approx (Approx.ofQuotient precision false n 1))) ∧
        ("007".toList.length ≤ Reading.maxDigits →
          Term.echo? (.number "007") = some (Term.integer n)) ∧
        (Reading.maxDigits < "007".toList.length → Term.echo? (.number "007") = none)) ∧
      (¬Digits "007".toList →
        Term.echo? (.number "007") = some (Term.ofTree .compiled (.number "007"))) := by
  have htokens : tokenize "007*1.e5" =
      .ok [⟨.number "007", 0⟩, ⟨.operator .mul, 3⟩, ⟨.number "1.e5", 4⟩] := by decide +kernel
  exact ⟨_, htokens, List.mem_cons_self, value_of_mem_tokenize htokens List.mem_cons_self⟩

/-! ## Whole numbers that are not read -/

/-- Digits alone are a single token. -/
theorem tokenize_digits {ds : List Char} (hne : ds ≠ []) (hds : Digits ds) :
    tokenize (String.ofList ds) = .ok [⟨.number (String.ofList ds), 0⟩] := by
  rw [tokenize_eq_ok_iff, String.toList_ofList]
  constructor
  · intro c hc
    rw [isForeign_eq_false_iff]
    exact .inr (by simp [inAlphabet, isAlphanum_of_isDigit (hds c hc)])
  · have hnumeral : Numeral ds := ⟨ds, [], (List.append_nil ds).symm, .whole hne hds, .none⟩
    have hscans : Scans 0 (ds ++ []) [⟨.number (String.ofList ds), 0⟩] :=
      scans_numeral hnumeral (fun _ h => absurd h (Option.not_mem_none _)) .nil
    rwa [List.append_nil] at hscans

/-- A one, written with more zeros in front than a whole number may have digits. -/
def longOne : List Char := List.replicate 4300 '0' ++ ['1']

/-- A whole number among the tokens of a text may be read in one place and not in the other. -/
theorem not_echoed_longOne :
    ¬∀ (text s : String) (ts : List Token) (p : Nat), tokenize text = .ok ts →
      ⟨.number s, p⟩ ∈ ts → Digits s.toList →
      ∃ n : ℕ, Term.echo? (.number s) = some (Term.integer n) := by
  intro h
  have hne : longOne ≠ [] := List.append_ne_nil_of_right_ne_nil _ (List.cons_ne_nil _ _)
  have hds : Digits longOne := by
    intro c hc
    rcases List.mem_append.mp hc with hzero | hone
    · rw [List.eq_of_mem_replicate hzero]
      rfl
    · rw [List.mem_singleton.mp hone]
      rfl
  have hds' : Digits (String.ofList longOne).toList := by rwa [String.toList_ofList]
  have hlong : Reading.maxDigits < (String.ofList longOne).toList.length := by
    rw [String.toList_ofList, longOne, List.length_append, List.length_replicate]
    decide
  obtain ⟨n, hn⟩ := h _ _ _ 0 (tokenize_digits hne hds) List.mem_cons_self hds'
  rw [echo?_digits hds', if_neg (Nat.not_le_of_lt hlong)] at hn
  cases hn

end Formula
end PhasePortrait
