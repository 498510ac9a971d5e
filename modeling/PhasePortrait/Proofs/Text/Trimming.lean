import Mathlib.Data.List.TakeWhile
import PhasePortrait.Text.Basic

/-!
# Trimmed and divided texts

A text is what is left of it between blanks (`exists_eq_of_strip`), and blanks at its ends do not change
what is left (`strip_append`). Trimming a text that is cut at a character which is no blank trims the part
before it in front and the part behind it at its end, so that the two parts have the same text between
their blanks as without it. The pieces of a text are the only texts without separators that make it up
(`separated_iff`).

## Main definitions

* `Text.Separated sep text pieces` — `text` is these pieces, with separators between them.
-/
namespace PhasePortrait.Text

section
variable {p : Char → Bool} {cs front back : List Char}

theorem exists_eq_of_trimEnds (p : Char → Bool) (cs : List Char) :
    ∃ front back, cs = front ++ (trimEnds p cs ++ back) ∧ (∀ c ∈ front, p c) ∧ ∀ c ∈ back, p c := by
  have hrest (rest : List Char) :
      rest = (rest.reverse.dropWhile p).reverse ++ (rest.reverse.takeWhile p).reverse := by
    rw [← List.reverse_append, List.takeWhile_append_dropWhile, List.reverse_reverse]
  refine ⟨cs.takeWhile p, ((cs.dropWhile p).reverse.takeWhile p).reverse, ?_, ?_, ?_⟩
  · rw [trimEnds, ← hrest, List.takeWhile_append_dropWhile]
  · exact fun c hc => List.mem_takeWhile_imp hc
  · exact fun c hc => List.mem_takeWhile_imp (List.mem_reverse.mp hc)

theorem trimEnds_append_left (h : ∀ c ∈ front, p c) : trimEnds p (front ++ cs) = trimEnds p cs := by
  rw [trimEnds, List.dropWhile_append_of_pos h, trimEnds]

theorem trimEnds_append_right (h : ∀ c ∈ back, p c) : trimEnds p (cs ++ back) = trimEnds p cs := by
  have hback : back.dropWhile p = [] := List.dropWhile_eq_nil_iff.mpr h
  have hreverse : ∀ c ∈ back.reverse, p c := fun c hc => h c (List.mem_reverse.mp hc)
  rw [trimEnds, trimEnds, List.dropWhile_append, hback]
  split
  · next hempty => rw [List.isEmpty_iff.mp hempty]
  · rw [List.reverse_append, List.dropWhile_append_of_pos hreverse]

theorem trimEnds_eq_self (h : ∀ c ∈ cs, p c = false) : trimEnds p cs = cs := by
  have hkeep (ds : List Char) (hds : ∀ c ∈ ds, p c = false) : ds.dropWhile p = ds := by
    cases ds with
    | nil => rfl
    | cons d ds => rw [List.dropWhile_cons_of_neg (by simp [hds d])]
  have hreverse : ∀ c ∈ cs.reverse, p c = false := fun c hc => h c (List.mem_reverse.mp hc)
  rw [trimEnds, hkeep cs h, hkeep _ hreverse, List.reverse_reverse]

/-- A text that is cut at a character which stays is trimmed at the outer ends of its parts. -/
theorem trimEnds_append_cons {mark : Char} (hmark : p mark = false) (before behind : List Char) :
    trimEnds p (before ++ mark :: behind) =
      before.dropWhile p ++ mark :: (behind.reverse.dropWhile p).reverse := by
  have hcons (ds es : List Char) :
      (ds ++ mark :: es).dropWhile p = ds.dropWhile p ++ mark :: es := by
    rw [List.dropWhile_append]
    split
    · next hempty =>
      rw [List.isEmpty_iff.mp hempty, List.dropWhile_cons_of_neg (by simp [hmark]), List.nil_append]
    · rfl
  rw [trimEnds, hcons, List.reverse_append, List.reverse_cons, List.append_assoc, List.singleton_append,
    hcons, List.reverse_append, List.reverse_cons, List.reverse_reverse, List.append_assoc,
    List.singleton_append]

theorem trimEnds_dropWhile (p : Char → Bool) (cs : List Char) :
    trimEnds p (cs.dropWhile p) = trimEnds p cs := by
  have hfront : ∀ c ∈ cs.takeWhile p, p c := fun c hc => List.mem_takeWhile_imp hc
  calc trimEnds p (cs.dropWhile p) = trimEnds p (cs.takeWhile p ++ cs.dropWhile p) :=
        (trimEnds_append_left hfront).symm
    _ = trimEnds p cs := by rw [List.takeWhile_append_dropWhile]

theorem trimEnds_dropWhile_end (p : Char → Bool) (cs : List Char) :
    trimEnds p (cs.reverse.dropWhile p).reverse = trimEnds p cs := by
  have hback : ∀ c ∈ (cs.reverse.takeWhile p).reverse, p c :=
    fun c hc => List.mem_takeWhile_imp (List.mem_reverse.mp hc)
  calc trimEnds p (cs.reverse.dropWhile p).reverse =
        trimEnds p ((cs.reverse.dropWhile p).reverse ++ (cs.reverse.takeWhile p).reverse) :=
        (trimEnds_append_right hback).symm
    _ = trimEnds p cs := by
        rw [← List.reverse_append, List.takeWhile_append_dropWhile, List.reverse_reverse]

end

/-! ## Blanks at the ends -/

theorem toList_strip (text : String) : (strip text).toList = trimEnds isBlank text.toList :=
  String.toList_ofList

theorem strip_eq_iff {s t : String} :
    strip s = strip t ↔ trimEnds isBlank s.toList = trimEnds isBlank t.toList := by
  rw [← String.toList_inj, toList_strip, toList_strip]

theorem isBlankText_iff_forall {text : String} :
    isBlankText text = true ↔ ∀ c ∈ text.toList, isBlank c = true :=
  List.all_eq_true

/-- A text is what is left of it between blanks. -/
theorem exists_eq_of_strip (text : String) :
    ∃ front back, text.toList = front ++ ((strip text).toList ++ back) ∧
      (∀ c ∈ front, isBlank c) ∧ ∀ c ∈ back, isBlank c := by
  rw [toList_strip]
  exact exists_eq_of_trimEnds isBlank text.toList

theorem isBlankText_of_strip {text : String} (h : strip text = "") : isBlankText text := by
  obtain ⟨front, back, htext, hfront, hback⟩ := exists_eq_of_strip text
  rw [h] at htext
  rw [isBlankText, htext, List.all_eq_true]
  simpa using fun c hc => hc.elim (hfront c) (hback c)

/-- Blanks at the ends do not change what is between them. -/
theorem strip_append {front back : String} (hfront : isBlankText front = true)
    (hback : isBlankText back = true) (text : String) : strip (front ++ text ++ back) = strip text := by
  rw [strip_eq_iff, String.toList_append, String.toList_append,
    trimEnds_append_right (isBlankText_iff_forall.mp hback),
    trimEnds_append_left (isBlankText_iff_forall.mp hfront)]

theorem strip_eq_self {text : String} (h : ∀ c ∈ text.toList, isBlank c = false) : strip text = text := by
  rw [← String.toList_inj, toList_strip, trimEnds_eq_self h]

/-! ## Cutting -/

section
variable {sep : Char} {name value : String}

theorem cutAt?_eq_none {text : String} (h : sep ∉ text.toList) : cutAt? sep text = none := by
  have hdrop : text.toList.dropWhile (· != sep) = [] :=
    List.dropWhile_eq_nil_iff.mpr fun c hc => bne_iff_ne.mpr fun heq => h (heq ▸ hc)
  rw [cutAt?, hdrop]

theorem cutAt?_append (h : sep ∉ name.toList) :
    cutAt? sep (name ++ String.singleton sep ++ value) = some (name, value) := by
  have hname : ∀ c ∈ name.toList, (c != sep) = true :=
    fun c hc => bne_iff_ne.mpr fun heq => h (heq ▸ hc)
  have hchars : (name ++ String.singleton sep ++ value).toList = name.toList ++ sep :: value.toList := by
    simp
  have hdrop : (name.toList ++ sep :: value.toList).dropWhile (· != sep) = sep :: value.toList := by
    rw [List.dropWhile_append_of_pos hname, List.dropWhile_cons_of_neg (by simp)]
  have htake : (name.toList ++ sep :: value.toList).takeWhile (· != sep) = name.toList := by
    rw [List.takeWhile_append_of_pos hname, List.takeWhile_cons_of_neg (by simp), List.append_nil]
  rw [cutAt?, hchars, hdrop, htake]
  simp only [String.ofList_toList]

/-- A text is cut at the same separator if it is trimmed first. -/
theorem exists_cutAt?_strip (hsep : isBlank sep = false) (h : sep ∉ name.toList) (value : String) :
    ∃ name' value', cutAt? sep (strip (name ++ String.singleton sep ++ value)) = some (name', value') ∧
      strip name' = strip name ∧ strip value' = strip value := by
  refine ⟨String.ofList (name.toList.dropWhile isBlank),
    String.ofList (value.toList.reverse.dropWhile isBlank).reverse, ?_, ?_, ?_⟩
  · have hchars : strip (name ++ String.singleton sep ++ value) =
        String.ofList (name.toList.dropWhile isBlank) ++ String.singleton sep ++
          String.ofList (value.toList.reverse.dropWhile isBlank).reverse := by
      rw [← String.toList_inj, toList_strip]
      simpa using trimEnds_append_cons hsep name.toList value.toList
    have hname : sep ∉ (String.ofList (name.toList.dropWhile isBlank)).toList := by
      rw [String.toList_ofList]
      exact fun hmem => h ((List.dropWhile_sublist _).subset hmem)
    rw [hchars, cutAt?_append hname]
  · rw [strip_eq_iff, String.toList_ofList, trimEnds_dropWhile]
  · rw [strip_eq_iff, String.toList_ofList, trimEnds_dropWhile_end]

end

/-! ## Pieces -/

/-- The text is made up of these pieces, which hold no separator, with separators between them. -/
structure Separated (sep : Char) (text : String) (pieces : List String) : Prop where
  ne_nil : pieces ≠ []
  not_mem : ∀ piece ∈ pieces, sep ∉ piece.toList
  eq : text = (String.singleton sep).intercalate pieces

theorem not_mem_of_mem_splitOn {sep : Char} {cs ds : List Char} (h : ds ∈ cs.splitOn sep) : sep ∉ ds := by
  induction cs generalizing ds with
  | nil =>
    rw [List.splitOn_nil, List.mem_singleton] at h
    rw [h]
    exact List.not_mem_nil
  | cons c cs ih =>
    rw [List.splitOn_cons_eq_if_modifyHead] at h
    split at h
    · obtain rfl | h := List.mem_cons.mp h
      · exact List.not_mem_nil
      · exact ih h
    · next hne =>
      obtain ⟨piece, rest, hsplit⟩ := List.exists_cons_of_ne_nil (List.splitOn_ne_nil sep cs)
      rw [hsplit, List.modifyHead_cons] at h
      obtain rfl | h := List.mem_cons.mp h
      · rw [List.mem_cons, not_or]
        exact ⟨fun heq => hne (beq_iff_eq.mpr heq.symm), ih (hsplit ▸ List.mem_cons_self)⟩
      · exact ih (hsplit ▸ List.mem_cons_of_mem piece h)

theorem separated_pieces (sep : Char) (text : String) : Separated sep text (pieces sep text) where
  ne_nil h := List.splitOn_ne_nil sep text.toList (List.map_eq_nil_iff.mp h)
  not_mem piece hpiece := by
    obtain ⟨cs, hcs, rfl⟩ := List.mem_map.mp hpiece
    rw [String.toList_ofList]
    exact not_mem_of_mem_splitOn hcs
  eq := by
    rw [← String.toList_inj, String.toList_intercalate, pieces, List.map_map]
    have hmap : String.toList ∘ String.ofList = id := funext fun cs => String.toList_ofList
    rw [hmap, List.map_id, String.toList_singleton, List.intercalate_splitOn]

/-- The pieces of a text are the only ones that it is made up of. -/
theorem separated_iff {sep : Char} {text : String} {ps : List String} :
    Separated sep text ps ↔ ps = pieces sep text := by
  constructor
  · rintro ⟨hne, hnot, rfl⟩
    have hnot' : ∀ cs ∈ ps.map String.toList, sep ∉ cs := by
      rintro cs hcs
      obtain ⟨piece, hpiece, rfl⟩ := List.mem_map.mp hcs
      exact hnot piece hpiece
    have hsplit := List.splitOn_intercalate sep hnot' (mt List.map_eq_nil_iff.mp hne)
    rw [pieces, String.toList_intercalate, String.toList_singleton, hsplit, List.map_map]
    have hmap : String.ofList ∘ String.toList = id := funext fun s => String.ofList_toList
    rw [hmap, List.map_id]
  · rintro rfl
    exact separated_pieces sep text

end PhasePortrait.Text
