/-!
# Entries by name

Names with values, each name once, in order of first appearance. The last value set is kept.
-/
namespace PhasePortrait.Entries
variable {β : Type}

/-- Set the value of a name; a name that is there keeps its place. -/
def set (name : String) (value : β) : List (String × β) → List (String × β)
  | [] => [(name, value)]
  | (k, v) :: rest => if k = name then (name, value) :: rest else (k, v) :: set name value rest

@[simp] theorem lookup_set_self (name : String) (value : β) (entries : List (String × β)) :
    (set name value entries).lookup name = some value := by
  induction entries with
  | nil => simp [set]
  | cons entry rest ih =>
    obtain ⟨k, v⟩ := entry
    by_cases hk : k = name
    · simp [set, hk]
    · have hn : (name == k) = false := beq_false_of_ne (Ne.symm hk)
      simp only [set, if_neg hk, List.lookup_cons, hn, ih]

theorem lookup_set_of_ne {other name : String} (h : other ≠ name) (value : β)
    (entries : List (String × β)) : (set name value entries).lookup other = entries.lookup other := by
  have hn : (other == name) = false := beq_false_of_ne h
  induction entries with
  | nil => simp only [set, List.lookup_cons, hn]
  | cons entry rest ih =>
    obtain ⟨k, v⟩ := entry
    by_cases hk : k = name
    · subst hk
      simp only [set, if_true, List.lookup_cons, hn]
    · simp only [set, if_neg hk, List.lookup_cons, ih]

end PhasePortrait.Entries
