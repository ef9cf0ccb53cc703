/-!
# Sets of names

The names that a pattern binds, as an ascending list without repetition, so that equal sets are
equal lists and the order of the list is the order in which the names are shown.

* `Names.insert`, `Names.union` and `Names.ofList` build sets;
* `Names.mem_insert` and `Names.mem_union` say what is in them, `Names.pairwise_insert` and
  `Names.pairwise_union` that they stay ascending.
-/

namespace LazyMatch

/-- A set of names: ascending by code point, without repetition. -/
abbrev Names := List String

namespace Names

/-- Add a name. -/
def insert (name : String) : Names → Names
  | [] => [name]
  | n :: rest =>
    if name < n then name :: n :: rest
    else if name = n then n :: rest
    else n :: insert name rest

/-- All names of two sets. -/
def union (a b : Names) : Names := a.foldr insert b

/-- The set of the names in a list. -/
def ofList (names : List String) : Names := names.foldr insert []

@[simp] theorem mem_insert {name other : String} {s : Names} :
    other ∈ insert name s ↔ other = name ∨ other ∈ s := by
  induction s with
  | nil => simp [insert]
  | cons n rest ih =>
    simp only [insert]
    split
    · simp
    · split
      · rename_i h; subst h; simp
      · simp only [List.mem_cons, ih]; exact or_left_comm

@[simp] theorem mem_union {name : String} {a b : Names} :
    name ∈ union a b ↔ name ∈ a ∨ name ∈ b := by
  induction a with
  | nil => simp [union]
  | cons n rest ih =>
    simp only [union, List.foldr_cons, mem_insert, List.mem_cons] at ih ⊢
    rw [ih, or_assoc]

/-- A set with a name added is still ascending. -/
theorem pairwise_insert {name : String} {s : Names} (h : s.Pairwise (· < ·)) :
    (insert name s).Pairwise (· < ·) := by
  induction s with
  | nil => simp [insert]
  | cons n rest ih =>
    obtain ⟨hn, hrest⟩ := List.pairwise_cons.mp h
    simp only [insert]
    split
    · rename_i hlt
      refine List.pairwise_cons.mpr ⟨fun m hm => ?_, h⟩
      rcases List.mem_cons.mp hm with rfl | hm
      · exact hlt
      · exact String.lt_trans hlt (hn m hm)
    · rename_i hlt
      split
      · exact h
      · rename_i hne
        refine List.pairwise_cons.mpr ⟨fun m hm => ?_, ih hrest⟩
        rcases mem_insert.mp hm with rfl | hm
        · -- The order is total: what is neither below nor equal is above.
          by_cases hl : n < m
          · exact hl
          · exact absurd (String.le_antisymm (String.not_lt.mp hl) (String.not_lt.mp hlt)) hne
        · exact hn m hm

/-- The union of ascending sets is ascending. -/
theorem pairwise_union {a b : Names} (h : b.Pairwise (· < ·)) : (union a b).Pairwise (· < ·) := by
  induction a with
  | nil => exact h
  | cons n rest ih => exact pairwise_insert ih

end Names

end LazyMatch
