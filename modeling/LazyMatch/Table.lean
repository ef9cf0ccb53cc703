/-!
# Tables in order of entry

A table pairs names with entries and keeps the order in which the names were first entered:
writing under a name that is already there replaces its entry where it stands. Bindings, scopes,
frames, the tests of fields and the indexes of the registry are tables.

* `Table.get?` reads, `Table.put` writes, `Table.names` lists the names in order;
* `Table.get?_put_self` and `Table.get?_put_of_ne` say what a write changes;
* `Table.ofList_of_nodup`: pairs under distinct names are entered as they stand, and
  `Table.nodup_ofList`: names never repeat.
-/

namespace LazyMatch

/-- Names paired with entries, in the order in which the names were first entered. -/
abbrev Table (α : Type) := List (String × α)

namespace Table

variable {α : Type}

/-- The entry under a name. -/
def get? : Table α → String → Option α
  | [], _ => none
  | (k, a) :: rest, name => if k = name then some a else get? rest name

/-- Whether a name has an entry. -/
def contains (t : Table α) (name : String) : Bool := (get? t name).isSome

/-- Write an entry: in place when the name is there already, otherwise at the end. -/
def put : Table α → String → α → Table α
  | [], name, a => [(name, a)]
  | (k, b) :: rest, name, a => if k = name then (k, a) :: rest else (k, b) :: put rest name a

/-- The names, in order of entry. -/
def names (t : Table α) : List String := t.map (·.1)

/-- Enter pairs one after the other. -/
def ofList (entries : List (String × α)) : Table α :=
  entries.foldl (fun t e => put t e.1 e.2) []

@[simp] theorem get?_nil (name : String) : get? ([] : Table α) name = none := rfl

@[simp] theorem put_nil (name : String) (a : α) : put [] name a = [(name, a)] := rfl

/-- A write is read back. -/
@[simp] theorem get?_put_self (t : Table α) (name : String) (a : α) :
    get? (put t name a) name = some a := by
  induction t with
  | nil => simp [put, get?]
  | cons e t ih => by_cases h : e.1 = name <;> simp [put, get?, h, ih]

/-- A write leaves every other name alone. -/
theorem get?_put_of_ne (t : Table α) {name other : String} (h : other ≠ name) (a : α) :
    get? (put t name a) other = get? t other := by
  induction t with
  | nil => simp [put, get?, h.symm]
  | cons e t ih =>
    by_cases hk : e.1 = name
    · simp [put, get?, hk, h.symm]
    · simp [put, get?, hk, ih]

/-- A write adds its name at the end when it is new and keeps the order otherwise. -/
theorem names_put (t : Table α) (name : String) (a : α) :
    names (put t name a) = if name ∈ names t then names t else names t ++ [name] := by
  induction t with
  | nil => simp [put, names]
  | cons e t ih =>
    by_cases hk : e.1 = name
    · simp [put, names, hk]
    · have hk' : ¬ name = e.1 := fun h => hk h.symm
      simp only [names] at ih
      simp only [put, hk, names, List.map_cons, List.mem_cons, hk', false_or, ih, if_false]
      split <;> rename_i h <;> simp [h]

/-- A new name is entered at the end. -/
theorem put_of_not_mem {t : Table α} {name : String} (h : name ∉ names t) (a : α) :
    put t name a = t ++ [(name, a)] := by
  induction t with
  | nil => rfl
  | cons e t ih =>
    simp only [names, List.map_cons, List.mem_cons, not_or] at h
    simp [put, Ne.symm h.1, ih h.2]

/-- Pairs under distinct new names are entered as they stand. -/
theorem foldl_put_of_nodup {entries t : Table α} (h : (names (t ++ entries)).Nodup) :
    entries.foldl (fun t e => put t e.1 e.2) t = t ++ entries := by
  induction entries generalizing t with
  | nil => simp
  | cons e entries ih =>
    have hnew : e.1 ∉ names t := by
      intro hmem
      simp only [names, List.map_append, List.map_cons] at h
      exact (List.nodup_append.mp h).2.2 _ hmem _ (by simp) rfl
    rw [List.foldl_cons, put_of_not_mem hnew, ih (by simpa [names] using h)]
    simp

theorem ofList_of_nodup {entries : Table α} (h : (names entries).Nodup) :
    ofList entries = entries := foldl_put_of_nodup (t := []) (by simpa using h)

/-- Under distinct names every pair is found. -/
theorem get?_of_mem {t : Table α} (h : (names t).Nodup) {name : String} {a : α}
    (hmem : (name, a) ∈ t) : get? t name = some a := by
  induction t with
  | nil => simp at hmem
  | cons e t ih =>
    simp only [names, List.map_cons, List.nodup_cons] at h
    rcases List.mem_cons.mp hmem with rfl | hmem
    · simp [get?]
    · have hne : e.1 ≠ name := fun he => h.1 (he ▸ List.mem_map_of_mem hmem)
      simp [get?, hne, ih h.2 hmem]

/-- What is found was entered under the name. -/
theorem mem_of_get? {t : Table α} {name : String} {a : α} (h : get? t name = some a) :
    (name, a) ∈ t := by
  induction t with
  | nil => simp at h
  | cons e t ih =>
    by_cases he : e.1 = name
    · simp only [get?, he, if_true, Option.some.injEq] at h
      exact List.mem_cons.mpr (.inl (by rw [← h, ← he]))
    · simp only [get?, he, if_false] at h
      exact List.mem_cons_of_mem _ (ih h)

/-- Exactly the names of a table have an entry. -/
theorem isSome_get?_iff {t : Table α} {name : String} :
    (get? t name).isSome ↔ name ∈ names t := by
  induction t with
  | nil => simp [names]
  | cons e t ih =>
    by_cases he : e.1 = name
    · simp [get?, names, he]
    · have hne : ¬ name = e.1 := fun h => he h.symm
      simpa [get?, names, he, hne] using ih

/-- Leaving out entries under other names does not change what is found under this one. -/
theorem get?_filter (t : Table α) {keep : String → Bool} {name : String} (h : keep name = true) :
    get? (t.filter fun e => keep e.1) name = get? t name := by
  induction t with
  | nil => rfl
  | cons e t ih =>
    rw [List.filter_cons]
    by_cases he : e.1 = name
    · simp [get?, he, h]
    · split
      · simp [get?, he, ih]
      · simp [get?, he, ih]

theorem mem_names_put {t : Table α} {name other : String} {a : α} :
    other ∈ names (put t name a) ↔ other = name ∨ other ∈ names t := by
  rw [names_put]
  split
  · rename_i hmem
    exact ⟨.inr, fun h => h.elim (fun h => h ▸ hmem) id⟩
  · simp [or_comm]

/-- Entering pairs keeps the names there are and adds those of the pairs. -/
theorem mem_names_foldl_put {entries : List (String × α)} {t : Table α} {name : String}
    (h : name ∈ names t ∨ name ∈ entries.map (·.1)) :
    name ∈ names (entries.foldl (fun t e => put t e.1 e.2) t) := by
  induction entries generalizing t with
  | nil => simpa using h
  | cons e entries ih =>
    refine ih ?_
    rw [mem_names_put]
    rcases h with h | h
    · exact .inl (.inr h)
    · rcases List.mem_cons.mp h with h | h
      · exact .inl (.inl h)
      · exact .inr h

/-- Writing never makes names repeat. -/
theorem nodup_put {t : Table α} (h : (names t).Nodup) (name : String) (a : α) :
    (names (put t name a)).Nodup := by
  rw [names_put]
  split
  · exact h
  · rename_i hn
    exact List.nodup_append.mpr ⟨h, by simp, by rintro x hx _ (_ | _) rfl <;> contradiction⟩

theorem nodup_foldl_put {t : Table α} (h : (names t).Nodup) (entries : List (String × α)) :
    (names (entries.foldl (fun t e => put t e.1 e.2) t)).Nodup := by
  induction entries generalizing t with
  | nil => exact h
  | cons e entries ih => exact ih (nodup_put h e.1 e.2)

theorem nodup_ofList (entries : List (String × α)) : (names (ofList entries)).Nodup :=
  nodup_foldl_put (t := []) List.nodup_nil entries

/-- A write leaves no pair behind that was not there, but the one it writes. -/
theorem mem_of_mem_put {t : Table α} {name : String} {a : α} {e : String × α}
    (h : e ∈ put t name a) : e = (name, a) ∨ e ∈ t := by
  induction t with
  | nil => simpa using h
  | cons e' t ih =>
    by_cases hk : e'.1 = name
    · simp only [put, hk, if_true, List.mem_cons] at h ⊢
      rcases h with h | h
      · exact .inl h
      · exact .inr (.inr h)
    · simp only [put, hk, if_false, List.mem_cons] at h ⊢
      rcases h with h | h
      · exact .inr (.inl h)
      · exact (ih h).imp_right .inr

theorem mem_of_mem_foldl_put {entries : List (String × α)} {t : Table α} {e : String × α}
    (h : e ∈ entries.foldl (fun t e => put t e.1 e.2) t) : e ∈ t ∨ e ∈ entries := by
  induction entries generalizing t with
  | nil => exact .inl h
  | cons e' entries ih =>
    rcases ih h with h | h
    · rcases mem_of_mem_put h with rfl | h
      · exact .inr List.mem_cons_self
      · exact .inl h
    · exact .inr (List.mem_cons_of_mem _ h)

/-- Every pair of a table was entered. -/
theorem mem_of_mem_ofList {entries : List (String × α)} {e : String × α}
    (h : e ∈ ofList entries) : e ∈ entries := by
  simpa using mem_of_mem_foldl_put h

/-! ### Changing the entries of a table -/

section Map

variable {β : Type} (f : α → β)

theorem put_map (t : Table α) (name : String) (a : α) :
    put (t.map fun e => (e.1, f e.2)) name (f a) = (put t name a).map fun e => (e.1, f e.2) := by
  induction t with
  | nil => rfl
  | cons e t ih => by_cases h : e.1 = name <;> simp [put, h, ih]

theorem foldl_put_map (entries t : Table α) :
    (entries.map fun e => (e.1, f e.2)).foldl (fun t e => put t e.1 e.2)
        (t.map fun e => (e.1, f e.2)) =
      (entries.foldl (fun t e => put t e.1 e.2) t).map fun e => (e.1, f e.2) := by
  induction entries generalizing t with
  | nil => rfl
  | cons e entries ih => rw [List.map_cons, List.foldl_cons, put_map, ih, List.foldl_cons]

theorem ofList_map (entries : List (String × α)) :
    ofList (entries.map fun e => (e.1, f e.2)) = (ofList entries).map fun e => (e.1, f e.2) :=
  foldl_put_map f entries []

theorem get?_map (t : Table α) (name : String) :
    get? (t.map fun e => (e.1, f e.2)) name = (get? t name).map f := by
  induction t with
  | nil => rfl
  | cons e t ih => by_cases h : e.1 = name <;> simp [get?, h, ih]

end Map

end Table

end LazyMatch
