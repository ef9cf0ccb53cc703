import LazyMatch.Proofs.Outcome

/-!
# What lowering makes of structured forms

The tests of a structured form are entered into a table under the names of the fields, wildcards
left out. `subPatterns` lists the sub-patterns that are entered, each with its field, and
`Pattern.nested` is the test that stands for one of them: a sub-pattern that demands is forced in
place. The table is then made of these, so that what is known about tables carries over.

* `Pattern.testFields_eq`: the table of a structured form, `Pattern.testFields_of_nodup` when its
  field names are distinct;
* `fieldPatterns`: which sub-pattern each entry of the table stands for.
-/

namespace LazyMatch

/-- The sub-patterns that constrain their fields, with the names of these. -/
def subPatterns (names : List String) (ps : List Pattern) : List (String × Pattern) :=
  (names.zip ps).filter fun e => !e.2.isWildcard

/-- The test of a sub-pattern: it is forced in place when it demands. -/
def Pattern.nested (p : Pattern) : Test := if p.demands then .strict p.test else p.test

theorem Pattern.nested_of_demands {p : Pattern} (h : p.demands = true) :
    p.nested = .strict p.test := if_pos h

theorem Pattern.nested_of_not_demands {p : Pattern} (h : p.demands = false) :
    p.nested = p.test := if_neg (by simp [h])

theorem subPatterns_cons (name : String) (names : List String) (p : Pattern) (ps : List Pattern) :
    subPatterns (name :: names) (p :: ps) =
      (if p.isWildcard then [] else [(name, p)]) ++ subPatterns names ps := by
  cases h : p.isWildcard <;> simp [subPatterns, h]

@[simp] theorem subPatterns_nil_right (names : List String) : subPatterns names [] = [] := by
  simp [subPatterns]

@[simp] theorem subPatterns_nil_left (ps : List Pattern) : subPatterns [] ps = [] := rfl

/-- A table entered twice over is entered at once. -/
theorem Pattern.testFields_eq_foldl (names : List String) (ps : List Pattern) (subs : Table Test) :
    Pattern.testFields names ps subs =
      ((subPatterns names ps).map fun e => (e.1, e.2.nested)).foldl
        (fun t e => t.put e.1 e.2) subs := by
  induction ps generalizing names subs with
  | nil => cases names <;> simp [Pattern.testFields]
  | cons p ps ih =>
    cases names with
    | nil => simp [Pattern.testFields]
    | cons name names =>
      rw [Pattern.testFields, subPatterns_cons, ih, ih]
      cases p.isWildcard <;> rfl

/-- The tests of a structured form are entered one after the other. -/
theorem Pattern.testFields_eq (names : List String) (ps : List Pattern) :
    Pattern.testFields names ps [] =
      Table.ofList ((subPatterns names ps).map fun e => (e.1, e.2.nested)) :=
  Pattern.testFields_eq_foldl names ps []

theorem subPatterns_names_sublist (names : List String) (ps : List Pattern) :
    ((subPatterns names ps).map (·.1)).Sublist names := by
  refine (List.filter_sublist.map _).trans ?_
  induction names generalizing ps with
  | nil => simp
  | cons name names ih =>
    cases ps with
    | nil => simp
    | cons p ps => simpa using ih ps

/-- Under distinct field names the tests stand in the order of the fields. -/
theorem Pattern.testFields_of_nodup {names : List String} (h : names.Nodup) (ps : List Pattern) :
    Pattern.testFields names ps [] = (subPatterns names ps).map fun e => (e.1, e.2.nested) := by
  rw [Pattern.testFields_eq]
  refine Table.ofList_of_nodup ?_
  simpa [Table.names, Function.comp_def] using h.sublist (subPatterns_names_sublist names ps)

/-! ### Which sub-pattern a test stands for -/

/-- The sub-patterns of a structured form under the names of their fields. Of several under one name
the last one counts, in the place of the first. -/
def fieldPatterns (names : List String) (ps : List Pattern) : Table Pattern :=
  Table.ofList (subPatterns names ps)

theorem Pattern.testFields_eq_map (names : List String) (ps : List Pattern) :
    Pattern.testFields names ps [] = (fieldPatterns names ps).map fun e => (e.1, e.2.nested) := by
  rw [Pattern.testFields_eq, Table.ofList_map, fieldPatterns]

/-- The sub-pattern under a field name stands in the place of such a field. -/
theorem mem_zip_of_mem_fieldPatterns {names : List String} {ps : List Pattern} {name : String}
    {p : Pattern} (h : (name, p) ∈ fieldPatterns names ps) : (name, p) ∈ names.zip ps :=
  List.mem_of_mem_filter (Table.mem_of_mem_ofList h)

end LazyMatch
