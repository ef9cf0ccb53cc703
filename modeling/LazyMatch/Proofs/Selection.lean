import LazyMatch.Proofs.Compilation

/-!
# Which rule dispatch selects

Dispatch runs the force plan, looks for the first row that matches and hands its bindings to the
action of that row. What happens before the action can be said without any action: the rows are
numbered, and the position of the row that matches is the answer.

* `Compiled.choose` selects a rule by its position;
* `Selects`, `FindsNone`, `Stops`: dispatch runs the action of the rule at a position, finds none,
  or stops before that;
* `Compiles.selects`, `findsNone_of_choose`, `stops_of_choose`: which of these it is follows from
  what is chosen.
-/

namespace LazyMatch

/-- The rows with their positions, counted from `k`, in place of their actions. -/
def numbered {α : Type} (k : ℕ) (rows : List (TestRow α)) : List (TestRow ℕ) :=
  (rows.zipIdx k).map fun e => ⟨e.1.test, e.2⟩

/-- The position of the rule that dispatch selects, with its bindings. -/
def Compiled.choose {α : Type} (force : Value → Run Value) (c : Compiled α) (args : List Value) :
    Run (Option (ℕ × Bindings)) := do
  select force (← c.plan.run force args) (numbered 0 c.rows)

section Numbered

variable {α : Type} {force : Value → Run Value} {values : List Value} {s s' : Store}

theorem numbered_cons (k : ℕ) (row : TestRow α) (rows : List (TestRow α)) :
    numbered k (row :: rows) = ⟨row.test, k⟩ :: numbered (k + 1) rows := rfl

/-- Only the tests of rows count. -/
theorem numbered_map {β : Type} (k : ℕ) (rows : List (TestRow α)) (f : TestRow α → TestRow β)
    (hf : ∀ row, (f row).test = row.test) : numbered k (rows.map f) = numbered k rows := by
  induction rows generalizing k with
  | nil => rfl
  | cons row rows ih => rw [List.map_cons, numbered_cons, numbered_cons, hf, ih]

/-- The row that is selected stands at the position that is selected, and it was selected since it
matches. -/
theorem select_of_numbered_some {rows : List (TestRow α)} {k i : ℕ} {b : Bindings}
    (h : outcome (select force values (numbered k rows)) s = (.ok (some (i, b)), s')) :
    ∃ j row, i = k + j ∧ rows[j]? = some row ∧
      outcome (select force values rows) s = (.ok (some (row.action, b)), s') := by
  induction rows generalizing k s with
  | nil => cases h
  | cons row rows ih =>
    rw [numbered_cons, select] at h
    obtain ⟨o, s₁, ho, h⟩ := outcome_bind_eq_ok h
    rw [select, outcome_bind_ok ho]
    cases o with
    | none =>
      obtain ⟨j, row', rfl, hrow', hselect⟩ := ih h
      exact ⟨j + 1, row', by omega, hrow', hselect⟩
    | some b' =>
      cases h
      exact ⟨0, row, rfl, rfl, rfl⟩

theorem select_of_numbered_none {rows : List (TestRow α)} {k : ℕ}
    (h : outcome (select force values (numbered k rows)) s = (.ok none, s')) :
    outcome (select force values rows) s = (.ok none, s') := by
  induction rows generalizing k s with
  | nil =>
    cases h
    rfl
  | cons row rows ih =>
    rw [numbered_cons, select] at h
    obtain ⟨o, s₁, ho, h⟩ := outcome_bind_eq_ok h
    rw [select, outcome_bind_ok ho]
    cases o with
    | none => exact ih h
    | some b => cases h

theorem select_of_numbered_error {rows : List (TestRow α)} {k : ℕ} {e : Stop}
    (h : outcome (select force values (numbered k rows)) s = (.error e, s')) :
    outcome (select force values rows) s = (.error e, s') := by
  induction rows generalizing k s with
  | nil => cases h
  | cons row rows ih =>
    rw [numbered_cons, select] at h
    rcases outcome_bind_eq_error h with ho | ⟨o, s₁, ho, h⟩
    · exact outcome_bind_error ho _
    · rw [select, outcome_bind_ok ho]
      cases o with
      | none => exact ih h
      | some b => cases h

/-- What is selected matches, in some store on the way. -/
theorem matches_of_numbered_some {rows : List (TestRow α)} {k i : ℕ} {b : Bindings}
    (h : outcome (select force values (numbered k rows)) s = (.ok (some (i, b)), s')) :
    ∃ j row s₁, i = k + j ∧ rows[j]? = some row ∧
      outcome (row.test.matches force values) s₁ = (.ok (some b), s') := by
  induction rows generalizing k s with
  | nil => cases h
  | cons row rows ih =>
    rw [numbered_cons, select] at h
    obtain ⟨o, s₁, ho, h⟩ := outcome_bind_eq_ok h
    cases o with
    | none =>
      obtain ⟨j, row', s₂, rfl, hrow', hmatch⟩ := ih h
      exact ⟨j + 1, row', s₂, by omega, hrow', hmatch⟩
    | some b' =>
      cases h
      exact ⟨0, row, s, rfl, rfl, ho⟩

theorem numbered_ofCompiled (name : String) (lazy : Bool) (c : Compiled Value) :
    numbered 0 (Function.ofCompiled name lazy c).rows = numbered 0 c.rows :=
  numbered_map 0 c.rows _ fun _ => rfl

theorem outcome_matchRows_some {rows : List (TestRow α)} {a : α} {b : Bindings}
    (h : outcome (select force values rows) s = (.ok (some (a, b)), s'))
    (act : α → Bindings → Run Value) (name : String) :
    outcome (matchRows force act name rows values) s = outcome (act a b) s' := by
  rw [matchRows, outcome_bind_ok h]

theorem outcome_matchRows_none {rows : List (TestRow α)}
    (h : outcome (select force values rows) s = (.ok none, s'))
    (act : α → Bindings → Run Value) (name : String) :
    outcome (matchRows force act name rows values) s = (.error (s'.noMatch name values), s') := by
  rw [matchRows, outcome_bind_ok h]
  rfl

end Numbered

/-! ### From the choice to dispatch -/

/-- Dispatch of compiled rules selects the rule at a position: it runs the action of the rule, with
these bindings and in this store. -/
structure Selects (force : Value → Run Value) (name : String) (rules : List (Rule Value))
    (c : Compiled Value) (args : List Value) (s : Store) (i : ℕ) (b : Bindings) (s' : Store) :
    Prop where
  choose : outcome (c.choose force args) s = (.ok (some (i, b)), s')
  dispatch : ∃ rule, rules[i]? = some rule ∧
    ∀ (lazy : Bool) (act : Handler → Bindings → Run Value),
      outcome ((Function.ofCompiled name lazy c).dispatch force act args) s =
        outcome (act (.ofAction lazy rule.action) b) s'

/-- Dispatch of compiled rules finds no rule for the values that the plan leaves. -/
structure FindsNone (force : Value → Run Value) (name : String) (c : Compiled Value)
    (args : List Value) (s : Store) (values : List Value) (s' : Store) : Prop where
  choose : outcome (c.choose force args) s = (.ok none, s')
  dispatch : ∀ (lazy : Bool) (act : Handler → Bindings → Run Value),
    outcome ((Function.ofCompiled name lazy c).dispatch force act args) s =
      (.error (s'.noMatch name values), s')

/-- Dispatch of compiled rules stops on the way to a rule. -/
structure Stops (force : Value → Run Value) (name : String) (c : Compiled Value)
    (args : List Value) (s : Store) (e : Stop) (s' : Store) : Prop where
  choose : outcome (c.choose force args) s = (.error e, s')
  dispatch : ∀ (lazy : Bool) (act : Handler → Bindings → Run Value),
    outcome ((Function.ofCompiled name lazy c).dispatch force act args) s = (.error e, s')

section Dispatch

variable {resolve : Resolver} {rules : List (Rule Value)} {rows : List PatternRow} {arity : ℕ}
  {c : Compiled Value} {force : Value → Run Value} {args : List Value} {s s' : Store}

/-- Dispatch selects the rule whose position is chosen. -/
theorem Compiles.selects (h : Compiles resolve rules rows arity c) (name : String) {i : ℕ}
    {b : Bindings} (hchoose : outcome (c.choose force args) s = (.ok (some (i, b)), s')) :
    Selects force name rules c args s i b s' := by
  refine ⟨hchoose, ?_⟩
  obtain ⟨values, s₁, hplan, hselect⟩ := outcome_bind_eq_ok hchoose
  obtain ⟨j, row, rfl, hrow, _⟩ := select_of_numbered_some hselect
  obtain ⟨_, rule, _, hrule, rfl⟩ := h.exists_of_row hrow
  rw [Nat.zero_add]
  refine ⟨rule, hrule, fun lazy act => ?_⟩
  rw [← numbered_ofCompiled name lazy] at hselect
  obtain ⟨j', row', hj', hrow', hselected⟩ := select_of_numbered_some hselect
  obtain rfl : j = j' := by omega
  simp only [Function.ofCompiled, List.getElem?_map, hrow, Option.map_some,
    Option.some.injEq] at hrow'
  rw [Function.dispatch, Function.ofCompiled, outcome_bind_ok hplan]
  exact (outcome_matchRows_some hselected act name).trans (by rw [← hrow'])

theorem findsNone_of_choose (name : String) {values : List Value} {s₁ : Store}
    (hplan : outcome (c.plan.run force args) s = (.ok values, s₁))
    (hchoose : outcome (c.choose force args) s = (.ok none, s')) :
    FindsNone force name c args s values s' := by
  refine ⟨hchoose, fun lazy act => ?_⟩
  rw [Compiled.choose, outcome_bind_ok hplan, ← numbered_ofCompiled name lazy] at hchoose
  rw [Function.dispatch, Function.ofCompiled, outcome_bind_ok hplan]
  exact outcome_matchRows_none (select_of_numbered_none hchoose) act name

theorem stops_of_choose (name : String) {e : Stop}
    (hchoose : outcome (c.choose force args) s = (.error e, s')) :
    Stops force name c args s e s' := by
  refine ⟨hchoose, fun lazy act => ?_⟩
  rcases outcome_bind_eq_error hchoose with hplan | ⟨values, s₁, hplan, hselect⟩
  · exact outcome_bind_error hplan _
  · rw [← numbered_ofCompiled name lazy] at hselect
    rw [Function.dispatch, Function.ofCompiled, outcome_bind_ok hplan]
    exact outcome_bind_error (select_of_numbered_error hselect) _

end Dispatch

end LazyMatch
