import LazyMatch.Proofs.Reading

/-!
# Committed choice

An alternation commits to its first option that matches: when something after it does not match, the
other options are not tried. Nothing is lost by that. To choose one option for each alternation in
every way gives rows without alternations, and asking these in order, with the choice for the
leftmost alternation changing last, amounts to full backtracking. When that raises no error, the row
itself has the same answer.

The reason is that matching writes bindings and never reads them. What follows an alternation has
the same answer after every option, so there is nothing to gain from another one.

* `Found`: what comes of asking, as the bindings to write; `Test.finds`, `findVector`;
* `outcome_matchVector`: without strict tests, matching is to find and to write;
* `Found.andThen_of_first_product`: to try all pairs is to commit to the first of each side;
* `Test.choices`, `expansion`: tests and rows with an option chosen for each alternation;
* `committed_choice_complete`: a row has the answer of its expansion.
-/

namespace LazyMatch

/-! ### What comes of asking -/

/-- The bindings to write, in order, when there is a match. -/
abbrev Found := Except Stop (Option (List (String × Value)))

namespace Found

/-- Go on after a match, and write the bindings of both. -/
def andThen : Found → Found → Found
  | .ok (some ws), y => y.map (·.map (ws ++ ·))
  | .ok none, _ => .ok none
  | .error e, _ => .error e

/-- Go on unless there is a match. -/
def orElse : Found → Found → Found
  | .ok none, y => y
  | .ok (some ws), _ => .ok (some ws)
  | .error e, _ => .error e

/-- The first match, unless there is an error before it. -/
def first : List Found → Found
  | [] => .ok none
  | x :: rest => orElse x (first rest)

theorem orElse_none (x : Found) : orElse x (.ok none) = x := by
  rcases x with e | _ | ws <;> rfl

theorem orElse_assoc (x y z : Found) : orElse (orElse x y) z = orElse x (orElse y z) := by
  rcases x with e | _ | ws <;> rfl

theorem first_singleton (x : Found) : first [x] = x := orElse_none x

theorem first_append (xs ys : List Found) :
    first (xs ++ ys) = orElse (first xs) (first ys) := by
  induction xs with
  | nil => rfl
  | cons x xs ih => rw [List.cons_append, first, first, ih, orElse_assoc]

/-- Where all are the same, so is the first. -/
theorem first_eq_of_forall {xs : List Found} {y : Found} (hne : xs ≠ []) (h : ∀ x ∈ xs, x = y) :
    first xs = y := by
  induction xs with
  | nil => exact absurd rfl hne
  | cons x xs ih =>
    obtain ⟨rfl, hxs⟩ := List.forall_mem_cons.mp h
    by_cases hempty : xs = []
    · rw [hempty, first_singleton]
    · rw [first, ih hempty hxs]
      rcases x with e | _ | ws <;> rfl

/-- More bindings to write for each match. -/
theorem first_map (f : List (String × Value) → List (String × Value)) (xs : List Found) :
    first (xs.map fun x => x.map (·.map f)) = (first xs).map (·.map f) := by
  induction xs with
  | nil => rfl
  | cons x xs ih =>
    rw [List.map_cons, first, first, ih]
    rcases x with e | _ | ws <;> rfl

theorem andThen_none_cases {x : Found} {o : Option (List (String × Value))}
    (h : andThen x (.ok none) = .ok o) : o = none := by
  rcases x with e | _ | ws
  · cases h
  · cases h
    rfl
  · cases h
    rfl

/-- All pairs, with the second changing first. -/
def product (xs ys : List Found) : List Found := xs.flatMap fun x => ys.map (andThen x)

theorem first_map_andThen (x : Found) {ys : List Found} (hne : ys ≠ []) :
    first (ys.map (andThen x)) = andThen x (first ys) := by
  rcases x with e | _ | ws
  · exact first_eq_of_forall (by simpa using hne) (by simp [andThen])
  · exact first_eq_of_forall (by simpa using hne) (by simp [andThen])
  · exact first_map (ws ++ ·) ys

/-- **To try all pairs is to commit to the first of each side**, as long as no error comes up. When
nothing on the second side matches, the pairs with the later ones of the first side can only fail
as well. -/
theorem andThen_of_first_product {xs ys : List Found} (hne : ys ≠ [])
    {o : Option (List (String × Value))} (h : first (product xs ys) = .ok o) :
    andThen (first xs) (first ys) = .ok o := by
  induction xs with
  | nil => exact h
  | cons x xs ih =>
    rw [product, List.flatMap_cons, first_append, first_map_andThen x hne] at h
    rw [first]
    rcases x with e | _ | ws
    · cases h
    · exact ih h
    · show andThen (.ok (some ws)) (first ys) = .ok o
      cases hys : first ys with
      | error e =>
        rw [hys] at h
        cases h
      | ok found =>
        rw [hys] at h
        cases found with
        | none =>
          obtain rfl := andThen_none_cases (hys ▸ ih h)
          rfl
        | some ws' => exact h

/-- Committing on both sides, one after the other. -/
theorem andThen_of_product_eq_ok {xs ys : List Found} (hne : ys ≠ []) {x y : Found}
    (hx : ∀ o, first xs = .ok o → x = .ok o) (hy : ∀ o, first ys = .ok o → y = .ok o)
    {o : Option (List (String × Value))} (h : first (product xs ys) = .ok o) :
    andThen x y = .ok o := by
  have hcommit := andThen_of_first_product hne h
  cases hxs : first xs with
  | error e =>
    rw [hxs] at hcommit
    cases hcommit
  | ok found =>
    rw [hxs] at hcommit
    rw [hx found hxs]
    cases found with
    | none => exact hcommit
    | some ws =>
      obtain ⟨o', ho', hput⟩ := map_eq_ok.mp hcommit
      rw [hy o' ho', andThen, Except.map, hput]

end Found

/-! ### Matching is to find and to write -/

mutual

/-- What comes of a test, with values taken as they are. -/
def Test.finds (s : Store) : Test → Value → Found
  | .wild, _ => .ok (some [])
  | .bind name, v => .ok (some [(name, v)])
  | .equal w, v =>
    match s.equal? v w with
    | some true => .ok (some [])
    | some false => .ok none
    | none => .error .exhausted
  | .tag key, v => .ok (if s.hasTag v key then some [] else none)
  | .fields key subs, v =>
    match v, s.hasTag v key with
    | .record r, true => Test.findFields s subs r
    | _, _ => .ok none
  | .named inner name, v => (inner.finds s v).map (·.map (· ++ [(name, v)]))
  | .either options, v => Test.findFirst s options v
  | .strict inner, v => inner.finds s v

/-- What comes of tests of the fields of a record. -/
def Test.findFields (s : Store) : List (String × Test) → RecordRef → Found
  | [], _ => .ok (some [])
  | (name, sub) :: rest, r =>
    match s.field? r name with
    | none => .error (.fault .missingKey)
    | some v => Found.andThen (sub.finds s v) (Test.findFields s rest r)

/-- What comes of options. -/
def Test.findFirst (s : Store) : List Test → Value → Found
  | [], _ => .ok none
  | p :: rest, v => Found.orElse (p.finds s v) (Test.findFirst s rest v)

end

/-- What comes of tests of scrutinees, position by position. -/
def findVector (s : Store) : List Test → List Value → Found
  | p :: ps, v :: vs => Found.andThen (p.finds s v) (findVector s ps vs)
  | _, _ => .ok (some [])

mutual

/-- Whether something is true of a test and of all tests within it. -/
def Test.everywhere (p : Test → Bool) : Test → Bool
  | .fields key subs => p (.fields key subs) && Test.everywhereFields p subs
  | .named inner name => p (.named inner name) && inner.everywhere p
  | .either options => p (.either options) && Test.everywhereAny p options
  | .strict inner => p (.strict inner) && inner.everywhere p
  | t => p t

/-- Whether it is true of all tests of fields. -/
def Test.everywhereFields (p : Test → Bool) : List (String × Test) → Bool
  | [] => true
  | (_, sub) :: rest => sub.everywhere p && Test.everywhereFields p rest

/-- Whether it is true of all options. -/
def Test.everywhereAny (p : Test → Bool) : List Test → Bool
  | [] => true
  | t :: rest => t.everywhere p && Test.everywhereAny p rest

end

/-- Whether a test forces nothing itself. -/
def Test.isLenient : Test → Bool
  | .strict _ => false
  | _ => true

/-- Whether a test is no alternation. -/
def Test.isDecided : Test → Bool
  | .either _ => false
  | _ => true

/-- Whether a test is no alternation without options. -/
def Test.hasOption : Test → Bool
  | .either [] => false
  | _ => true

/-- Enter bindings in order. -/
def Bindings.write (b : Bindings) (ws : List (String × Value)) : Bindings :=
  ws.foldl (fun b e => b.put e.1 e.2) b

/-- What matching answers, given what comes of the test. -/
def Found.answer (x : Found) (b : Bindings) : Except Stop (Option Bindings) := x.map (·.map b.write)

section Matching

variable {force : Value → Run Value} {s : Store}

/-- One thing is asked after another. -/
theorem outcome_andThen {x y : Found} {m : Run (Option Bindings)}
    {k : Bindings → Run (Option Bindings)} {b : Bindings} (hm : outcome m s = (x.answer b, s))
    (hk : ∀ b, outcome (k b) s = (y.answer b, s)) :
    outcome (m >>= fun
      | none => pure none
      | some b => k b) s = ((x.andThen y).answer b, s) := by
  rcases x with e | _ | ws
  · exact outcome_bind_error hm _
  · exact outcome_bind_ok hm _
  · refine (outcome_bind_ok hm _).trans ((hk _).trans ?_)
    rcases y with e | _ | ws'
    · rfl
    · rfl
    · simp [Found.answer, Found.andThen, Except.map, Bindings.write]

/-- One thing is asked in place of another. -/
theorem outcome_orElse {x y : Found} {m n : Run (Option Bindings)} {b : Bindings}
    (hm : outcome m s = (x.answer b, s)) (hn : outcome n s = (y.answer b, s)) :
    outcome (m >>= fun
      | none => n
      | some b => pure (some b)) s = ((x.orElse y).answer b, s) := by
  rcases x with e | _ | ws
  · exact outcome_bind_error hm _
  · exact (outcome_bind_ok hm _).trans hn
  · exact outcome_bind_ok hm _

mutual

/-- Without strict tests, matching leaves the store alone and writes what it finds. -/
theorem outcome_matches : ∀ t : Test, t.everywhere Test.isLenient = true → ∀ (v : Value)
    (b : Bindings), outcome (t.matches force v b) s = ((t.finds s v).answer b, s)
  | .wild, _, _, _ => by rw [Test.matches, Test.finds]; rfl
  | .bind _, _, _, _ => by rw [Test.matches, Test.finds]; rfl
  | .equal w, _, v, b => by
    rw [Test.matches, Test.finds, outcome_get_bind]
    rcases s.equal? v w with _ | _ | _ <;> rfl
  | .tag key, _, v, b => by
    rw [Test.matches, Test.finds, outcome_get_bind]
    cases s.hasTag v key <;> rfl
  | .fields key subs, h, v, b => by
    rw [Test.everywhere, Bool.and_eq_true] at h
    rw [Test.matches, outcome_get_bind]
    by_cases htag : s.hasTag v key = true
    · obtain ⟨r, rfl⟩ := hasTag_cases htag
      simp only [Test.finds, htag]
      exact outcome_matchFields subs h.2 r b
    · have hother : s.hasTag v key = false := by simpa using htag
      simp only [Test.finds, hother]
      cases v <;> rfl
  | .named inner name, h, v, b => by
    rw [Test.everywhere, Bool.and_eq_true] at h
    have hinner := outcome_matches inner h.2 v b
    rw [Test.matches, Test.finds]
    rcases hfound : inner.finds s v with e | _ | ws <;> rw [hfound] at hinner
    · exact outcome_bind_error hinner _
    · exact outcome_bind_ok hinner _
    · refine (outcome_bind_ok hinner _).trans ?_
      simp [Found.answer, Except.map, Bindings.write]
  | .either options, h, v, b => by
    rw [Test.everywhere, Bool.and_eq_true] at h
    rw [Test.matches, Test.finds]
    exact outcome_matchFirst options h.2 v b
  | .strict _, h, _, _ => by simp [Test.everywhere, Test.isLenient] at h

theorem outcome_matchFields : ∀ subs : List (String × Test),
    Test.everywhereFields Test.isLenient subs = true → ∀ (r : RecordRef) (b : Bindings),
      outcome (Test.matchFields force subs r b) s = ((Test.findFields s subs r).answer b, s)
  | [], _, _, _ => by rw [Test.matchFields, Test.findFields]; rfl
  | (name, sub) :: rest, h, r, b => by
    rw [Test.everywhereFields, Bool.and_eq_true] at h
    rw [Test.matchFields, Test.findFields, outcome_get_bind]
    cases s.field? r name with
    | none => rfl
    | some v =>
      exact outcome_andThen (outcome_matches sub h.1 v b) (outcome_matchFields rest h.2 r)

theorem outcome_matchFirst : ∀ options : List Test,
    Test.everywhereAny Test.isLenient options = true → ∀ (v : Value) (b : Bindings),
      outcome (Test.matchFirst force options v b) s = ((Test.findFirst s options v).answer b, s)
  | [], _, _, _ => by rw [Test.matchFirst, Test.findFirst]; rfl
  | p :: rest, h, v, b => by
    rw [Test.everywhereAny, Bool.and_eq_true] at h
    rw [Test.matchFirst, Test.findFirst]
    exact outcome_orElse (outcome_matches p h.1 v b) (outcome_matchFirst rest h.2 v b)

end

theorem outcome_matchVector {tests : List Test}
    (h : ∀ t ∈ tests, t.everywhere Test.isLenient = true) (values : List Value) (b : Bindings) :
    outcome (matchVector force tests values b) s = ((findVector s tests values).answer b, s) := by
  induction tests generalizing values b with
  | nil =>
    simp only [matchVector, findVector]
    rfl
  | cons p ps ih =>
    obtain ⟨hp, hps⟩ := List.forall_mem_cons.mp h
    cases values with
    | nil =>
      simp only [matchVector, findVector]
      rfl
    | cons v vs =>
      rw [matchVector, findVector]
      exact outcome_andThen (outcome_matches p hp v b) (ih hps vs)

theorem outcome_matchGroup {rows : List (List Test)}
    (h : ∀ row ∈ rows, ∀ t ∈ row, t.everywhere Test.isLenient = true) (values : List Value) :
    outcome (matchGroup force values rows) s =
      ((Found.first (rows.map (findVector s · values))).answer [], s) := by
  induction rows with
  | nil => rfl
  | cons row rows ih =>
    obtain ⟨hrow, hrows⟩ := List.forall_mem_cons.mp h
    rw [matchGroup, List.map_cons, Found.first]
    exact outcome_orElse (outcome_matchVector hrow values []) (ih hrows)

end Matching

/-! ### Choosing an option for each alternation -/

mutual

/-- All ways of choosing an option for each alternation in a test. What is chosen for the leftmost
one changes last. -/
def Test.choices : Test → List Test
  | .wild => [.wild]
  | .bind name => [.bind name]
  | .equal w => [.equal w]
  | .tag key => [.tag key]
  | .fields key subs => (Test.choicesFields subs).map (.fields key)
  | .named inner name => inner.choices.map (.named · name)
  | .either options => Test.choicesAny options
  | .strict inner => inner.choices.map .strict

/-- All ways of choosing in the tests of fields. -/
def Test.choicesFields : List (String × Test) → List (List (String × Test))
  | [] => [[]]
  | (name, sub) :: rest =>
    sub.choices.flatMap fun chosen => (Test.choicesFields rest).map ((name, chosen) :: ·)

/-- All ways of choosing one of several options. -/
def Test.choicesAny : List Test → List Test
  | [] => []
  | p :: rest => p.choices ++ Test.choicesAny rest

end

/-- All rows that come of choosing an option for each alternation in a row. -/
def expansion : List Test → List (List Test)
  | [] => [[]]
  | p :: rest => p.choices.flatMap fun chosen => (expansion rest).map (chosen :: ·)

mutual

/-- What is chosen has no alternations left, and forces nothing if nothing did. -/
theorem everywhere_of_mem_choices : ∀ (t : Test), t.everywhere Test.isLenient = true →
    ∀ chosen ∈ t.choices, chosen.everywhere Test.isLenient = true ∧
      chosen.everywhere Test.isDecided = true
  | .wild, _, chosen, hmem | .bind _, _, chosen, hmem | .equal _, _, chosen, hmem
  | .tag _, _, chosen, hmem => by
    rw [Test.choices, List.mem_singleton] at hmem
    rw [hmem]
    exact ⟨rfl, rfl⟩
  | .fields key subs, h, chosen, hmem => by
    rw [Test.everywhere, Bool.and_eq_true] at h
    obtain ⟨subs', hsubs, rfl⟩ := List.mem_map.mp hmem
    simpa [Test.everywhere, Test.isLenient, Test.isDecided] using
      everywhere_of_mem_choicesFields subs h.2 subs' hsubs
  | .named inner name, h, chosen, hmem => by
    rw [Test.everywhere, Bool.and_eq_true] at h
    obtain ⟨inner', hinner, rfl⟩ := List.mem_map.mp hmem
    simpa [Test.everywhere, Test.isLenient, Test.isDecided] using
      everywhere_of_mem_choices inner h.2 inner' hinner
  | .either options, h, chosen, hmem => by
    rw [Test.everywhere, Bool.and_eq_true] at h
    exact everywhere_of_mem_choicesAny options h.2 chosen hmem
  | .strict _, h, _, _ => by simp [Test.everywhere, Test.isLenient] at h

theorem everywhere_of_mem_choicesFields : ∀ (subs : List (String × Test)),
    Test.everywhereFields Test.isLenient subs = true → ∀ chosen ∈ Test.choicesFields subs,
      Test.everywhereFields Test.isLenient chosen = true ∧
        Test.everywhereFields Test.isDecided chosen = true
  | [], _, chosen, hmem => by
    rw [Test.choicesFields, List.mem_singleton] at hmem
    rw [hmem]
    exact ⟨rfl, rfl⟩
  | (name, sub) :: rest, h, chosen, hmem => by
    rw [Test.everywhereFields, Bool.and_eq_true] at h
    obtain ⟨sub', hsub, hmem⟩ := List.mem_flatMap.mp hmem
    obtain ⟨rest', hrest, rfl⟩ := List.mem_map.mp hmem
    obtain ⟨hlenient, hdecided⟩ := everywhere_of_mem_choices sub h.1 sub' hsub
    obtain ⟨hlenient', hdecided'⟩ := everywhere_of_mem_choicesFields rest h.2 rest' hrest
    simp [Test.everywhereFields, hlenient, hdecided, hlenient', hdecided']

theorem everywhere_of_mem_choicesAny : ∀ (options : List Test),
    Test.everywhereAny Test.isLenient options = true → ∀ chosen ∈ Test.choicesAny options,
      chosen.everywhere Test.isLenient = true ∧ chosen.everywhere Test.isDecided = true
  | [], _, chosen, hmem => by cases hmem
  | p :: rest, h, chosen, hmem => by
    rw [Test.everywhereAny, Bool.and_eq_true] at h
    rcases List.mem_append.mp hmem with hmem | hmem
    · exact everywhere_of_mem_choices p h.1 chosen hmem
    · exact everywhere_of_mem_choicesAny rest h.2 chosen hmem

end

theorem everywhere_of_mem_expansion {tests : List Test}
    (h : ∀ t ∈ tests, t.everywhere Test.isLenient = true) :
    ∀ row ∈ expansion tests, ∀ t ∈ row, t.everywhere Test.isLenient = true ∧
      t.everywhere Test.isDecided = true := by
  induction tests with
  | nil => simp [expansion]
  | cons p ps ih =>
    obtain ⟨hp, hps⟩ := List.forall_mem_cons.mp h
    intro row hrow
    obtain ⟨chosen, hchosen, hrow⟩ := List.mem_flatMap.mp hrow
    obtain ⟨rest, hrest, rfl⟩ := List.mem_map.mp hrow
    exact List.forall_mem_cons.mpr
      ⟨everywhere_of_mem_choices p hp chosen hchosen, ih hps rest hrest⟩

mutual

/-- There is something to choose when every alternation has options. -/
theorem Test.choices_ne_nil : ∀ t : Test, t.everywhere Test.hasOption = true → t.choices ≠ []
  | .wild, _ | .bind _, _ | .equal _, _ | .tag _, _ => by simp [Test.choices]
  | .fields key subs, h => by
    rw [Test.everywhere, Bool.and_eq_true] at h
    simpa [Test.choices] using Test.choicesFields_ne_nil subs h.2
  | .named inner name, h => by
    rw [Test.everywhere, Bool.and_eq_true] at h
    simpa [Test.choices] using inner.choices_ne_nil h.2
  | .either [], h => by simp [Test.everywhere, Test.hasOption] at h
  | .either (p :: rest), h => by
    rw [Test.everywhere, Test.everywhereAny, Bool.and_eq_true, Bool.and_eq_true] at h
    rw [Test.choices, Test.choicesAny]
    exact List.append_ne_nil_of_left_ne_nil (p.choices_ne_nil h.2.1) _
  | .strict inner, h => by
    rw [Test.everywhere, Bool.and_eq_true] at h
    simpa [Test.choices] using inner.choices_ne_nil h.2

theorem Test.choicesFields_ne_nil : ∀ subs : List (String × Test),
    Test.everywhereFields Test.hasOption subs = true → Test.choicesFields subs ≠ []
  | [], _ => by simp [Test.choicesFields]
  | (name, sub) :: rest, h => by
    rw [Test.everywhereFields, Bool.and_eq_true] at h
    obtain ⟨chosen, hchosen⟩ := List.exists_mem_of_ne_nil _ (sub.choices_ne_nil h.1)
    obtain ⟨others, hothers⟩ := List.exists_mem_of_ne_nil _ (Test.choicesFields_ne_nil rest h.2)
    exact List.ne_nil_of_mem (List.mem_flatMap.mpr
      ⟨chosen, hchosen, List.mem_map.mpr ⟨others, hothers, rfl⟩⟩)

end

theorem expansion_ne_nil {tests : List Test} (h : ∀ t ∈ tests, t.everywhere Test.hasOption = true) :
    expansion tests ≠ [] := by
  induction tests with
  | nil => simp [expansion]
  | cons p ps ih =>
    obtain ⟨hp, hps⟩ := List.forall_mem_cons.mp h
    obtain ⟨chosen, hchosen⟩ := List.exists_mem_of_ne_nil _ (p.choices_ne_nil hp)
    obtain ⟨rest, hrest⟩ := List.exists_mem_of_ne_nil _ (ih hps)
    exact List.ne_nil_of_mem (List.mem_flatMap.mpr
      ⟨chosen, hchosen, List.mem_map.mpr ⟨rest, hrest, rfl⟩⟩)

/-! ### Committing to an option -/

section Commit

variable {s : Store}

mutual

/-- A test has the answer of its choices. -/
theorem finds_of_first_choices : ∀ t : Test, t.everywhere Test.hasOption = true →
    ∀ (v : Value) (o : Option (List (String × Value))),
      Found.first (t.choices.map (·.finds s v)) = .ok o → t.finds s v = .ok o
  | .wild, _, _, _, h | .bind _, _, _, _, h | .equal _, _, _, _, h | .tag _, _, _, _, h => by
    rwa [Test.choices, List.map_singleton, Found.first_singleton] at h
  | .fields key subs, hoption, v, o, h => by
    have hne := Test.choices_ne_nil _ hoption
    rw [Test.everywhere, Bool.and_eq_true] at hoption
    by_cases htag : s.hasTag v key = true
    · obtain ⟨r, rfl⟩ := hasTag_cases htag
      simp only [Test.choices, List.map_map, Function.comp_def, Test.finds, htag] at h ⊢
      exact findFields_of_first_choices subs hoption.2 r o h
    · have hnone : ∀ subs', (Test.fields key subs').finds s v = .ok none := by
        intro subs'
        have hother : s.hasTag v key = false := by simpa using htag
        simp only [Test.finds, hother]
      rw [hnone, ← h]
      refine (Found.first_eq_of_forall (by simpa using hne) fun x hx => ?_).symm
      simp only [Test.choices, List.map_map, List.mem_map, Function.comp_apply, hnone] at hx
      obtain ⟨_, -, rfl⟩ := hx
      rfl
  | .named inner name, hoption, v, o, h => by
    rw [Test.everywhere, Bool.and_eq_true] at hoption
    simp only [Test.choices, List.map_map, Function.comp_def, Test.finds] at h ⊢
    have hmap := Found.first_map (· ++ [(name, v)]) (inner.choices.map (·.finds s v))
    rw [List.map_map] at hmap
    obtain ⟨o', ho', hput⟩ := map_eq_ok.mp (hmap.symm.trans h)
    rw [finds_of_first_choices inner hoption.2 v o' ho', Except.map, hput]
  | .either options, hoption, v, o, h => by
    rw [Test.everywhere, Bool.and_eq_true] at hoption
    rw [Test.finds]
    exact findFirst_of_first_choices options hoption.2 v o h
  | .strict inner, hoption, v, o, h => by
    rw [Test.everywhere, Bool.and_eq_true] at hoption
    simp only [Test.choices, List.map_map, Function.comp_def, Test.finds] at h ⊢
    exact finds_of_first_choices inner hoption.2 v o h

theorem findFields_of_first_choices : ∀ subs : List (String × Test),
    Test.everywhereFields Test.hasOption subs = true → ∀ (r : RecordRef)
      (o : Option (List (String × Value))),
      Found.first ((Test.choicesFields subs).map (Test.findFields s · r)) = .ok o →
        Test.findFields s subs r = .ok o
  | [], _, _, _, h => by
    rwa [Test.choicesFields, List.map_singleton, Found.first_singleton] at h
  | (name, sub) :: rest, hoption, r, o, h => by
    have hne := Test.choicesFields_ne_nil _ hoption
    rw [Test.everywhereFields, Bool.and_eq_true] at hoption
    rw [Test.findFields]
    cases hfield : s.field? r name with
    | none =>
      have hmissing : Found.first ((Test.choicesFields ((name, sub) :: rest)).map
          (Test.findFields s · r)) = .error (.fault .missingKey) := by
        refine Found.first_eq_of_forall (by simpa using hne) fun x hx => ?_
        simp only [Test.choicesFields, List.map_flatMap, List.map_map, List.mem_flatMap,
          List.mem_map, Function.comp_apply, Test.findFields, hfield] at hx
        obtain ⟨_, -, _, -, rfl⟩ := hx
        rfl
      cases hmissing.symm.trans h
    | some v =>
      have hproduct : (Test.choicesFields ((name, sub) :: rest)).map (Test.findFields s · r) =
          Found.product (sub.choices.map (·.finds s v))
            ((Test.choicesFields rest).map (Test.findFields s · r)) := by
        simp only [Test.choicesFields, List.map_flatMap, List.map_map, Function.comp_def,
          Test.findFields, hfield, Found.product, List.flatMap_map]
      rw [hproduct] at h
      exact Found.andThen_of_product_eq_ok (by simpa using Test.choicesFields_ne_nil rest hoption.2)
        (finds_of_first_choices sub hoption.1 v) (findFields_of_first_choices rest hoption.2 r) h

theorem findFirst_of_first_choices : ∀ options : List Test,
    Test.everywhereAny Test.hasOption options = true → ∀ (v : Value)
      (o : Option (List (String × Value))),
      Found.first ((Test.choicesAny options).map (·.finds s v)) = .ok o →
        Test.findFirst s options v = .ok o
  | [], _, _, _, h => h
  | p :: rest, hoption, v, o, h => by
    rw [Test.everywhereAny, Bool.and_eq_true] at hoption
    rw [Test.choicesAny, List.map_append, Found.first_append] at h
    rw [Test.findFirst]
    cases hfirst : Found.first (p.choices.map (·.finds s v)) with
    | error e =>
      rw [hfirst] at h
      cases h
    | ok found =>
      rw [hfirst] at h
      rw [finds_of_first_choices p hoption.1 v found hfirst]
      cases found with
      | none => exact findFirst_of_first_choices rest hoption.2 v o h
      | some ws => exact h

end

/-- A row has the answer of its expansion. -/
theorem findVector_of_first_expansion {tests : List Test}
    (hoption : ∀ t ∈ tests, t.everywhere Test.hasOption = true) (values : List Value)
    (o : Option (List (String × Value)))
    (h : Found.first ((expansion tests).map (findVector s · values)) = .ok o) :
    findVector s tests values = .ok o := by
  induction tests generalizing values o with
  | nil => rwa [expansion, List.map_singleton, Found.first_singleton] at h
  | cons p ps ih =>
    obtain ⟨hp, hps⟩ := List.forall_mem_cons.mp hoption
    cases values with
    | nil =>
      have hne : (expansion (p :: ps)).map (findVector s · []) ≠ [] := by
        simpa using expansion_ne_nil hoption
      rw [← h]
      refine (Found.first_eq_of_forall hne fun x hx => ?_).symm
      obtain ⟨row, -, rfl⟩ := List.mem_map.mp hx
      simp only [findVector]
    | cons v vs =>
      have hproduct : (expansion (p :: ps)).map (findVector s · (v :: vs)) =
          Found.product (p.choices.map (·.finds s v)) ((expansion ps).map (findVector s · vs)) := by
        simp only [expansion, List.map_flatMap, List.map_map, Function.comp_def, findVector,
          Found.product, List.flatMap_map]
      rw [hproduct] at h
      rw [findVector]
      exact Found.andThen_of_product_eq_ok (by simpa using expansion_ne_nil hps)
        (finds_of_first_choices p hp v) (ih hps vs) h

end Commit

/-- **Committed choice loses nothing.** Take a row without strict tests in which every alternation,
at any depth, has an option. The rows that come of choosing an option for each alternation have no
alternations left. When asking them in order raises no error, the row, which commits to the first
option of each alternation that matches, has the same answer: no match, or the same bindings in the
same order. Neither changes the store. -/
theorem committed_choice_complete {tests : List Test}
    (hlenient : ∀ t ∈ tests, t.everywhere Test.isLenient = true)
    (hoption : ∀ t ∈ tests, t.everywhere Test.hasOption = true) :
    (∀ row ∈ expansion tests, ∀ t ∈ row, t.everywhere Test.isDecided = true) ∧
    ∀ (force : Value → Run Value) (values : List Value) (s s' : Store) (o : Option Bindings),
      outcome ((RowTest.group (expansion tests)).matches force values) s = (.ok o, s') →
      s' = s ∧ outcome ((RowTest.row tests).matches force values) s = (.ok o, s) := by
  have hexpansion := everywhere_of_mem_expansion hlenient
  refine ⟨fun row hrow t ht => (hexpansion row hrow t ht).2, fun force values s s' o h => ?_⟩
  have hgroup : outcome (matchGroup force values (expansion tests)) s = _ :=
    outcome_matchGroup (fun row hrow t ht => (hexpansion row hrow t ht).1) values
  rw [RowTest.matches, hgroup, Prod.mk.injEq] at h
  obtain ⟨found, hfound, rfl⟩ := map_eq_ok.mp h.1
  refine ⟨h.2.symm, ?_⟩
  rw [RowTest.matches, outcome_matchVector hlenient,
    findVector_of_first_expansion hoption values found hfound]
  rfl

/-- A head that is one or anything, and a second value that is two or anything. -/
def pairTests : List Test :=
  [.fields "Cons" [("head", .either [.equal (.int 1), .bind "x"])],
    .either [.named (.equal (.int 2)) "y", .bind "y"]]

/-- A store with a record whose head is seven. -/
def headStore : Store where
  records := #[[(.text "head", .int 7), (.text "", .text "Cons")]]

theorem committed_choice_complete_pair :
    outcome ((RowTest.row pairTests).matches pure [.record ⟨0⟩, .int 3]) headStore =
      (.ok (some [("x", .int 7), ("y", .int 3)]), headStore) := by
  have hanswer : (outcome ((RowTest.group (expansion pairTests)).matches pure
      [.record ⟨0⟩, .int 3]) headStore).1.toOption =
        some (some [("x", .int 7), ("y", .int 3)]) := by
    decide +kernel
  rcases hgroup : outcome ((RowTest.group (expansion pairTests)).matches pure
    [.record ⟨0⟩, .int 3]) headStore with ⟨e | o, s'⟩
  · rw [hgroup] at hanswer
    cases hanswer
  · rw [hgroup] at hanswer
    cases hanswer
    exact ((committed_choice_complete (by decide) (by decide)).2 pure _ _ _ _ hgroup).2

end LazyMatch
