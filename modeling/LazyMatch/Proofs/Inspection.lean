import LazyMatch.Proofs.Outcome

/-!
# Inspections

Dispatch puts tests to values, one after the other, and what it puts next depends on how the last
one came out. An inspection is one such moment: a test, a value, the bindings so far and the store.
The relations below say which inspections dispatch goes through, in the order of its own recursion,
and which calls of force it makes on the way.

* `Inspection.Asks`, `Inspection.Reaches`: from one inspection to the next, and along a path;
* `Function.Opens`: the first inspection of a cell, with the rules and cells before it done;
* `Function.ForceCall`: the calls of force, by the plan and where a test forces in place;
* `dispatch_congr`: these are all the calls, since the outcome of dispatch depends on no others.
-/

namespace LazyMatch

/-- A test that is put to a value, with the bindings so far, in a store. -/
structure Inspection where
  test : Test
  value : Value
  bindings : Bindings
  store : Store

/-- How one inspection leads to another: behind a name, to an option of an alternation, to a field,
or to the same position when it has been forced. -/
inductive Turn where
  | inner
  | option (n : ℕ)
  | field (name : String)
  | forced

/-- The place of a pattern among rules: the rule, the alternative of its group and the column. -/
structure Site where
  rule : ℕ
  alternative : ℕ
  column : ℕ

section Relations

variable (force : Value → Run Value)

/-! ### Within one test -/

/-- The options of an alternation are tried in order, each when those before it have failed. -/
inductive OptionAsked : List Test → Value → Bindings → Store → ℕ → Inspection → Prop
  | head {t rest v b s} : OptionAsked (t :: rest) v b s 0 ⟨t, v, b, s⟩
  | tail {t rest v b s s' n i} (hfails : outcome (t.matches force v b) s = (.ok none, s'))
      (h : OptionAsked rest v b s' n i) : OptionAsked (t :: rest) v b s (n + 1) i

/-- The fields of a record are inspected in order, each when those before it have matched. -/
inductive FieldAsked :
    List (String × Test) → RecordRef → Bindings → Store → String → Inspection → Prop
  | head {name sub rest r b s v} (hv : s.field? r name = some v) :
      FieldAsked ((name, sub) :: rest) r b s name ⟨sub, v, b, s⟩
  | tail {name sub rest r b s v b' s' other i} (hv : s.field? r name = some v)
      (hmatches : outcome (sub.matches force v b) s = (.ok (some b'), s'))
      (h : FieldAsked rest r b' s' other i) : FieldAsked ((name, sub) :: rest) r b s other i

/-- Which inspections an inspection leads to. Fields are inspected only under a tag that matches,
and what is forced only when forcing has answered. -/
inductive Inspection.Asks : Inspection → Turn → Inspection → Prop
  | inner {t name v b s} : Asks ⟨.named t name, v, b, s⟩ .inner ⟨t, v, b, s⟩
  | option {options v b s n i} (h : OptionAsked force options v b s n i) :
      Asks ⟨.either options, v, b, s⟩ (.option n) i
  | field {key subs r b s name i} (htag : s.hasTag (.record r) key = true)
      (h : FieldAsked force subs r b s name i) :
      Asks ⟨.fields key subs, .record r, b, s⟩ (.field name) i
  | forced {t v v' b s s'} (h : outcome (force v) s = (.ok v', s')) :
      Asks ⟨.strict t, v, b, s⟩ .forced ⟨t, v', b, s'⟩

/-- Which inspections an inspection leads to along a path. -/
inductive Inspection.Reaches (i : Inspection) : List Turn → Inspection → Prop
  | refl : Reaches i [] i
  | tail {path turn j k} (h : Reaches i path j) (hjk : j.Asks force turn k) :
      Reaches i (path ++ [turn]) k

/-! ### Among rules -/

/-- The cells of a row are inspected in order, each when those before it have matched. -/
inductive ColumnAsked : List Test → List Value → Bindings → Store → ℕ → Inspection → Prop
  | head {t tests v values b s} : ColumnAsked (t :: tests) (v :: values) b s 0 ⟨t, v, b, s⟩
  | tail {t tests v values b b' s s' n i}
      (hmatches : outcome (t.matches force v b) s = (.ok (some b'), s'))
      (h : ColumnAsked tests values b' s' n i) :
      ColumnAsked (t :: tests) (v :: values) b s (n + 1) i

/-- The rows of a group are tried in order, each when those before it have failed. -/
inductive AlternativeAsked (values : List Value) :
    List (List Test) → Store → ℕ → ℕ → Inspection → Prop
  | head {tests rest s n i} (h : ColumnAsked force tests values [] s n i) :
      AlternativeAsked values (tests :: rest) s 0 n i
  | tail {tests rest s s' m n i}
      (hfails : outcome (matchVector force tests values []) s = (.ok none, s'))
      (h : AlternativeAsked values rest s' m n i) :
      AlternativeAsked values (tests :: rest) s (m + 1) n i

/-- A plain row counts as its own first alternative. -/
inductive RowTest.Asked (values : List Value) : RowTest → Store → ℕ → ℕ → Inspection → Prop
  | row {tests s n i} (h : ColumnAsked force tests values [] s n i) :
      RowTest.Asked values (.row tests) s 0 n i
  | group {alternatives s m n i} (h : AlternativeAsked force values alternatives s m n i) :
      RowTest.Asked values (.group alternatives) s m n i

/-- The rules are tried in order, each when those before it have failed. -/
inductive RuleAsked {α : Type} (values : List Value) :
    List (TestRow α) → Store → Site → Inspection → Prop
  | head {row rest s m n i} (h : row.test.Asked force values s m n i) :
      RuleAsked values (row :: rest) s ⟨0, m, n⟩ i
  | tail {row rest s s' k m n i}
      (hfails : outcome (row.test.matches force values) s = (.ok none, s'))
      (h : RuleAsked values rest s' ⟨k, m, n⟩ i) : RuleAsked values (row :: rest) s ⟨k + 1, m, n⟩ i

/-- The first inspection of a cell when a function is dispatched on arguments. -/
def Function.Opens (f : Function) (args : List Value) (s : Store) (site : Site) (i : Inspection) :
    Prop :=
  ∃ values s', outcome (f.plan.run force args) s = (.ok values, s') ∧
    RuleAsked force values f.rows s' site i

/-! ### Calls of force -/

/-- Each binding of a plan forces the value of its parameter, one after the other. -/
inductive BindingForces : List (String × String) → Table Value → Store → Value → Store → Prop
  | head {new old rest frame s v} (hv : frame.get? old = some v) :
      BindingForces ((new, old) :: rest) frame s v s
  | tail {new old rest frame s s' v w u t} (hv : frame.get? old = some v)
      (hw : outcome (force v) s = (.ok w, s')) (h : BindingForces rest (frame.put new w) s' u t) :
      BindingForces ((new, old) :: rest) frame s u t

/-- The calls of force that dispatch makes before an action runs: the value that is forced, and the
store at that time. -/
inductive Function.ForceCall (f : Function) (args : List Value) (s : Store) : Value → Store → Prop
  | plan {v t}
      (h : BindingForces force f.plan.bindings (Table.ofList (f.plan.params.zip args)) s v t) :
      ForceCall f args s v t
  | strict {site i path t v b t'} (hopens : f.Opens force args s site i)
      (h : i.Reaches force path ⟨.strict t, v, b, t'⟩) : ForceCall f args s v t'

end Relations

/-! ### These are all the calls -/

section Congr

variable {force force' : Value → Run Value}

theorem Inspection.Reaches.head {i j k : Inspection} {turn : Turn} {path : List Turn}
    (hij : i.Asks force turn j) (h : j.Reaches force path k) :
    i.Reaches force (turn :: path) k := by
  induction h with
  | refl => exact .tail .refl hij
  | tail _ hlast ih => exact .tail ih hlast

/-- Whether a second way of forcing does the same as the first wherever an inspection forces. -/
def Inspection.Agrees (force force' : Value → Run Value) (i : Inspection) : Prop :=
  ∀ {path t v b s}, i.Reaches force path ⟨.strict t, v, b, s⟩ →
    outcome (force' v) s = outcome (force v) s

theorem Inspection.Agrees.asks {i j : Inspection} {turn : Turn} (h : i.Agrees force force')
    (hij : i.Asks force turn j) : j.Agrees force force' := fun hj => h (hj.head hij)

mutual

/-- Matching a test depends on no other calls of force. -/
theorem matches_congr : ∀ (t : Test) {v : Value} {b : Bindings} {s : Store},
    (Inspection.mk t v b s).Agrees force force' →
    outcome (t.matches force' v b) s = outcome (t.matches force v b) s
  | .wild, _, _, _, _ | .bind _, _, _, _, _ | .equal _, _, _, _, _ | .tag _, _, _, _, _ => rfl
  | .fields key subs, v, b, s, h => by
    rw [Test.matches, Test.matches, outcome_get_bind, outcome_get_bind]
    cases hv : s.hasTag v key with
    | false => cases v <;> rfl
    | true =>
      cases v with
      | record r => exact matchFields_congr subs fun hi => h.asks (.field hv hi)
      | _ => rfl
  | .named inner name, v, b, s, h => by
    rw [Test.matches, Test.matches]
    exact outcome_bind_congr (matches_congr inner (h.asks .inner)) fun _ _ _ => rfl
  | .either options, v, b, s, h => matchFirst_congr options fun hi => h.asks (.option hi)
  | .strict inner, v, b, s, h => by
    rw [Test.matches, Test.matches]
    exact outcome_bind_congr (h .refl) fun _ _ hw => matches_congr inner (h.asks (.forced hw))

theorem matchFields_congr : ∀ (subs : List (String × Test)) {r : RecordRef} {b : Bindings}
    {s : Store}, (∀ {name i}, FieldAsked force subs r b s name i → i.Agrees force force') →
    outcome (Test.matchFields force' subs r b) s = outcome (Test.matchFields force subs r b) s
  | [], _, _, _, _ => rfl
  | (name, sub) :: rest, r, b, s, h => by
    rw [Test.matchFields, Test.matchFields, outcome_get_bind, outcome_get_bind]
    cases hv : s.field? r name with
    | none => rfl
    | some v =>
      -- Further fields are only inspected, and so only force, when this one has matched.
      refine outcome_bind_congr (matches_congr sub (h (.head hv))) fun o t ht => ?_
      cases o with
      | none => rfl
      | some b' => exact matchFields_congr rest fun hi => h (.tail hv ht hi)

theorem matchFirst_congr : ∀ (options : List Test) {v : Value} {b : Bindings} {s : Store},
    (∀ {n i}, OptionAsked force options v b s n i → i.Agrees force force') →
    outcome (Test.matchFirst force' options v b) s = outcome (Test.matchFirst force options v b) s
  | [], _, _, _, _ => rfl
  | t :: rest, v, b, s, h => by
    rw [Test.matchFirst, Test.matchFirst]
    refine outcome_bind_congr (matches_congr t (h .head)) fun o s' hs' => ?_
    cases o with
    | none => exact matchFirst_congr rest fun hi => h (.tail hs' hi)
    | some b' => rfl

end

theorem matchVector_congr {tests : List Test} {values : List Value} {b : Bindings} {s : Store}
    (h : ∀ {n i}, ColumnAsked force tests values b s n i → i.Agrees force force') :
    outcome (matchVector force' tests values b) s =
      outcome (matchVector force tests values b) s := by
  induction tests generalizing values b s with
  | nil => rfl
  | cons t tests ih =>
    cases values with
    | nil => rfl
    | cons v values =>
      rw [matchVector, matchVector]
      refine outcome_bind_congr (matches_congr t (h .head)) fun o s' hs' => ?_
      cases o with
      | none => rfl
      | some b' => exact ih fun hi => h (.tail hs' hi)

theorem matchGroup_congr {values : List Value} {alternatives : List (List Test)} {s : Store}
    (h : ∀ {m n i}, AlternativeAsked force values alternatives s m n i → i.Agrees force force') :
    outcome (matchGroup force' values alternatives) s =
      outcome (matchGroup force values alternatives) s := by
  induction alternatives generalizing s with
  | nil => rfl
  | cons tests rest ih =>
    rw [matchGroup, matchGroup]
    refine outcome_bind_congr (matchVector_congr fun hi => h (.head hi)) fun o s' hs' => ?_
    cases o with
    | none => exact ih fun hi => h (.tail hs' hi)
    | some b => rfl

theorem rowTest_congr {values : List Value} {row : RowTest} {s : Store}
    (h : ∀ {m n i}, row.Asked force values s m n i → i.Agrees force force') :
    outcome (row.matches force' values) s = outcome (row.matches force values) s := by
  cases row with
  | row tests => exact matchVector_congr fun hi => h (.row hi)
  | group alternatives => exact matchGroup_congr fun hi => h (.group hi)
  | otherwise => rfl

theorem select_congr {α : Type} {values : List Value} {rows : List (TestRow α)} {s : Store}
    (h : ∀ {site i}, RuleAsked force values rows s site i → i.Agrees force force') :
    outcome (select force' values rows) s = outcome (select force values rows) s := by
  induction rows generalizing s with
  | nil => rfl
  | cons row rest ih =>
    rw [select, select]
    refine outcome_bind_congr (rowTest_congr fun hi => h (.head hi)) fun o s' hs' => ?_
    cases o with
    | none => exact ih fun hi => h (.tail hs' hi)
    | some b => rfl

theorem bindForced_congr {bindings : List (String × String)} {frame : Table Value} {s : Store}
    (h : ∀ {v t}, BindingForces force bindings frame s v t →
      outcome (force' v) t = outcome (force v) t) :
    outcome (Plan.bindForced force' bindings frame) s =
      outcome (Plan.bindForced force bindings frame) s := by
  induction bindings generalizing frame s with
  | nil => rfl
  | cons e rest ih =>
    obtain ⟨new, old⟩ := e
    rw [Plan.bindForced, Plan.bindForced, Plan.read]
    cases hv : frame.get? old with
    | none => rfl
    | some v =>
      rw [pure_bind, pure_bind]
      exact outcome_bind_congr (h (.head hv)) fun w t hw => ih fun hu => h (.tail hv hw hu)

/-- The outcome of dispatch depends on no other calls of force. -/
theorem dispatch_congr {f : Function} {args : List Value} {s : Store}
    (h : ∀ {v t}, f.ForceCall force args s v t → outcome (force' v) t = outcome (force v) t)
    (act : Handler → Bindings → Run Value) :
    outcome (f.dispatch force' act args) s = outcome (f.dispatch force act args) s := by
  have hplan : outcome (f.plan.run force' args) s = outcome (f.plan.run force args) s := by
    rw [Plan.run, Plan.run]
    exact outcome_bind_congr (bindForced_congr fun hv => h (.plan hv)) fun _ _ _ => rfl
  rw [Function.dispatch, Function.dispatch]
  refine outcome_bind_congr hplan fun values s' hvalues => ?_
  rw [matchRows, matchRows]
  -- After the selection the action runs, or a fault is raised, which forces nothing.
  refine outcome_bind_congr (select_congr fun hi => ?_) fun _ _ _ => rfl
  exact fun hforced => h (.strict ⟨values, s', hvalues, hi⟩ hforced)

end Congr

end LazyMatch
