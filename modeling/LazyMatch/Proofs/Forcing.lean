import LazyMatch.Proofs.Inspection
import LazyMatch.Proofs.Reading

/-!
# What dispatch forces

Forcing is decided in two places: for whole columns, and in front of the sub-patterns of structured
forms. Seen along the inspections of dispatch, the two amount to one rule. Every inspection stems
from a pattern, and a pattern that names a lazy constructor is inspected on a forced value or forces
it first; nothing else is forced.

* `Pattern.NamesLazy`: naming a lazy constructor, behind names and in alternations;
* `Pattern.at?`: the pattern that an inspection stems from, by the path to it;
* `Pattern.Met`: how a pattern is inspected, with `Pattern.Met.asks` for one turn and
  `met_of_reaches` for a path;
* `forcing_sufficient`: what asks for a lazy constructor is put to forced values;
* `forcing_minimal`: what is forced is asked for a lazy constructor.
-/

namespace LazyMatch

/-! ### Naming lazy constructors -/

/-- Whether a pattern names a lazy constructor, at its top or behind names and alternations. -/
inductive Pattern.NamesLazy : Pattern → Prop
  | constant {token c} (h : c.lazy = true) : NamesLazy (.constant token c)
  | factory {token c fields} (h : c.lazy = true) : NamesLazy (.factory token c fields)
  | named {token inner name} (h : NamesLazy inner) : NamesLazy (.named token inner name)
  | either {token alternatives p} (hp : p ∈ alternatives) (h : NamesLazy p) :
      NamesLazy (.either token alternatives)

mutual

theorem Pattern.namesLazy_of_demands : ∀ {p : Pattern}, p.demands = true → p.NamesLazy
  | .constant _ _, h => .constant h
  | .factory _ _ _, h => .factory h
  | .named _ inner _, h => .named (Pattern.namesLazy_of_demands (p := inner) h)
  | .either _ alternatives, h => by
    obtain ⟨p, hp, hlazy⟩ : ∃ p ∈ alternatives, p.NamesLazy := Pattern.exists_namesLazy h
    exact .either hp hlazy

theorem Pattern.exists_namesLazy :
    ∀ {ps : List Pattern}, Pattern.demandsAny ps = true → ∃ p ∈ ps, p.NamesLazy
  | p :: rest, h => by
    rw [Pattern.demandsAny, Bool.or_eq_true] at h
    rcases h with h | h
    · exact ⟨p, List.mem_cons_self, Pattern.namesLazy_of_demands h⟩
    · obtain ⟨q, hq, hlazy⟩ := Pattern.exists_namesLazy h
      exact ⟨q, List.mem_cons_of_mem _ hq, hlazy⟩

end

/-- A pattern demands that its position be forced exactly when it names a lazy constructor. -/
theorem Pattern.demands_iff_namesLazy {p : Pattern} : p.demands = true ↔ p.NamesLazy := by
  refine ⟨Pattern.namesLazy_of_demands, fun h => ?_⟩
  induction h with
  | constant h => exact h
  | factory h => exact h
  | named _ ih => exact ih
  | @either _ alternatives p hp _ ih =>
    rw [Pattern.demands, Pattern.demandsAny_eq]
    exact List.any_eq_true.mpr ⟨p, hp, ih⟩

/-! ### Where a test stems from -/

/-- The sub-pattern that a turn leads to. -/
def Pattern.child? : Pattern → Turn → Option Pattern
  | p, .forced => some p
  | .named _ inner _, .inner => some inner
  | .either _ alternatives, .option n => alternatives[n]?
  | .factory _ c fields, .field name => (fieldPatterns c.fields fields).get? name
  | _, _ => none

/-- The sub-pattern that a path leads to. -/
def Pattern.at? (p : Pattern) (path : List Turn) : Option Pattern := path.foldlM Pattern.child? p

theorem Pattern.at?_concat {p q q' : Pattern} {path : List Turn} {turn : Turn}
    (h : p.at? path = some q) (hturn : q.child? turn = some q') :
    p.at? (path ++ [turn]) = some q' := by
  rw [Pattern.at?, List.foldlM_append, show path.foldlM Pattern.child? p = some q from h]
  simpa using hturn

/-- The constructor that a pattern names itself. -/
def Pattern.constructor? : Pattern → Option Constructor
  | .constant _ c | .factory _ c _ => some c
  | _ => none

theorem Test.ofValue_cases (v : Value) :
    Test.ofValue v = .wild ∨ (∃ name, Test.ofValue v = .bind name) ∨
      ∃ w, Test.ofValue v = .equal w := by
  unfold Test.ofValue
  split
  · split
    · exact .inl rfl
    · exact .inr (.inl ⟨_, rfl⟩)
  · exact .inr (.inr ⟨_, rfl⟩)
  · exact .inr (.inr ⟨_, rfl⟩)

theorem Pattern.test_ne_strict (p : Pattern) (t : Test) : p.test ≠ .strict t := by
  have hvalue (v : Value) : Test.ofValue v ≠ .strict t := by
    rcases Test.ofValue_cases v with h | ⟨_, h⟩ | ⟨_, h⟩ <;> simp [h]
  cases p with
  | deferred _ content => exact hvalue content
  | verbatim token => exact hvalue (.phrase token)
  | _ => simp [Pattern.test]

section Turns

variable {force : Value → Run Value}

theorem OptionAsked.test {options : List Test} {v : Value} {b : Bindings} {s : Store} {n : ℕ}
    {i : Inspection} (h : OptionAsked force options v b s n i) :
    options[n]? = some i.test ∧ i.value = v := by
  induction h with
  | head => exact ⟨rfl, rfl⟩
  | tail _ _ ih => exact ih

theorem FieldAsked.test {subs : List (String × Test)} {r : RecordRef} {b : Bindings} {s : Store}
    {name : String} {i : Inspection} (h : FieldAsked force subs r b s name i) :
    (name, i.test) ∈ subs ∧ i.store.field? r name = some i.value := by
  induction h with
  | head hv => exact ⟨List.mem_cons_self, hv⟩
  | tail _ _ _ ih => exact ⟨List.mem_cons_of_mem _ ih.1, ih.2⟩

/-- What goes through verbatim leads no further. -/
theorem not_asks_ofValue {w v : Value} {b : Bindings} {s : Store} {turn : Turn} {j : Inspection} :
    ¬ (Inspection.mk (.ofValue w) v b s).Asks force turn j := by
  intro h
  rcases Test.ofValue_cases w with hw | ⟨_, hw⟩ | ⟨_, hw⟩ <;> rw [hw] at h <;> cases h

/-- A turn from the inspection of a pattern to that of a sub-pattern. Fields are reached from
structured forms, under the tag of their constructor. -/
inductive Pattern.Turns : Pattern → Inspection → Turn → Pattern → Inspection → Prop
  | inner {token p name t v b s} :
      Turns (.named token p name) ⟨t, v, b, s⟩ .inner p ⟨p.test, v, b, s⟩
  | option {token alternatives n p t v b s b' s'} (hp : alternatives[n]? = some p) :
      Turns (.either token alternatives) ⟨t, v, b, s⟩ (.option n) p ⟨p.test, v, b', s'⟩
  | field {token c fields name p t r b s v b' s'} (htag : s.hasTag (.record r) c.key = true)
      (hp : (fieldPatterns c.fields fields).get? name = some p)
      (hv : s'.field? r name = some v) :
      Turns (.factory token c fields) ⟨t, .record r, b, s⟩ (.field name) p ⟨p.nested, v, b', s'⟩

/-- What the test of a pattern asks next is asked by a sub-pattern. -/
theorem Pattern.turns_of_asks {p : Pattern} {v : Value} {b : Bindings} {s : Store} {turn : Turn}
    {j : Inspection} (h : (Inspection.mk p.test v b s).Asks force turn j) :
    ∃ q, p.child? turn = some q ∧ p.Turns ⟨p.test, v, b, s⟩ turn q j := by
  obtain ⟨t, v', b', s'⟩ := j
  cases p with
  | wildcard _ => cases h
  | constant _ _ => cases h
  | factory token c fields =>
    cases h with
    | field htag hj =>
      obtain ⟨hmem, hv⟩ := hj.test
      rw [Pattern.testFields_eq_map] at hmem
      obtain ⟨⟨_, q⟩, hq, hsame⟩ := List.mem_map.mp hmem
      cases hsame
      -- Each field name has one entry, so the name tells which sub-pattern it is.
      have hget := Table.get?_of_mem (Table.nodup_ofList _) hq
      exact ⟨q, hget, .field htag hget hv⟩
  | named token q name =>
    cases h
    exact ⟨q, rfl, .inner⟩
  | either token alternatives =>
    cases h with
    | option hj =>
      obtain ⟨hmem, rfl⟩ := hj.test
      rw [Pattern.tests_eq, List.getElem?_map, Option.map_eq_some_iff] at hmem
      obtain ⟨q, hq, rfl⟩ := hmem
      exact ⟨q, hq, .option hq⟩
  | deferred _ _ => exact absurd h not_asks_ofValue
  | verbatim _ => exact absurd h not_asks_ofValue

/-- How a pattern is inspected: on a value that has been forced if it demands it, or by forcing the
value first. -/
inductive Pattern.Met (Forced : Value → Prop) (p : Pattern) : Inspection → Prop
  | plain {v b s} (h : p.demands = true → Forced v) : Met Forced p ⟨p.test, v, b, s⟩
  | strict {v b s} (h : p.demands = true) : Met Forced p ⟨.strict p.test, v, b, s⟩

variable {Forced : Value → Prop}

theorem Pattern.met_nested (p : Pattern) (v : Value) (b : Bindings) (s : Store) :
    p.Met Forced ⟨p.nested, v, b, s⟩ := by
  cases hd : p.demands with
  | false =>
    rw [Pattern.nested_of_not_demands hd]
    exact .plain fun h => absurd h (by simp [hd])
  | true =>
    rw [Pattern.nested_of_demands hd]
    exact .strict hd

/-- The sub-pattern of a turn is met, given that a pattern is and that forcing gives what counts as
forced. Names and alternations hand the demand on, and structured forms force in place. -/
theorem Pattern.Met.asks {p : Pattern} {i j : Inspection} {turn : Turn} (h : p.Met Forced i)
    (hforced : ∀ {t v b s v' s'}, i = ⟨.strict t, v, b, s⟩ → outcome (force v) s = (.ok v', s') →
      Forced v')
    (hij : i.Asks force turn j) : ∃ q, p.child? turn = some q ∧ q.Met Forced j := by
  cases h with
  | plain hd =>
    obtain ⟨q, hq, hturn⟩ := Pattern.turns_of_asks hij
    refine ⟨q, hq, ?_⟩
    cases hturn with
    | inner => exact .plain hd
    | option hp =>
      refine .plain fun h => hd ?_
      rw [Pattern.demands, Pattern.demandsAny_eq]
      exact List.any_eq_true.mpr ⟨q, List.mem_of_getElem? hp, h⟩
    | field _ _ _ => exact q.met_nested _ _ _
  | strict hd =>
    cases hij with
    | forced hw => exact ⟨p, by cases p <;> rfl, .plain fun _ => hforced rfl hw⟩

/-- What is asked of a field is asked by a structured form whose tag has matched. -/
theorem Pattern.Met.asks_field {p : Pattern} {i j : Inspection} {name : String}
    (h : p.Met Forced i) (hij : i.Asks force (.field name) j) :
    ∃ token c fields r q, p = .factory token c fields ∧ i.value = .record r ∧
      i.store.hasTag i.value c.key = true ∧ (fieldPatterns c.fields fields).get? name = some q ∧
      j.test = q.nested ∧ j.store.field? r name = some j.value := by
  cases h with
  | plain hd =>
    obtain ⟨q, _, hturn⟩ := Pattern.turns_of_asks hij
    cases hturn with
    | field htag hq hv => exact ⟨_, _, _, _, q, rfl, rfl, htag, hq, rfl, hv⟩
  | strict hd => cases hij

/-- What is forced in place is a field. -/
theorem Pattern.Met.turn_of_strict {p : Pattern} {i : Inspection} {turn : Turn} {t : Test}
    {v : Value} {b : Bindings} {s : Store} (h : p.Met Forced i)
    (hij : i.Asks force turn ⟨.strict t, v, b, s⟩) : ∃ name, turn = .field name := by
  cases h with
  | plain hd =>
    obtain ⟨q, _, hturn⟩ := Pattern.turns_of_asks hij
    generalize hj : Inspection.mk (.strict t) v b s = j at hturn
    cases hturn with
    | inner => exact absurd (congrArg Inspection.test hj).symm (q.test_ne_strict t)
    | option hp => exact absurd (congrArg Inspection.test hj).symm (q.test_ne_strict t)
    | field _ _ _ => exact ⟨_, rfl⟩
  | strict hd =>
    generalize hj : Inspection.mk (.strict t) v b s = j at hij
    cases hij with
    | forced hw => exact absurd (congrArg Inspection.test hj).symm (p.test_ne_strict t)

/-! ### Along a path -/

/-- Whether the inspections of a pattern start here: its own test is put to a value, it is met, and
what is forced from here on counts as forced. -/
structure Pattern.Starts (force : Value → Run Value) (Forced : Value → Prop) (p : Pattern)
    (i : Inspection) : Prop where
  test : i.test = p.test
  met : p.Met Forced i
  forced : ∀ {path t v b s v' s'}, i.Reaches force path ⟨.strict t, v, b, s⟩ →
    outcome (force v) s = (.ok v', s') → Forced v'

/-- Every inspection stems from the sub-pattern at its path, and that is met. -/
theorem met_of_reaches {p : Pattern} {i j : Inspection} {path : List Turn}
    (hi : p.Starts force Forced i) (h : i.Reaches force path j) :
    ∃ q, p.at? path = some q ∧ q.Met Forced j := by
  induction h with
  | refl => exact ⟨p, rfl, hi.met⟩
  | tail hj hjk ih =>
    obtain ⟨q, hq, hmet⟩ := ih
    obtain ⟨q', hq', hmet'⟩ := hmet.asks (fun hstrict => hi.forced (hstrict ▸ hj)) hjk
    exact ⟨q', Pattern.at?_concat hq hq', hmet'⟩

/-- Whether, wherever a path turns into a field, the pattern there is a structured form, and the
value that it is put to has the tag of its constructor. -/
def TagsMatch (force : Value → Run Value) (p : Pattern) (i : Inspection) (path : List Turn) :
    Prop :=
  ∀ before name after, path = before ++ .field name :: after →
    ∃ token c fields j, p.at? before = some (.factory token c fields) ∧
      i.Reaches force before j ∧ j.store.hasTag j.value c.key = true

theorem tagsMatch_of_reaches {p : Pattern} {i j : Inspection} {path : List Turn}
    (hi : p.Starts force Forced i) (h : i.Reaches force path j) : TagsMatch force p i path := by
  induction h with
  | refl => exact fun before name after hpath => by simp at hpath
  | @tail path turn j k hj hjk ih =>
    intro before name after hpath
    -- The turn in question is the last one, or one of those before it.
    rcases List.eq_nil_or_concat after with rfl | ⟨after, last, rfl⟩
    · obtain ⟨rfl, hturn⟩ := List.append_inj' hpath rfl
      cases hturn
      obtain ⟨q, hq, hmet⟩ := met_of_reaches hi hj
      obtain ⟨token, c, fields, _, _, rfl, _, htag, _⟩ := hmet.asks_field hjk
      exact ⟨token, c, fields, j, hq, hj, htag⟩
    · refine ih before name after ?_
      rw [List.concat_eq_append, ← List.cons_append, ← List.append_assoc] at hpath
      exact (List.append_inj' hpath rfl).1

/-! ### What a plan forces -/

theorem bindingsFrom_cons (k : ℕ) (needed : Bool) (need : List Bool) :
    bindingsFrom k (needed :: need) =
      (if needed then [(forcedName k, argName k)] else []) ++ bindingsFrom (k + 1) need := rfl

/-- A plan forces only the parameters in demand. -/
theorem BindingForces.parameter {need : List Bool} {k : ℕ} {frame : Table Value} {s t : Store}
    {v : Value} (h : BindingForces force (bindingsFrom k need) frame s v t) :
    ∃ i, need[i]? = some true ∧ frame.get? (argName (k + i)) = some v := by
  induction need generalizing k frame s with
  | nil => cases h
  | cons needed need ih =>
    have hnext {frame' : Table Value} {s' : Store}
        (h : BindingForces force (bindingsFrom (k + 1) need) frame' s' v t)
        (hkept : ∀ i, frame'.get? (argName i) = frame.get? (argName i)) :
        ∃ i, (needed :: need)[i]? = some true ∧ frame.get? (argName (k + i)) = some v := by
      obtain ⟨i, hi, hv⟩ := ih h
      exact ⟨i + 1, hi, by rw [← hkept, ← hv]; congr 2; omega⟩
    cases needed with
    | false => exact hnext h fun _ => rfl
    | true =>
      cases h with
      | head hv => exact ⟨0, rfl, hv⟩
      | tail _ _ h =>
        exact hnext h fun i => Table.get?_put_of_ne _ (forcedName_ne_argName k i).symm _

/-- When the bindings of a plan have run, the parameters are as they were, and the fresh name of
each parameter in demand stands for what forcing it has given. -/
theorem frame_of_bindForced {need : List Bool} {k : ℕ} {frame frame' : Table Value} {s s' : Store}
    (h : outcome (Plan.bindForced force (bindingsFrom k need) frame) s = (.ok frame', s')) :
    (∀ i, frame'.get? (argName i) = frame.get? (argName i)) ∧
    (∀ i < k, frame'.get? (forcedName i) = frame.get? (forcedName i)) ∧
    ∀ i, need[i]? = some true → ∃ v w t t', frame.get? (argName (k + i)) = some v ∧
      BindingForces force (bindingsFrom k need) frame s v t ∧
      outcome (force v) t = (.ok w, t') ∧ frame'.get? (forcedName (k + i)) = some w := by
  induction need generalizing k frame s with
  | nil =>
    cases h
    exact ⟨fun _ => rfl, fun _ _ => rfl, fun i hi => by simp at hi⟩
  | cons needed need ih =>
    cases needed with
    | false =>
      obtain ⟨hargs, hold, hnew⟩ := ih (k := k + 1) h
      refine ⟨hargs, fun i hi => hold i (by omega), fun i hi => ?_⟩
      cases i with
      | zero => simp at hi
      | succ i =>
        rw [show k + (i + 1) = k + 1 + i by omega]
        exact hnew i hi
    | true =>
      rw [bindingsFrom_cons, if_pos rfl, List.singleton_append, Plan.bindForced, Plan.read] at h
      cases hv : frame.get? (argName k) with
      | none =>
        rw [hv] at h
        cases h
      | some v =>
        rw [hv, pure_bind] at h
        obtain ⟨w, s₁, hw, hrest⟩ := outcome_bind_eq_ok h
        obtain ⟨hargs, hold, hnew⟩ := ih hrest
        -- A fresh name hides no parameter, and no later binding writes it again.
        have hkept (i : ℕ) : (frame.put (forcedName k) w).get? (argName i) =
            frame.get? (argName i) := Table.get?_put_of_ne _ (forcedName_ne_argName k i).symm _
        refine ⟨fun i => (hargs i).trans (hkept i), fun i hi => ?_, fun i hi => ?_⟩
        · rw [hold i (by omega), Table.get?_put_of_ne]
          intro heq
          have := forcedName_injective heq
          omega
        · cases i with
          | zero => exact ⟨v, w, s, s₁, hv, .head hv, hw, by
              rw [Nat.add_zero, hold k (by omega), Table.get?_put_self]⟩
          | succ i =>
            rw [show k + (i + 1) = k + 1 + i by omega]
            obtain ⟨u, x, t, t', hu, hcall, hx, hname⟩ := hnew i hi
            exact ⟨u, x, t, t', (hkept _).symm.trans hu, .tail hv hw hcall, hx, hname⟩

theorem getElem?_dispatchFrom (k : ℕ) (need : List Bool) (i : ℕ) :
    (dispatchFrom k need)[i]? =
      (need[i]?).map fun needed => if needed then forcedName (k + i) else argName (k + i) := by
  induction need generalizing k i with
  | nil => rfl
  | cons needed need ih =>
    cases i with
    | zero => rfl
    | succ i =>
      rw [dispatchFrom, List.getElem?_cons_succ, List.getElem?_cons_succ, ih,
        show k + 1 + i = k + (i + 1) by omega]

/-- What is read stands in the frame under the name that is read there. -/
theorem get?_of_read {frame : Table Value} {names : List String} {values : List Value}
    {s s' : Store} (h : outcome (names.mapM (Plan.read frame)) s = (.ok values, s')) {n : ℕ}
    {v : Value} (hv : values[n]? = some v) :
    ∃ name, names[n]? = some name ∧ frame.get? name = some v := by
  induction names generalizing values s n with
  | nil =>
    cases h
    simp at hv
  | cons name names ih =>
    rw [List.mapM_cons, Plan.read] at h
    cases hfirst : frame.get? name with
    | none =>
      rw [hfirst] at h
      cases h
    | some w =>
      rw [hfirst, pure_bind] at h
      obtain ⟨rest, s₁, hrest, h⟩ := outcome_bind_eq_ok h
      cases h
      cases n with
      | zero => exact ⟨name, rfl, hfirst.trans hv⟩
      | succ n => exact ih hrest hv

/-- The frame holds arguments under the names of their positions. -/
theorem getElem?_of_get?_argName {n i : ℕ} {args : List Value} {v : Value}
    (h : (Table.ofList ((standardNames n).zip args)).get? (argName i) = some v) :
    args[i]? = some v := by
  obtain ⟨j, hj⟩ := List.mem_iff_getElem?.mp (Table.mem_of_mem_ofList (Table.mem_of_get? h))
  obtain ⟨hname, hv⟩ := List.getElem?_zip_eq_some.mp hj
  rw [standardNames_eq, List.getElem?_map, Option.map_eq_some_iff] at hname
  obtain ⟨j', hj', hname⟩ := hname
  obtain ⟨_, rfl⟩ := List.getElem?_eq_some_iff.mp hj'
  rw [List.getElem_range] at hname
  rwa [← argName_injective hname]

end Turns

/-! ### Where dispatch starts -/

/-- The pattern at a site among resolved rows. -/
def patternAt (rows : List PatternRow) (site : Site) : Option Pattern :=
  (rows[site.rule]?).bind fun row => (row.rows[site.alternative]?).bind (·[site.column]?)

section Dispatch

variable {force : Value → Run Value}

theorem ColumnAsked.test {tests : List Test} {values : List Value} {b : Bindings} {s : Store}
    {n : ℕ} {i : Inspection} (h : ColumnAsked force tests values b s n i) :
    tests[n]? = some i.test ∧ values[n]? = some i.value := by
  induction h with
  | head => exact ⟨rfl, rfl⟩
  | tail _ _ ih => exact ih

theorem AlternativeAsked.test {values : List Value} {alternatives : List (List Test)} {s : Store}
    {m n : ℕ} {i : Inspection} (h : AlternativeAsked force values alternatives s m n i) :
    ∃ tests, alternatives[m]? = some tests ∧ tests[n]? = some i.test ∧
      values[n]? = some i.value := by
  induction h with
  | head h => exact ⟨_, rfl, h.test⟩
  | tail _ _ ih => exact ih

/-- What is first asked in a row is the test of a pattern of the row. -/
theorem PatternRow.exists_of_asked {row : PatternRow} {values : List Value} {s : Store} {m n : ℕ}
    {i : Inspection} (h : row.test.Asked force values s m n i) :
    ∃ cells p, row.rows[m]? = some cells ∧ cells[n]? = some p ∧ i.test = p.test ∧
      values[n]? = some i.value := by
  have hcell {cells : List Pattern} (htest : (cells.map Pattern.test)[n]? = some i.test) :
      ∃ p, cells[n]? = some p ∧ i.test = p.test := by
    rw [List.getElem?_map, Option.map_eq_some_iff] at htest
    obtain ⟨p, hp, htest⟩ := htest
    exact ⟨p, hp, htest.symm⟩
  cases row with
  | row cells =>
    cases h with
    | row h =>
      obtain ⟨htest, hv⟩ := h.test
      obtain ⟨p, hp, htest⟩ := hcell htest
      exact ⟨cells, p, rfl, hp, htest, hv⟩
  | group rows =>
    cases h with
    | group h =>
      obtain ⟨tests, htests, htest, hv⟩ := h.test
      rw [List.getElem?_map, Option.map_eq_some_iff] at htests
      obtain ⟨cells, hcells, rfl⟩ := htests
      obtain ⟨p, hp, htest⟩ := hcell htest
      exact ⟨cells, p, hcells, hp, htest, hv⟩
  | otherwise => cases h

theorem RuleAsked.row {α : Type} {values : List Value} {rows : List (TestRow α)} {s : Store}
    {site : Site} {i : Inspection} (h : RuleAsked force values rows s site i) :
    ∃ row s', rows[site.rule]? = some row ∧
      row.test.Asked force values s' site.alternative site.column i := by
  induction h with
  | head h => exact ⟨_, _, rfl, h⟩
  | tail _ _ ih => exact ih

variable {r : Registry} {name : String} {rules : List (Rule Value)} {rows : List PatternRow}
  {arity : ℕ} {c : Compiled Value}

/-- Whether a value is what a call of force, made in the course of dispatch, has answered. -/
def Function.ForcesTo (force : Value → Run Value) (f : Function) (args : List Value) (s : Store)
    (v w : Value) : Prop :=
  ∃ t t', f.ForceCall force args s v t ∧ outcome (force v) t = (.ok w, t')

/-- The matcher looks at an argument, or at what forcing it has given, and at the latter when the
column is in demand. -/
theorem Compiles.scrutinee (h : Compiles r.resolver rules rows arity c) (name : String)
    (lazy : Bool) {args values : List Value} {s s' : Store}
    (hrun : outcome (c.plan.run force args) s = (.ok values, s')) {n : ℕ} {w : Value}
    (hw : values[n]? = some w) :
    n < arity ∧ ∃ v, args[n]? = some v ∧
      (w = v ∨ (Function.ofCompiled name lazy c).ForcesTo force args s v w) ∧
      ((demandOf (plainRows rows) arity)[n]? = some true →
        (Function.ofCompiled name lazy c).ForcesTo force args s v w) := by
  have hcall {v : Value} {t : Store} (hcall : BindingForces force c.plan.bindings
      (Table.ofList (c.plan.params.zip args)) s v t) :
      (Function.ofCompiled name lazy c).ForceCall force args s v t := .plan hcall
  rw [h.plan_eq] at hrun hcall
  obtain ⟨frame, s₁, hframe, hread⟩ := outcome_bind_eq_ok hrun
  obtain ⟨hargs, _, hforced⟩ := frame_of_bindForced hframe
  obtain ⟨read, hname, hget⟩ := get?_of_read hread hw
  rw [getElem?_dispatchFrom, Option.map_eq_some_iff] at hname
  obtain ⟨needed, hneeded, rfl⟩ := hname
  have hn : n < arity := by
    have hlength := (List.getElem?_eq_some_iff.mp hneeded).1
    rwa [length_demandOf] at hlength
  refine ⟨hn, ?_⟩
  cases needed with
  | false =>
    rw [if_neg (by decide), Nat.zero_add, hargs] at hget
    exact ⟨w, getElem?_of_get?_argName hget, .inl rfl, fun h => by simp [hneeded] at h⟩
  | true =>
    obtain ⟨v, w', t, t', hv, hmade, hw', hfresh⟩ := hforced n hneeded
    rw [if_pos rfl, hfresh, Option.some.injEq] at hget
    subst hget
    rw [Nat.zero_add] at hv
    have hanswer : (Function.ofCompiled name lazy c).ForcesTo force args s v w' :=
      ⟨t, t', hcall hmade, hw'⟩
    exact ⟨v, getElem?_of_get?_argName hv, .inr hanswer, fun _ => hanswer⟩

/-- The inspections of the pattern at a site start with the argument of its column, or with what
forcing that has given. -/
theorem Compiles.opens (h : Compiles r.resolver rules rows arity c) {lazy : Bool}
    {args : List Value} {s : Store} {site : Site} {i : Inspection}
    (hi : (Function.ofCompiled name lazy c).Opens force args s site i) :
    ∃ p v, patternAt rows site = some p ∧ args[site.column]? = some v ∧
      (i.value = v ∨ (Function.ofCompiled name lazy c).ForcesTo force args s v i.value) ∧
      p.Starts force (fun w => ∃ v, (Function.ofCompiled name lazy c).ForcesTo force args s v w)
        i := by
  have hforced {path t v b t' v' t''} (hreach : i.Reaches force path ⟨.strict t, v, b, t'⟩)
      (hv : outcome (force v) t' = (.ok v', t'')) :
      ∃ v, (Function.ofCompiled name lazy c).ForcesTo force args s v v' :=
    ⟨v, t', t'', .strict hi hreach, hv⟩
  obtain ⟨values, s', hrun, hasked⟩ := hi
  obtain ⟨row, s₁, hrow, hasked⟩ := hasked.row
  simp only [Function.ofCompiled, List.getElem?_map, Option.map_eq_some_iff] at hrow
  obtain ⟨_, hrow, rfl⟩ := hrow
  obtain ⟨row', _, hrow', _, rfl⟩ := h.exists_of_row hrow
  obtain ⟨cells, p, hcells, hp, htest, hv⟩ := PatternRow.exists_of_asked hasked
  obtain ⟨hn, v, harg, hvalue, hdemand⟩ := h.scrutinee name lazy hrun hv
  refine ⟨p, v, by simp [patternAt, hrow', hcells, hp], harg, hvalue, htest, ?_, hforced⟩
  obtain ⟨_, w, b, t⟩ := i
  obtain rfl := htest
  refine .plain fun hd => ⟨v, hdemand ?_⟩
  have hmem : cells ∈ plainRows rows :=
    List.mem_flatMap.mpr ⟨row', List.mem_of_getElem? hrow', List.mem_of_getElem? hcells⟩
  exact demandOf_eq_true_iff.mpr ⟨hn, cells, hmem, p, hp, hd⟩

/-! ### Forcing is sufficient -/

theorem not_isDeferred_of_force {env : Env} {fuel : ℕ} {passed : List ThunkRef} {v w : Value}
    {s s' : Store} (h : outcome (perform env fuel (.force passed v)) s = (.ok w, s')) :
    w.isDeferred = false :=
  not_isDeferred_of_forceLayers (fun _ => rfl) (fun _ _ _ => rfl) h

/-- A store with the lazy stream of the element seven, all of which has been computed before. -/
def computedStore : Store where
  records := #[[(.text "", .text "Stream.Nil")],
    [(.text "head", .int 7), (.text "tail", .thunk ⟨0⟩), (.text "", .text "Stream.Cons")]]
  thunks := #[.resolved (.record ⟨0⟩), .resolved (.record ⟨1⟩)]

/-- The stream as the second rule for singletons first inspects it. -/
def streamInspection : Inspection where
  test := .fields "Stream.Cons"
    [("head", .bind "h"), ("tail", .strict (.named (.tag "Stream.Nil") "t"))]
  value := .record ⟨1⟩
  bindings := [("n", .int 3)]
  store := computedStore

/-- Its tail, before it is forced. -/
def tailInspection : Inspection where
  test := .strict (.named (.tag "Stream.Nil") "t")
  value := .thunk ⟨0⟩
  bindings := [("n", .int 3), ("h", .int 7)]
  store := computedStore

theorem opens_streamInspection {c : Compiled Value}
    (hc : Compiled.ofRules streams.resolver "singleton" singletonRules = .ok c) :
    (Function.ofCompiled "singleton" false c).Opens (Env.force {} 2) [.int 3, .thunk ⟨1⟩]
      computedStore ⟨1, 0, 1⟩ streamInspection := by
  cases hc
  exact ⟨[.int 3, .record ⟨1⟩], computedStore, rfl, .tail rfl (.head (.row (.tail rfl .head)))⟩

theorem reaches_tailInspection :
    streamInspection.Reaches (Env.force {} 2) [.field "tail"] tailInspection :=
  .tail .refl (.field (by decide +kernel) (.tail rfl rfl (.head rfl)))

/-- Whether a value is a field in demand: a path leads from an inspection of a pattern to a
structured form, all tags along it match, that of the form too, and the sub-pattern for the field
names a lazy constructor. -/
def FieldInDemand (force : Value → Run Value) (p : Pattern) (i : Inspection) (v : Value)
    (t : Store) : Prop :=
  ∃ path j token k fields ρ field q, i.Reaches force path j ∧ TagsMatch force p i path ∧
    p.at? path = some (.factory token k fields) ∧ j.value = .record ρ ∧
    j.store.hasTag j.value k.key = true ∧ (fieldPatterns k.fields fields).get? field = some q ∧
    q.NamesLazy ∧ t.field? ρ field = some v

/-- Only fields in demand are forced in place. -/
theorem fieldInDemand_of_strict {Forced : Value → Prop} {p : Pattern} {i : Inspection}
    {path : List Turn} {t : Test} {v : Value} {b : Bindings} {s : Store}
    (hi : p.Starts force Forced i) (h : i.Reaches force path ⟨.strict t, v, b, s⟩) :
    FieldInDemand force p i v s := by
  cases h with
  | refl => exact absurd hi.test.symm (p.test_ne_strict t)
  | @tail path turn j _ hj hjk =>
    obtain ⟨q, hq, hmet⟩ := met_of_reaches hi hj
    obtain ⟨field, rfl⟩ := hmet.turn_of_strict hjk
    obtain ⟨token, k, fields, ρ, sub, rfl, hvalue, htag, hsub, hnested, hv⟩ := hmet.asks_field hjk
    refine ⟨path, j, token, k, fields, ρ, field, sub, hj, tagsMatch_of_reaches hi hj, hq, hvalue,
      htag, hsub, Pattern.demands_iff_namesLazy.mp ?_, hv⟩
    -- A sub-pattern that does not demand is inspected by its own test, which does not force.
    by_contra hd
    rw [Pattern.nested_of_not_demands (by simpa using hd)] at hnested
    exact sub.test_ne_strict t hnested.symm

/-- Dispatch forces arguments in columns where some row names a lazy constructor, and fields in
demand that a row leads to from an argument, and it forces nothing else: its outcome does not depend
on what force does elsewhere. -/
theorem forcing_minimal (hc : Compiled.ofRules r.resolver name rules = .ok c) (lazy : Bool)
    (force : Value → Run Value) (args : List Value) (s : Store) :
    ∃ rows, patternRows r.resolver name rules = .ok rows ∧
      (∀ v t, (Function.ofCompiled name lazy c).ForceCall force args s v t →
        (∃ n : ℕ, args[n]? = some v ∧
          ∃ cells ∈ plainRows rows, ∃ p : Pattern, cells[n]? = some p ∧ p.NamesLazy) ∨
        ∃ site i p a, (Function.ofCompiled name lazy c).Opens force args s site i ∧
          patternAt rows site = some p ∧ args[site.column]? = some a ∧
          (i.value = a ∨ (Function.ofCompiled name lazy c).ForcesTo force args s a i.value) ∧
          FieldInDemand force p i v t) ∧
      ∀ force' : Value → Run Value,
        (∀ v t, (Function.ofCompiled name lazy c).ForceCall force args s v t →
          outcome (force' v) t = outcome (force v) t) →
        ∀ act, outcome ((Function.ofCompiled name lazy c).dispatch force' act args) s =
          outcome ((Function.ofCompiled name lazy c).dispatch force act args) s := by
  obtain ⟨rows, arity, h⟩ := Compiled.exists_of_ofRules hc
  refine ⟨rows, patternRows_eq_ok.mpr h.resolved, fun v t hcall => ?_,
    fun force' hagree act => dispatch_congr (hagree _ _) act⟩
  cases hcall with
  | plan hcall =>
    left
    rw [show (Function.ofCompiled name lazy c).plan = c.plan from rfl, h.plan_eq] at hcall
    obtain ⟨n, hn, hv⟩ := hcall.parameter
    rw [Nat.zero_add] at hv
    obtain ⟨_, cells, hcells, p, hp, hd⟩ := demandOf_eq_true_iff.mp hn
    exact ⟨n, getElem?_of_get?_argName hv, cells, hcells, p, hp,
      Pattern.demands_iff_namesLazy.mp hd⟩
  | strict hi hstrict =>
    obtain ⟨p, a, hp, ha, hvalue, hstarts⟩ := h.opens hi
    exact .inr ⟨_, _, p, a, hi, hp, ha, hvalue, fieldInDemand_of_strict hstarts hstrict⟩

/-- The tail is forced, being no argument, as a field in demand. -/
theorem forcing_minimal_tail :
    ∃ c rows, Compiled.ofRules streams.resolver "singleton" singletonRules = .ok c ∧
      patternRows streams.resolver "singleton" singletonRules = .ok rows ∧
      (Function.ofCompiled "singleton" false c).ForceCall (Env.force {} 2) [.int 3, .thunk ⟨1⟩]
        computedStore (.thunk ⟨0⟩) computedStore ∧
      ∃ site i p, patternAt rows site = some p ∧
        FieldInDemand (Env.force {} 2) p i (.thunk ⟨0⟩) computedStore := by
  obtain ⟨c, hc⟩ : ∃ c, Compiled.ofRules streams.resolver "singleton" singletonRules = .ok c :=
    ⟨_, rfl⟩
  have hcall : (Function.ofCompiled "singleton" false c).ForceCall (Env.force {} 2)
      [.int 3, .thunk ⟨1⟩] computedStore (.thunk ⟨0⟩) computedStore :=
    .strict (opens_streamInspection hc) reaches_tailInspection
  obtain ⟨rows, hrows, h, _⟩ :=
    forcing_minimal hc false (Env.force {} 2) [.int 3, .thunk ⟨1⟩] computedStore
  refine ⟨c, rows, hc, hrows, hcall, ?_⟩
  rcases h _ _ hcall with ⟨n, hn, _⟩ | ⟨site, i, p, _, _, hp, _, _, hfield⟩
  · rcases n with _ | _ | n <;> simp at hn
  · exact ⟨site, i, p, hp, hfield⟩

end Dispatch

end LazyMatch
