import LazyMatch.Proofs.Independence
import LazyMatch.Proofs.Mention
import LazyMatch.Proofs.Transparency

/-!
# Appending rules

Rules that are appended come last, so that they are asked last. But the arguments that they ask for
are forced before any rule is asked, and what an earlier rule sees may change with that: a literal,
or a strict constructor, does not match a deferred value and may well match what it comes to. What
appended rules do is exactly this, to have some of the arguments forced beforehand.

* `select_append`: the appended rows are asked when no other matches;
* `Compiles.choose_append_iff`: an earlier rule is selected exactly when it would be for the
  arguments with those in demand forced;
* `Steady`: forcing that has no effect besides finding values, as it is where everything has been
  computed (`steady_of_resolved`); `Settled`: what then has one outcome;
* `Compiles.choose_append_of_blind`: an earlier rule is selected all the same when nothing up to it
  asks where a deferred argument is forced anew;
* `appended_rules_select`: when the appended rules leave the selection of an earlier rule alone.
-/

namespace LazyMatch

/-! ### Selecting among more rows -/

section Select

variable {α : Type} {force : Value → Run Value} {values : List Value} {s s' : Store}

/-- Further rows are asked when none before them matches. -/
theorem select_append (rows more : List (TestRow α)) :
    select force values (rows ++ more) =
      select force values rows >>= fun
        | some found => pure (some found)
        | none => select force values more := by
  induction rows with
  | nil => simp [select]
  | cons row rows ih =>
    rw [List.cons_append, select, select, bind_assoc]
    refine bind_congr fun o => ?_
    cases o with
    | none => exact ih
    | some b => simp

theorem numbered_append (k : ℕ) (rows more : List (TestRow α)) :
    numbered k (rows ++ more) = numbered k rows ++ numbered (k + rows.length) more := by
  simp [numbered, List.zipIdx_append]

/-- A row is selected among more rows when it is selected among those up to it. -/
theorem select_numbered_append_iff {rows more : List (TestRow α)} {i : ℕ} (hi : i < rows.length)
    {b : Bindings} :
    outcome (select force values (numbered 0 (rows ++ more))) s = (.ok (some (i, b)), s') ↔
      outcome (select force values (numbered 0 rows)) s = (.ok (some (i, b)), s') := by
  rw [numbered_append, select_append]
  constructor
  · intro h
    obtain ⟨o, s₁, ho, h⟩ := outcome_bind_eq_ok h
    cases o with
    | some found =>
      cases h
      exact ho
    | none =>
      -- What is found among the further rows has a later position.
      obtain ⟨j, row, hj, -⟩ := select_of_numbered_some h
      omega
  · intro h
    rw [outcome_bind_ok h]
    rfl

end Select

/-! ### Rules that are appended -/

/-- Whether a plan forces the argument at a position. -/
def Plan.Forces (p : Plan) (k : ℕ) : Prop := ∃ e ∈ p.bindings, e.2 = argName k

theorem mem_bindingsFrom {need : List Bool} {k : ℕ} (h : need[k]? = some true) (n : ℕ) :
    (forcedName (n + k), argName (n + k)) ∈ bindingsFrom n need := by
  induction need generalizing n k with
  | nil => cases h
  | cons needed need ih =>
    rw [bindingsFrom_cons, List.mem_append]
    cases k with
    | zero =>
      obtain rfl : needed = true := by simpa using h
      exact .inl (by simp)
    | succ k =>
      have hrest := ih (by simpa using h) (n + 1)
      rw [Nat.add_assoc, Nat.add_comm 1 k] at hrest
      exact .inr hrest

theorem exists_append_of_forall₂ {β γ : Type} {R : β → γ → Prop} {as bs : List β} {cs : List γ}
    (h : List.Forall₂ R (as ++ bs) cs) :
    ∃ cs₁ cs₂, cs = cs₁ ++ cs₂ ∧ List.Forall₂ R as cs₁ ∧ List.Forall₂ R bs cs₂ := by
  induction as generalizing cs with
  | nil => exact ⟨[], cs, rfl, .nil, h⟩
  | cons a as ih =>
    obtain ⟨c, cs, hac, hrest, rfl⟩ := List.forall₂_cons_left_iff.mp h
    obtain ⟨cs₁, cs₂, rfl, h₁, h₂⟩ := ih hrest
    exact ⟨c :: cs₁, cs₂, rfl, .cons hac h₁, h₂⟩

/-- The columns that one plan forces and another does not. -/
def Plan.ForcesAnew (p' p : Plan) (k : ℕ) : Prop := p'.Forces k ∧ ¬p.Forces k

section Append

variable {resolve : Resolver} {rules more : List (Rule Value)} {rows rows' : List PatternRow}
  {arity : ℕ} {c c' : Compiled Value}

theorem exists_demandOf (flat : List (List Pattern)) {k : ℕ} (hlt : k < arity) :
    ∃ needed, (demandOf flat arity)[k]? = some needed :=
  ⟨_, List.getElem?_eq_getElem (by simpa using hlt)⟩

/-- The plan forces the columns in demand. -/
theorem Compiles.forces_iff (h : Compiles resolve rules rows arity c) {k : ℕ} :
    c.plan.Forces k ↔ (demandOf (plainRows rows) arity)[k]? = some true := by
  rw [h.plan_eq]
  constructor
  · rintro ⟨e, he, hname⟩
    obtain ⟨i, hi, rfl⟩ := exists_of_mem_bindingsFrom he
    rw [Nat.zero_add] at hname
    rwa [← argName_injective hname]
  · intro hk
    have hmem := mem_bindingsFrom hk 0
    rw [Nat.zero_add] at hmem
    exact ⟨_, hmem, rfl⟩

/-- The rows of rules come first among those of the rules with others appended. -/
theorem Compiles.exists_append (h : Compiles resolve rules rows arity c)
    (h' : Compiles resolve (rules ++ more) rows' arity c') :
    ∃ rest further, rows' = rows ++ rest ∧ c'.rows = c.rows ++ further := by
  obtain ⟨rows₁, rest, rfl, h₁, h₂⟩ := exists_append_of_forall₂ h'.resolved
  have hsame : rows₁ = rows :=
    Except.ok.inj ((mapM_eq_ok.mpr h₁).symm.trans (mapM_eq_ok.mpr h.resolved))
  subst hsame
  refine ⟨rest, (rest.zip more).map fun (row, rule) => ⟨row.test, rule.action⟩, rfl, ?_⟩
  rw [h'.tests, h.tests, List.zip_append h₁.length_eq.symm, List.map_append]

/-- What is in demand stays in demand. -/
theorem Compiles.forces_append (h : Compiles resolve rules rows arity c)
    (h' : Compiles resolve (rules ++ more) rows' arity c') {k : ℕ} (hk : c.plan.Forces k) :
    c'.plan.Forces k := by
  obtain ⟨rest, -, rfl, -⟩ := h.exists_append h'
  rw [h.forces_iff, demandOf_eq_true_iff] at hk
  obtain ⟨hlt, cells, hcells, hp⟩ := hk
  rw [h'.forces_iff, demandOf_eq_true_iff]
  refine ⟨hlt, cells, ?_, hp⟩
  rw [plainRows, List.flatMap_append]
  exact List.mem_append_left _ hcells

/-- Where the two demands differ, a column is forced anew. -/
theorem Compiles.forcesAnew_of_ne (h : Compiles resolve rules rows arity c)
    (h' : Compiles resolve (rules ++ more) rows' arity c') {k : ℕ}
    (hk : (demandOf (plainRows rows) arity)[k]? ≠ (demandOf (plainRows rows') arity)[k]?) :
    c'.plan.ForcesAnew c.plan k := by
  have hsub := fun hforces => h.forces_append h' (k := k) hforces
  rw [h.forces_iff, h'.forces_iff] at hsub
  rw [Plan.ForcesAnew, h.forces_iff, h'.forces_iff]
  have hlt : k < arity := by
    by_contra hge
    simp [hge] at hk
  obtain ⟨a, ha⟩ := exists_demandOf (plainRows rows) hlt
  obtain ⟨a', ha'⟩ := exists_demandOf (plainRows rows') hlt
  rw [ha, ha'] at hk hsub ⊢
  cases a <;> cases a' <;> simp_all

/-- Whether something that is not deferred is forced makes no difference. -/
theorem forceWhere_congr {force : Value → Run Value}
    (hplain : ∀ v, v.isDeferred = false → force v = pure v) {need need' : List Bool}
    (hlength : need.length = need'.length) {args : List Value}
    (h : ∀ (k : ℕ) v, need[k]? ≠ need'[k]? → args[k]? = some v → v.isDeferred = false) :
    forceWhere force need args = forceWhere force need' args := by
  induction need generalizing need' args with
  | nil =>
    obtain rfl := List.eq_nil_of_length_eq_zero hlength.symm
    rfl
  | cons needed need ih =>
    cases need' with
    | nil => cases hlength
    | cons needed' need' =>
      cases args with
      | nil => rfl
      | cons v args =>
        have hfirst :
            (if needed then force v else pure v) = if needed' then force v else pure v := by
          by_cases hneeded : needed = needed'
          · rw [hneeded]
          · have hv := hplain v (h 0 v (by simpa using hneeded) rfl)
            cases needed <;> cases needed' <;> simp [hv]
        rw [forceWhere_cons, forceWhere_cons, hfirst,
          ih (by simpa using hlength) fun k w hk => h (k + 1) w (by simpa using hk)]

theorem forceWhere_replicate_false (force : Value → Run Value) (args : List Value) :
    forceWhere force (List.replicate args.length false) args = pure args := by
  induction args with
  | nil => rfl
  | cons v args ih =>
    rw [List.length_cons, List.replicate_succ, forceWhere_cons, ih]
    simp

/-- **Appended rules have arguments forced beforehand, and that is all.** -/
theorem Compiles.choose_append_iff (h : Compiles resolve rules rows arity c)
    (h' : Compiles resolve (rules ++ more) rows' arity c') {force : Value → Run Value}
    (hplain : ∀ v, v.isDeferred = false → force v = pure v)
    (hforced : ∀ {v w : Value} {s s' : Store}, outcome (force v) s = (.ok w, s') →
      w.isDeferred = false)
    {args : List Value} (hargs : args.length = arity) {i : ℕ} (hi : i < rules.length)
    {b : Bindings} {s s' : Store} :
    outcome (c'.choose force args) s = (.ok (some (i, b)), s') ↔
      ∃ values s₁, outcome (c'.plan.run force args) s = (.ok values, s₁) ∧
        outcome (c.choose force values) s₁ = (.ok (some (i, b)), s') := by
  obtain ⟨rest, further, hrows, htests⟩ := h.exists_append h'
  have hlength : i < c.rows.length := by
    rw [h.tests, List.length_map, List.length_zip, ← h.resolved.length_eq, Nat.min_self]
    exact hi
  -- Once the plan has been run, running the plan of the earlier rules changes nothing.
  have hchoose : ∀ {values : List Value} {s₁ : Store},
      outcome (c'.plan.run force args) s = (.ok values, s₁) →
      c.choose force values = select force values (numbered 0 c.rows) := by
    intro values s₁ hplan
    rw [h'.run_plan force hargs] at hplan
    have hvalues : values.length = arity := by
      rw [length_of_forceWhere (by simpa using hargs.symm) hplan, hargs]
    have hrun : c.plan.run force values = pure values := by
      rw [h.run_plan force hvalues, ← forceWhere_replicate_false force values]
      refine forceWhere_congr hplain (by simp [hvalues]) fun k v hk hv => ?_
      have hlt : k < values.length := (List.getElem?_eq_some_iff.mp hv).1
      have hdemand : (demandOf (plainRows rows) arity)[k]? = some true := by
        obtain ⟨a, ha⟩ := exists_demandOf (plainRows rows) (hvalues ▸ hlt)
        rw [ha, List.getElem?_replicate_of_lt hlt] at hk
        cases a with
        | false => exact absurd rfl hk
        | true => exact ha
      have hdemand' := h'.forces_iff.mp (h.forces_append h' (h.forces_iff.mpr hdemand))
      obtain ⟨_, _, _, _, hforce⟩ := exists_force_of_forceWhere hdemand' hplan hv
      exact hforced hforce
    rw [Compiled.choose, hrun, pure_bind]
  constructor
  · intro hrun
    obtain ⟨values, s₁, hplan, hselect⟩ := outcome_bind_eq_ok hrun
    rw [htests, select_numbered_append_iff hlength] at hselect
    exact ⟨values, s₁, hplan, by rw [hchoose hplan, hselect]⟩
  · rintro ⟨values, s₁, hplan, hselect⟩
    rw [hchoose hplan] at hselect
    rw [Compiled.choose, outcome_bind_ok hplan, htests, select_numbered_append_iff hlength]
    exact hselect

/-- Nothing changes when no deferred argument is forced anew. -/
theorem Compiles.choose_append_of_not_isDeferred (h : Compiles resolve rules rows arity c)
    (h' : Compiles resolve (rules ++ more) rows' arity c') {force : Value → Run Value}
    (hplain : ∀ v, v.isDeferred = false → force v = pure v)
    {args : List Value} (hargs : args.length = arity)
    (hanew : ∀ k v, c'.plan.ForcesAnew c.plan k → args[k]? = some v → v.isDeferred = false)
    {i : ℕ} {b : Bindings} {s s' : Store}
    (hrun : outcome (c.choose force args) s = (.ok (some (i, b)), s')) :
    outcome (c'.choose force args) s = (.ok (some (i, b)), s') := by
  obtain ⟨rest, further, hrows, htests⟩ := h.exists_append h'
  have hplan : c'.plan.run force args = c.plan.run force args := by
    rw [h.run_plan force hargs, h'.run_plan force hargs]
    refine forceWhere_congr hplain (by simp) fun k v hk hv => hanew k v ?_ hv
    exact h.forcesAnew_of_ne h' (Ne.symm hk)
  obtain ⟨values, s₁, hvalues, hselect⟩ := outcome_bind_eq_ok hrun
  obtain ⟨j, row, hj, hrow, -⟩ := select_of_numbered_some hselect
  have hi : i < c.rows.length := by
    rw [hj, Nat.zero_add]
    exact (List.getElem?_eq_some_iff.mp hrow).1
  rw [Compiled.choose, hplan, outcome_bind_ok hvalues, htests, select_numbered_append_iff hi]
  exact hselect

end Append

/-! ### Forcing without other effects -/

/-- Forcing that has no effect besides finding values: in the stores of a class every value has its
answer, or its failure, whenever it is asked for, and the records stay as they are. -/
structure Steady (force : Value → Run Value) (I : Store → Prop)
    (answer : Value → Except Stop Value) : Prop where
  force : ∀ s v, I s → ∃ s', outcome (force v) s = (answer v, s') ∧ I s'
  records : ∀ s s', I s → I s' → s.records = s'.records

/-- Whether a computation has one outcome in all stores of a class, and stays in the class. -/
def Settled {α : Type} (I : Store → Prop) (x : Run α) : Prop :=
  ∃ r, ∀ s, I s → ∃ s', outcome x s = (r, s') ∧ I s'

section Settled

variable {α β : Type} {I : Store → Prop} {force : Value → Run Value}
  {answer : Value → Except Stop Value}

theorem Settled.ok (a : α) : Settled I (pure a) := ⟨.ok a, fun s hs => ⟨s, rfl, hs⟩⟩

theorem Settled.stop (e : Stop) : Settled (α := α) I (throw e) :=
  ⟨.error e, fun s hs => ⟨s, rfl, hs⟩⟩

theorem Settled.chain {x : Run α} {f : α → Run β} (hx : Settled I x) (hf : ∀ a, Settled I (f a)) :
    Settled I (x >>= f) := by
  obtain ⟨r, hr⟩ := hx
  cases r with
  | error e =>
    refine ⟨.error e, fun s hs => ?_⟩
    obtain ⟨s', hrun, hs'⟩ := hr s hs
    exact ⟨s', outcome_bind_error hrun f, hs'⟩
  | ok a =>
    obtain ⟨r', hr'⟩ := hf a
    refine ⟨r', fun s hs => ?_⟩
    obtain ⟨s₁, hrun, hs₁⟩ := hr s hs
    obtain ⟨s', hrun', hs'⟩ := hr' s₁ hs₁
    exact ⟨s', (outcome_bind_ok hrun f).trans hrun', hs'⟩

/-- What looks at the store for nothing but what all stores of the class have in common. -/
theorem Settled.look {f : Store → Run α} (s₀ : Store) (hsame : ∀ s, I s → f s = f s₀)
    (hf : Settled I (f s₀)) : Settled I (get >>= f) := by
  obtain ⟨r, hr⟩ := hf
  refine ⟨r, fun s hs => ?_⟩
  rw [outcome_get_bind, hsame s hs]
  exact hr s hs

/-- What happens in one store of the class happens in the others. -/
theorem Settled.exists_outcome {x : Run α} (h : Settled I x) {s s' t : Store} (hs : I s)
    (ht : I t) {r : Except Stop α} (hrun : outcome x s = (r, s')) :
    ∃ t', outcome x t = (r, t') := by
  obtain ⟨r', hr'⟩ := h
  obtain ⟨s'', hs'', -⟩ := hr' s hs
  obtain ⟨t', ht', -⟩ := hr' t ht
  cases hs''.symm.trans hrun
  exact ⟨t', ht'⟩

end Settled

section Steady

variable {I : Store → Prop} {force : Value → Run Value} {answer : Value → Except Stop Value}
  {s₀ : Store}

theorem Steady.settled_force (hforce : Steady force I answer) (v : Value) : Settled I (force v) :=
  ⟨answer v, fun s hs => hforce.force s v hs⟩

theorem Steady.field?_eq (hforce : Steady force I answer) (hs₀ : I s₀) {s : Store} (hs : I s) :
    s.field? = s₀.field? := by
  funext r name
  rw [Store.field?, Store.field?, Store.entries, Store.entries, hforce.records s s₀ hs hs₀]

theorem Steady.hasTag_eq (hforce : Steady force I answer) (hs₀ : I s₀) {s : Store} (hs : I s) :
    s.hasTag = s₀.hasTag := by
  have htag : s.tag = s₀.tag := by
    funext v
    cases v <;> simp only [Store.tag, hforce.field?_eq hs₀ hs]
  funext v key
  rw [Store.hasTag, Store.hasTag, htag]

mutual

theorem Steady.settled_matches (hforce : Steady force I answer) (hs₀ : I s₀) :
    ∀ (t : Test) (v : Value) (b : Bindings), Settled I (t.matches force v b)
  | .wild, v, b => .ok _
  | .bind name, v, b => .ok _
  | .equal w, v, b => by
    rw [Test.matches]
    refine .look s₀ (fun s hs => ?_) ?_
    · rw [Store.equal?_congr (hforce.records s s₀ hs hs₀)]
    · rcases s₀.equal? v w with _ | _ | _
      · exact .stop _
      · exact .ok _
      · exact .ok _
  | .tag key, v, b => by
    rw [Test.matches]
    refine .look s₀ (fun s hs => ?_) (.ok _)
    rw [hforce.hasTag_eq hs₀ hs]
  | .fields key subs, v, b => by
    rw [Test.matches]
    refine .look s₀ (fun s hs => ?_) ?_
    · rw [hforce.hasTag_eq hs₀ hs]
    · split
      · exact hforce.settled_matchFields hs₀ subs _ b
      · exact .ok _
  | .named inner name, v, b => by
    rw [Test.matches]
    exact (hforce.settled_matches hs₀ inner v b).chain fun _ => .ok _
  | .either options, v, b => hforce.settled_matchFirst hs₀ options v b
  | .strict inner, v, b => by
    rw [Test.matches]
    exact (hforce.settled_force v).chain fun w => hforce.settled_matches hs₀ inner w b

theorem Steady.settled_matchFields (hforce : Steady force I answer) (hs₀ : I s₀) :
    ∀ (subs : List (String × Test)) (r : RecordRef) (b : Bindings),
      Settled I (Test.matchFields force subs r b)
  | [], r, b => .ok _
  | (name, sub) :: rest, r, b => by
    rw [Test.matchFields]
    refine .look s₀ (fun s hs => ?_) ?_
    · rw [hforce.field?_eq hs₀ hs]
    · cases s₀.field? r name with
      | none => exact .stop _
      | some v =>
        refine (hforce.settled_matches hs₀ sub v b).chain fun o => ?_
        cases o with
        | none => exact .ok _
        | some b' => exact hforce.settled_matchFields hs₀ rest r b'

theorem Steady.settled_matchFirst (hforce : Steady force I answer) (hs₀ : I s₀) :
    ∀ (options : List Test) (v : Value) (b : Bindings),
      Settled I (Test.matchFirst force options v b)
  | [], v, b => .ok _
  | t :: rest, v, b => by
    rw [Test.matchFirst]
    refine (hforce.settled_matches hs₀ t v b).chain fun o => ?_
    cases o with
    | none => exact hforce.settled_matchFirst hs₀ rest v b
    | some b' => exact .ok _

end

variable (hforce : Steady force I answer) (hs₀ : I s₀)
include hforce hs₀

theorem Steady.settled_matchVector (tests : List Test) (values : List Value) (b : Bindings) :
    Settled I (matchVector force tests values b) := by
  induction tests generalizing values b with
  | nil => exact .ok _
  | cons t tests ih =>
    cases values with
    | nil => exact .ok _
    | cons v values =>
      rw [matchVector]
      refine (hforce.settled_matches hs₀ t v b).chain fun o => ?_
      cases o with
      | none => exact .ok _
      | some b' => exact ih values b'

theorem Steady.settled_matchGroup (values : List Value) (alternatives : List (List Test)) :
    Settled I (matchGroup force values alternatives) := by
  induction alternatives with
  | nil => exact .ok _
  | cons tests rest ih =>
    rw [matchGroup]
    refine (hforce.settled_matchVector hs₀ tests values []).chain fun o => ?_
    cases o with
    | none => exact ih
    | some b => exact .ok _

theorem Steady.settled_rowTest (values : List Value) (row : RowTest) :
    Settled I (row.matches force values) := by
  cases row with
  | row tests => exact hforce.settled_matchVector hs₀ tests values []
  | group alternatives => exact hforce.settled_matchGroup hs₀ values alternatives
  | otherwise => exact .ok _

/-- Which row is selected is the same in all stores of the class. -/
theorem Steady.settled_select {α : Type} (values : List Value) (rows : List (TestRow α)) :
    Settled I (select force values rows) := by
  induction rows with
  | nil => exact .ok _
  | cons row rows ih =>
    rw [select]
    refine (hforce.settled_rowTest hs₀ values row.test).chain fun o => ?_
    cases o with
    | none => exact ih
    | some b => exact .ok _

end Steady

/-- What a deferred value has been computed to. It is circular otherwise. -/
def Store.answer (s : Store) : Value → Except Stop Value
  | .thunk t =>
    match s.cell t with
    | .resolved v => .ok v
    | .running c | .pending c => .error (circularStop c)
  | v => .ok v

theorem Store.answer_of_not_isDeferred {v : Value} (h : v.isDeferred = false) (s : Store) :
    s.answer v = .ok v := by
  cases v with
  | thunk t => cases h
  | _ => rfl

/-- Forcing has no other effect where everything has been computed. -/
theorem steady_of_resolved {s : Store}
    (h : ∀ t : ThunkRef, t.index < s.thunks.size →
      ∃ v, s.cell t = .resolved v ∧ v.isDeferred = false) (env : Env) (fuel : ℕ) :
    Steady (env.force (fuel + 2)) (· = s) s.answer where
  force := by
    rintro s' v rfl
    refine ⟨s', ?_, rfl⟩
    cases hv : v.isDeferred with
    | false =>
      rw [Store.answer_of_not_isDeferred hv]
      exact outcome_force_of_not_isDeferred hv env _ s'
    | true =>
      obtain ⟨t, rfl⟩ := Value.eq_thunk_of_isDeferred hv
      rw [Env.force, perform, step, forceLayers, if_neg (by simp)]
      by_cases ht : t.index < s'.thunks.size
      · obtain ⟨w, hcell, hw⟩ := h t ht
        have hresolve : outcome (perform env (fuel + 1) (.resolve t)) s' = (.ok w, s') :=
          outcome_resolve_resolved hcell _
        rw [outcome_bind_ok hresolve, perform, step, forceLayers_of_not_isDeferred hw,
          Store.answer, hcell]
        rfl
      · have hcell := Store.cell_of_size_le (Nat.le_of_not_lt ht)
        have hresolve : outcome (perform env (fuel + 1) (.resolve t)) s' =
            (.error (circularStop (.constant ⟨0⟩)), s') := outcome_resolve_running hcell _
        rw [outcome_bind_error hresolve, Store.answer, hcell]
  records := by
    rintro s₁ s₂ rfl rfl
    rfl

/-! ### Rules that do not care -/

/-- Arguments with those that are forced replaced by their answers. -/
def answered (answer : Value → Except Stop Value) (need : List Bool) (args : List Value) :
    List Value :=
  need.zipWith (fun needed v => if needed then (answer v).toOption.getD v else v) args

section HasAnswers

variable {I : Store → Prop} {force : Value → Run Value} {answer : Value → Except Stop Value}
  {need : List Bool} {args : List Value} {s : Store}

/-- Whether the arguments that are forced have answers. -/
def HasAnswers (answer : Value → Except Stop Value) (need : List Bool) (args : List Value) : Prop :=
  ∀ (k : ℕ) (v : Value), need[k]? = some true → args[k]? = some v → ∃ w, answer v = .ok w

theorem Steady.forceWhere (hforce : Steady force I answer) (hs : I s)
    (hanswers : HasAnswers answer need args) :
    ∃ s', outcome (LazyMatch.forceWhere force need args) s = (.ok (answered answer need args), s') ∧
      I s' := by
  induction need generalizing args s with
  | nil => exact ⟨s, rfl, hs⟩
  | cons needed need ih =>
    cases args with
    | nil => exact ⟨s, rfl, hs⟩
    | cons v args =>
      have hfirst : ∃ s', outcome (if needed then force v else pure v) s =
          (.ok (if needed then (answer v).toOption.getD v else v), s') ∧ I s' := by
        cases needed with
        | false => exact ⟨s, rfl, hs⟩
        | true =>
          obtain ⟨w, hw⟩ := hanswers 0 v rfl rfl
          obtain ⟨s', hrun, hs'⟩ := hforce.force s v hs
          rw [hw] at hrun ⊢
          exact ⟨s', hrun, hs'⟩
      obtain ⟨s₁, hrun₁, hs₁⟩ := hfirst
      obtain ⟨s₂, hrun₂, hs₂⟩ := ih hs₁ fun k => hanswers (k + 1)
      refine ⟨s₂, ?_, hs₂⟩
      rw [forceWhere_cons, outcome_bind_ok hrun₁, outcome_bind_ok hrun₂]
      rfl

/-- The arguments have answers where they could be forced. -/
theorem Steady.answers_of_forceWhere (hforce : Steady force I answer) (hs : I s) {s' : Store}
    {values : List Value}
    (hrun : outcome (LazyMatch.forceWhere force need args) s = (.ok values, s')) :
    HasAnswers answer need args := by
  induction need generalizing args s s' values with
  | nil => exact fun k v hk _ => by cases hk
  | cons needed need ih =>
    cases args with
    | nil => exact fun k v _ hv => by cases hv
    | cons u args =>
      rw [forceWhere_cons] at hrun
      obtain ⟨w, s₁, hfirst, hrest⟩ := outcome_bind_eq_ok hrun
      obtain ⟨values', s₂, hothers, -⟩ := outcome_bind_eq_ok hrest
      cases needed with
      | false =>
        cases hfirst
        rintro (_ | k) v hk hv
        · cases hk
        · exact ih hs hothers k v hk hv
      | true =>
        obtain ⟨s₁', hforced, hs₁⟩ := hforce.force s u hs
        have hanswer : (answer u, s₁') = (.ok w, s₁) := hforced.symm.trans hfirst
        obtain ⟨hw, rfl⟩ := Prod.mk.inj hanswer
        rintro (_ | k) v hk hv
        · cases hv
          exact ⟨w, hw⟩
        · exact ih hs₁ hothers k v hk hv

end HasAnswers

section Blind

variable {r : Registry} {rules more : List (Rule Value)} {rows rows' : List PatternRow}
  {arity : ℕ} {c c' : Compiled Value}

/-- What the rows are handed differs only where an argument that is deferred is forced anew. -/
theorem Compiles.forcesAnew_of_answered_ne (h : Compiles r.resolver rules rows arity c)
    (h' : Compiles r.resolver (rules ++ more) rows' arity c') {answer : Value → Except Stop Value}
    (hplain : ∀ v : Value, v.isDeferred = false → answer v = .ok v) {args : List Value} {k : ℕ}
    (hk : (answered answer (demandOf (plainRows rows) arity) args)[k]? ≠
      (answered answer (demandOf (plainRows rows') arity) args)[k]?) :
    c'.plan.ForcesAnew c.plan k ∧ ∃ v, args[k]? = some v ∧ v.isDeferred = true := by
  rw [answered, answered, List.getElem?_zipWith, List.getElem?_zipWith] at hk
  refine ⟨h.forcesAnew_of_ne h' fun hsame => hk (by rw [hsame]), ?_⟩
  cases hv : args[k]? with
  | none => simp [hv] at hk
  | some v =>
    refine ⟨v, rfl, ?_⟩
    by_contra hdeferred
    have hanswer := hplain v (by simpa using hdeferred)
    have hlt : k < arity := by
      by_contra hge
      simp [hge] at hk
    obtain ⟨a, ha⟩ := exists_demandOf (plainRows rows) hlt
    obtain ⟨a', ha'⟩ := exists_demandOf (plainRows rows') hlt
    simp [ha, ha', hv, hanswer, Except.toOption] at hk

/-- Rules that ask nothing wherever a deferred argument is forced anew do not care that it is. -/
theorem Compiles.choose_append_of_blind (h : Compiles r.resolver rules rows arity c)
    (h' : Compiles r.resolver (rules ++ more) rows' arity c') {force : Value → Run Value}
    (hplain : ∀ v, v.isDeferred = false → force v = pure v) {I : Store → Prop}
    {answer : Value → Except Stop Value} (hforce : Steady force I answer) {args : List Value}
    (hargs : args.length = arity) {i : ℕ}
    (hblind : ∀ k v, c'.plan.ForcesAnew c.plan k → args[k]? = some v → v.isDeferred = true →
      (∃ w, answer v = .ok w) ∧
        ∀ j ≤ i, ∀ rule, rules[j]? = some rule → rule.row.isBlindAt r k = true)
    {s s' : Store} (hs : I s) {b : Bindings}
    (hrun : outcome (c.choose force args) s = (.ok (some (i, b)), s')) :
    ∃ b' t, outcome (c'.choose force args) s = (.ok (some (i, b')), t) ∧
      AgreeOff (fun name => ∃ k, c'.plan.ForcesAnew c.plan k ∧ columnNames rules k i name)
        b b' := by
  obtain ⟨rest, further, hrows, htests⟩ := h.exists_append h'
  have hanswer : ∀ v : Value, v.isDeferred = false → answer v = .ok v := by
    intro v hv
    obtain ⟨s₁, hrun, -⟩ := hforce.force s v hs
    rw [hplain v hv, outcome_pure] at hrun
    exact (congrArg Prod.fst hrun).symm
  rw [Compiled.choose, h.run_plan force hargs] at hrun
  have hanswers : HasAnswers answer (demandOf (plainRows rows) arity) args := by
    obtain ⟨values, s₁, hplan, -⟩ := outcome_bind_eq_ok hrun
    exact hforce.answers_of_forceWhere hs hplan
  have hanswers' : HasAnswers answer (demandOf (plainRows rows') arity) args := by
    intro k v hk hv
    by_cases hsame : (demandOf (plainRows rows) arity)[k]? = some true
    · exact hanswers k v hsame hv
    · cases hdeferred : v.isDeferred with
      | false => exact ⟨v, hanswer v hdeferred⟩
      | true => exact (hblind k v (h.forcesAnew_of_ne h' (hk ▸ hsame)) hv hdeferred).1
  -- Both plans can be run, and the rows are asked in stores of the class.
  obtain ⟨s₁, hplan, hs₁⟩ := hforce.forceWhere hs hanswers
  obtain ⟨t₁, hplan', ht₁⟩ := hforce.forceWhere hs hanswers'
  rw [outcome_bind_ok hplan] at hrun
  have hi : i < c.rows.length := by
    obtain ⟨j, row, rfl, hrow, -⟩ := select_of_numbered_some hrun
    rw [Nat.zero_add]
    exact (List.getElem?_eq_some_iff.mp hrow).1
  have hfirst : i < (c.rows.take (i + 1)).length := by
    rw [List.length_take]
    omega
  obtain ⟨t, hselect⟩ := (hforce.settled_select hs _ _).exists_outcome hs₁ ht₁ hrun
  rw [← List.take_append_drop (i + 1) c.rows, select_numbered_append_iff hfirst] at hselect
  -- Only the rows up to the selected one count, and these are indifferent.
  let anew : ℕ → String → Prop := fun j name =>
    ∃ k, c'.plan.ForcesAnew c.plan k ∧ columnNames rules k j name
  have halike : Alike (fun a a' => a.1 = a'.1 ∧ AgreeOff (anew a.1) a.2 a'.2)
      (outcome (select force (answered answer (demandOf (plainRows rows) arity) args)
        (numbered 0 (c.rows.take (i + 1)))) t₁)
      (outcome (select force (answered answer (demandOf (plainRows rows') arity) args)
        (numbered 0 (c.rows.take (i + 1)))) t₁) := by
    refine alike_select (by simp [answered]) (fun k hk j row hrow => ?_) t₁
    obtain ⟨hanew, v, hv, hdeferred⟩ := h.forcesAnew_of_answered_ne h' hanswer hk
    rw [List.getElem?_take] at hrow
    obtain ⟨hj, hrow⟩ : j < i + 1 ∧ c.rows[j]? = some row := by simpa using hrow
    intro tests htests t ht
    obtain ⟨htest, hnames⟩ :=
      h.blindAt_row ((hblind k v hanew hv hdeferred).2 j (by omega)) hrow tests htests t ht
    exact ⟨htest, fun name hname => ⟨k, hanew, by simpa using hnames name hname⟩⟩
  rcases hselect' : outcome (select force (answered answer (demandOf (plainRows rows') arity) args)
    (numbered 0 (c.rows.take (i + 1)))) t₁ with ⟨e | _ | ⟨i', b'⟩, t'⟩ <;>
    rw [hselect, hselect'] at halike <;> cases halike
  rename_i hrel
  obtain ⟨rfl, hagree⟩ := hrel
  refine ⟨b', t, ?_, hagree⟩
  rw [Compiled.choose, h'.run_plan force hargs, outcome_bind_ok hplan', htests,
    ← List.take_append_drop (i + 1) c.rows, List.append_assoc, select_numbered_append_iff hfirst]
  exact hselect'

end Blind

/-! ### When the selection of an earlier rule is left alone -/

theorem acceptRows_append {α : Type} {trees : List Tree} {rows : List (TestRow α)}
    {found : α × Table Tree} (h : acceptRows trees rows = some found) (more : List (TestRow α)) :
    acceptRows trees (rows ++ more) = some found := by
  induction rows with
  | nil => cases h
  | cons row rows ih =>
    rw [List.cons_append, acceptRows]
    rw [acceptRows] at h
    cases haccepts : row.test.accepts trees with
    | none =>
      rw [haccepts] at h
      exact ih h
    | some b =>
      rw [haccepts] at h
      exact h

theorem force_of_not_isDeferred (env : Env) (fuel : ℕ) (v : Value) (h : v.isDeferred = false) :
    env.force (fuel + 1) v = pure v :=
  outcome_ext fun s => outcome_force_of_not_isDeferred h env fuel s

/-- **What appended rules do to the selection of an earlier one.** The appended rules have further
arguments forced beforehand, and that is all: a rule is selected among all of them exactly when the
rules without the appended ones select it for the arguments that the longer plan leaves. So a rule
that was selected is still selected, with the same bindings, when no deferred argument is forced
anew; when forcing has no effect besides finding values and wherever a deferred argument is forced
anew, it has one and the rules up to this one ask nothing, but for what they bind there; and when
the arguments are constructor terms, with bindings that represent the same trees. -/
theorem appended_rules_select {r : Registry} {name : String} {rules more : List (Rule Value)}
    {c c' : Compiled Value} (hc : Compiled.ofRules r.resolver name rules = .ok c)
    (hc' : Compiled.ofRules r.resolver name (rules ++ more) = .ok c')
    (harity : (Function.ofCompiled name false c').arity = (Function.ofCompiled name false c).arity)
    {args : List Value} (hargs : args.length = (Function.ofCompiled name false c).arity)
    (env : Env) (fuel : ℕ) (s : Store) {i : ℕ} (hi : i < rules.length) :
    (∀ b s', Selects (env.force (fuel + 2)) name (rules ++ more) c' args s i b s' ↔
      ∃ values s₁, outcome (c'.plan.run (env.force (fuel + 2)) args) s = (.ok values, s₁) ∧
        Selects (env.force (fuel + 2)) name rules c values s₁ i b s') ∧
    ∀ b s', Selects (env.force (fuel + 2)) name rules c args s i b s' →
      ((∀ k v, c'.plan.ForcesAnew c.plan k → args[k]? = some v → v.isDeferred = false) →
        Selects (env.force (fuel + 2)) name (rules ++ more) c' args s i b s') ∧
      (∀ I answer, Steady (env.force (fuel + 2)) I answer → I s →
        (∀ k v, c'.plan.ForcesAnew c.plan k → args[k]? = some v → v.isDeferred = true →
          (∃ w, answer v = .ok w) ∧
            ∀ j ≤ i, ∀ rule, rules[j]? = some rule → rule.row.isBlindAt r k = true) →
        ∃ b' t, Selects (env.force (fuel + 2)) name (rules ++ more) c' args s i b' t ∧
          Table.names b = Table.names b' ∧
          ∀ bound, (∀ k, c'.plan.ForcesAnew c.plan k → ¬columnNames rules k i bound) →
            Table.get? b bound = Table.get? b' bound) ∧
      ∀ trees : List Tree, r.DistinctKeys → (∀ rule ∈ rules ++ more, rule.row.isGround = true) →
        (∀ tree ∈ trees, ∃ entries, tree = .record entries) →
        List.Forall₂ (fun tree v => tree.Represents r s v) trees args →
        ∃ b' t bound, Selects (env.force (fuel + 2)) name (rules ++ more) c' args s i b' t ∧
          Tree.RepresentsTable r s' bound b ∧ Tree.RepresentsTable r t bound b' := by
  obtain ⟨rows, arity, h⟩ := Compiled.exists_of_ofRules hc
  obtain ⟨rows', arity', h'⟩ := Compiled.exists_of_ofRules hc'
  have hargs' := hargs.trans harity.symm
  rw [h.arity_ofCompiled, h'.arity_ofCompiled] at harity
  subst harity
  have hlength := hargs
  rw [h.arity_ofCompiled] at hlength
  have hplain := force_of_not_isDeferred env (fuel + 1)
  refine ⟨fun b s' => ?_, fun b s' hselects => ⟨fun hanew => ?_,
    fun I answer hsteady hs hblind => ?_, fun trees hkeys hground hrecords hrep => ?_⟩⟩
  · have hiff : outcome (c'.choose (env.force (fuel + 2)) args) s = (.ok (some (i, b)), s') ↔ _ :=
      h.choose_append_iff h' hplain not_isDeferred_of_force hlength hi
    constructor
    · intro hselects
      obtain ⟨values, s₁, hplan, hchoose⟩ := hiff.mp hselects.choose
      exact ⟨values, s₁, hplan, h.selects name hchoose⟩
    · rintro ⟨values, s₁, hplan, hselects⟩
      exact h'.selects name (hiff.mpr ⟨values, s₁, hplan, hselects.choose⟩)
  · exact h'.selects name
      (h.choose_append_of_not_isDeferred h' hplain hlength hanew hselects.choose)
  · obtain ⟨b', t, hchoose, hagree⟩ :=
      h.choose_append_of_blind h' hplain hsteady hlength hblind hs hselects.choose
    refine ⟨b', t, h'.selects name hchoose, hagree.names_eq, fun bound hbound => hagree.get?_eq ?_⟩
    rintro ⟨k, hanew, hnames⟩
    exact hbound k hanew hnames
  · -- Both selections are read off the trees, where further rows are asked last.
    obtain ⟨rest, further, -, htests⟩ := h.exists_append h'
    have hground₁ : ∀ rule ∈ rules, rule.row.isGround = true :=
      fun rule hrule => hground rule (List.mem_append_left _ hrule)
    rcases selects_or_fails hkeys hc hground₁ (forces_force r env fuel) hrecords hrep hargs with
      ⟨j, bound, b₁, s₁, haccept, hselects₁, hbound⟩ | ⟨-, tags, s₁, hnone, -⟩
    · cases hselects.choose.symm.trans hselects₁.choose
      have haccept' : acceptRows trees (numbered 0 c'.rows) = some (i, bound) := by
        rw [htests, numbered_append]
        exact acceptRows_append haccept _
      rcases selects_or_fails hkeys hc' hground (forces_force r env fuel) hrecords hrep hargs' with
        ⟨j', bound', b', t, haccept'', hselects', hbound'⟩ | ⟨hnone, -⟩
      · cases haccept'.symm.trans haccept''
        exact ⟨b', t, bound, hselects', hbound, hbound'⟩
      · cases haccept'.symm.trans hnone
    · cases hselects.choose.symm.trans hnone

/-- The number five, or whatever else. -/
def fiveRules : List (Rule Value) :=
  [⟨.row (.mk 1 [.literal 2 (.int 5)]), .text "first"⟩,
    ⟨.row (.mk 3 [.name 4 "x"]), .text "second"⟩]

/-- The empty stream. -/
def emptyRules : List (Rule Value) := [⟨.row (.mk 5 [.name 6 "Nil"]), .text "third"⟩]

/-- A store with a deferred five that has been computed before. -/
def fiveStore : Store where
  thunks := #[.resolved (.int 5)]

theorem fiveStore_resolved (t : ThunkRef) (ht : t.index < fiveStore.thunks.size) :
    ∃ v, fiveStore.cell t = .resolved v ∧ v.isDeferred = false := by
  obtain ⟨n⟩ := t
  obtain rfl : n = 0 := by simpa [fiveStore] using ht
  exact ⟨.int 5, rfl, rfl⟩

/-- A deferred five is whatever else, until rules for streams are appended: then it is five. Rules
that begin with whatever else keep it, also for what they are handed in its place. -/
theorem appended_rules_select_five :
    ∃ c c' d d', Compiled.ofRules streams.resolver "five" fiveRules = .ok c ∧
      Compiled.ofRules streams.resolver "five" (fiveRules ++ emptyRules) = .ok c' ∧
      Compiled.ofRules streams.resolver "any" fiveRules.tail = .ok d ∧
      Compiled.ofRules streams.resolver "any" (fiveRules.tail ++ emptyRules) = .ok d' ∧
      (∃ b s', Selects (Env.force {} 2) "five" fiveRules c [.thunk ⟨0⟩] fiveStore 1 b s') ∧
      (¬∃ b s', Selects (Env.force {} 2) "five" (fiveRules ++ emptyRules) c' [.thunk ⟨0⟩] fiveStore
        1 b s') ∧
      ∃ b s' b' t, Selects (Env.force {} 2) "any" fiveRules.tail d [.thunk ⟨0⟩] fiveStore 0 b s' ∧
        Selects (Env.force {} 2) "any" (fiveRules.tail ++ emptyRules) d' [.thunk ⟨0⟩] fiveStore
          0 b' t ∧ Table.names b = Table.names b' := by
  obtain ⟨c, hc⟩ : ∃ c, Compiled.ofRules streams.resolver "five" fiveRules = .ok c := ⟨_, rfl⟩
  obtain ⟨c', hc'⟩ : ∃ c', Compiled.ofRules streams.resolver "five" (fiveRules ++ emptyRules) =
    .ok c' := ⟨_, rfl⟩
  obtain ⟨d, hd⟩ : ∃ d, Compiled.ofRules streams.resolver "any" fiveRules.tail = .ok d := ⟨_, rfl⟩
  obtain ⟨d', hd'⟩ : ∃ d', Compiled.ofRules streams.resolver "any" (fiveRules.tail ++ emptyRules) =
    .ok d' := ⟨_, rfl⟩
  obtain ⟨rows, arity, h⟩ := Compiled.exists_of_ofRules hc
  obtain ⟨rows', arity', h'⟩ := Compiled.exists_of_ofRules hd
  have hfive : Selects (Env.force {} 2) "five" fiveRules c [.thunk ⟨0⟩] fiveStore 1
      [("x", .thunk ⟨0⟩)] fiveStore := by
    refine h.selects "five" ?_
    cases hc
    rfl
  have hany : Selects (Env.force {} 2) "any" fiveRules.tail d [.thunk ⟨0⟩] fiveStore 0
      [("x", .thunk ⟨0⟩)] fiveStore := by
    refine h'.selects "any" ?_
    cases hd
    rfl
  have hlength : [Value.thunk ⟨0⟩].length = (Function.ofCompiled "five" false c).arity := by
    cases hc
    rfl
  have hlength' : [Value.thunk ⟨0⟩].length = (Function.ofCompiled "any" false d).arity := by
    cases hd
    rfl
  refine ⟨c, c', d, d', hc, hc', hd, hd', ⟨_, _, hfive⟩, ?_, ?_⟩
  · rintro ⟨b, s', hselects⟩
    have hexact := appended_rules_select hc hc' (by cases hc; cases hc'; rfl) hlength {} 0 fiveStore
      (i := 1) (by decide)
    obtain ⟨values, s₁, hplan, hforced⟩ := (hexact.1 b s').mp hselects
    have hchoose := hforced.choose
    cases hc
    cases hc'
    cases hplan
    cases hchoose
  · have hkept := appended_rules_select hd hd' (by cases hd; cases hd'; rfl) hlength' {} 0 fiveStore
      (i := 0) (by decide)
    have hblind : ∀ k v, d'.plan.ForcesAnew d.plan k → [Value.thunk ⟨0⟩][k]? = some v →
        v.isDeferred = true → (∃ w, fiveStore.answer v = .ok w) ∧
          ∀ j ≤ 0, ∀ rule, fiveRules.tail[j]? = some rule →
            rule.row.isBlindAt streams k = true := by
      intro k v _ hv _
      obtain rfl : k = 0 := by simpa using (List.getElem?_eq_some_iff.mp hv).1
      cases hv
      refine ⟨⟨.int 5, rfl⟩, fun j hj rule hrule => ?_⟩
      obtain rfl : j = 0 := Nat.le_zero.mp hj
      cases hrule
      rfl
    obtain ⟨b', t, hselects, hnames, -⟩ := (hkept.2 _ _ hany).2.1 _ _
      (steady_of_resolved fiveStore_resolved {} 0) rfl hblind
    exact ⟨_, _, b', t, hany, hselects, hnames⟩

end LazyMatch
