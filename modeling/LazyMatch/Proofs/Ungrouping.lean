import LazyMatch.Proofs.Appending
import LazyMatch.Proofs.LazyCall
import LazyMatch.Proofs.Refusal

/-!
# Groups are consecutive rules

The rows of a group share one action and are asked one after the other, exactly as if each were the
row of a rule of its own. Compiling a group asks for more than compiling its rows does, since these
have to agree on the names they bind; it asks for nothing less. The columns of the rows are the same
either way, and with them the plan.

* `Compiles.ofRules`: rules that go through all passes compile;
* `Compiles.ungrouped`: the rows of a group go through the passes as rules of their own;
* `select_ungrouped`: they are selected as the group is;
* `Function.Agrees`: functions that no call can tell apart (`Function.Agrees.observed_call`,
  `Function.Agrees.ends_forcedCall`);
* `group_eq_consecutive`: a group is the same as consecutive rules.
-/

namespace LazyMatch

variable {α : Type}

/-- Each of the rows as the row of a rule with the given action. -/
def Rule.each (rows : List Row) (action : α) : List (Rule α) :=
  rows.map fun row => ⟨.row row, action⟩

/-! ### Compiling -/

section Compile

variable {resolve : Resolver} {rules before after : List (Rule α)} {rows : List PatternRow}
  {arity : ℕ} {c : Compiled α}

/-- Rules that go through all passes compile. -/
theorem Compiles.ofRules (h : Compiles resolve rules rows arity c) (name : String) :
    Compiled.ofRules resolve name rules = .ok c := by
  obtain ⟨need, hneed⟩ := exists_columnDemand fun _ hcells => h.length_cells hcells
  obtain rfl := columnDemand_eq_ok hneed
  have hpasses : patternsAndDemand resolve name rules =
      .ok (rows, demandOf (plainRows rows) arity) := by
    simp only [patternsAndDemand, h.arity_eq, bind, Except.bind, requireWidth_eq_ok h.width,
      patternRows_eq_ok.mpr h.resolved, hneed]
    rfl
  rw [Compiled.ofRules, hpasses]
  simp only [located, bind, Except.bind, length_demandOf, h.plan]
  rw [← h.tests]
  rfl

theorem ruleWidth_of_rows_eq {rules' : List (Rule α)} (hne : rules ≠ []) (hne' : rules' ≠ [])
    (h : rules'.flatMap (·.row.rows) = rules.flatMap (·.row.rows)) :
    ruleWidth rules' = ruleWidth rules := by
  cases rules with
  | nil => exact absurd rfl hne
  | cons rule rules =>
    cases rules' with
    | nil => exact absurd rfl hne'
    | cons rule' rules' => rw [ruleWidth, ruleWidth, h] <;> simp

theorem flatMap_rows_each (plains : List Row) (action : α) :
    (Rule.each plains action).flatMap (·.row.rows) = plains := by
  induction plains with
  | nil => rfl
  | cons plain plains ih => simpa [Rule.each, RuleRow.rows] using ih

/-- Row by row, a group resolves to what its rows resolve to. -/
theorem forall₂_each {plains : List Row} {flat : List (List Pattern)} (action : α)
    (h : List.Forall₂ (fun plain cells => Pattern.ofPhrases resolve plain.cells = .ok cells)
      plains flat) :
    List.Forall₂ (fun rule row => PatternRow.ofRow resolve rule.row = .ok row)
      (Rule.each plains action) (flat.map PatternRow.row) := by
  induction h with
  | nil => exact .nil
  | cons hcells _ ih => exact .cons (map_eq_ok.mpr ⟨_, hcells, rfl⟩) ih

theorem plainRows_append (rows more : List PatternRow) :
    plainRows (rows ++ more) = plainRows rows ++ plainRows more := List.flatMap_append

theorem plainRows_map_row (flat : List (List Pattern)) :
    plainRows (flat.map PatternRow.row) = flat := by
  induction flat with
  | nil => rfl
  | cons cells flat ih =>
    rw [List.map_cons, ← List.singleton_append, plainRows_append, ih]
    rfl

/-- What a group of rules resolves to. -/
theorem exists_of_ofRow_group {stamp : ℕ} {first : Row} {rest : List Row} {row : PatternRow}
    (h : PatternRow.ofRow resolve (.group stamp first rest) = .ok row) :
    ∃ flat, row = .group flat := by
  simp only [PatternRow.ofRow, bind_eq_ok] at h
  obtain ⟨flat, _, _, _, h⟩ := h
  cases h
  exact ⟨flat, rfl⟩

/-- The tests of resolved rows, with the actions of their rules. -/
def testRows (rows : List PatternRow) (rules : List (Rule α)) : List (TestRow α) :=
  (rows.zip rules).map fun (row, rule) => ⟨row.test, rule.action⟩

theorem testRows_append {rules more : List (Rule α)} {rows rest : List PatternRow}
    (h : rows.length = rules.length) :
    testRows (rows ++ rest) (rules ++ more) = testRows rows rules ++ testRows rest more := by
  rw [testRows, List.zip_append h, List.map_append]
  rfl

theorem testRows_each {plains : List Row} {flat : List (List Pattern)} (action : α)
    (h : flat.length = plains.length) :
    testRows (flat.map PatternRow.row) (Rule.each plains action) =
      (flat.map (·.map Pattern.test)).map fun tests => ⟨.row tests, action⟩ := by
  induction flat generalizing plains with
  | nil => simp [testRows]
  | cons cells flat ih =>
    cases plains with
    | nil => cases h
    | cons plain plains =>
      have hrest := ih (Nat.succ.inj h)
      rw [List.map_cons, List.map_cons, List.map_cons, ← hrest]
      rfl

/-- **The rows of a group go through the passes as rules of their own.** -/
theorem Compiles.ungrouped {stamp : ℕ} {first : Row} {rest : List Row} {action : α}
    (h : Compiles resolve (before ++ ⟨.group stamp first rest, action⟩ :: after) rows arity c) :
    ∃ rows' front alternatives back,
      c.rows = front ++ ⟨.group alternatives, action⟩ :: back ∧
      Compiles resolve (before ++ Rule.each (first :: rest) action ++ after) rows' arity
        ⟨c.plan, front ++ alternatives.map (fun tests => ⟨.row tests, action⟩) ++ back⟩ := by
  obtain ⟨front, others, rfl, hfront, hothers⟩ := exists_append_of_forall₂ h.resolved
  obtain ⟨row, back, hgroup, hback, rfl⟩ := List.forall₂_cons_left_iff.mp hothers
  obtain ⟨flat, rfl⟩ := exists_of_ofRow_group hgroup
  have hflat := rows_of_ofRow hgroup
  have hlength : flat.length = (first :: rest).length := hflat.length_eq.symm
  refine ⟨front ++ flat.map PatternRow.row ++ back, testRows front before,
    flat.map (·.map Pattern.test), testRows back after, ?_, ?_, ?_, ?_, ?_, ?_⟩
  · exact h.tests.trans (testRows_append hfront.length_eq.symm)
  · rw [← h.arity_eq]
    refine ruleWidth_of_rows_eq (by simp) (by simp [Rule.each]) ?_
    rw [List.append_assoc, List.flatMap_append, List.flatMap_append, flatMap_rows_each,
      List.flatMap_append]
    rfl
  · intro rule hrule plain hplain
    rw [List.mem_append, List.mem_append] at hrule
    rcases hrule with (hrule | hrule) | hrule
    · exact h.width rule (List.mem_append_left _ hrule) plain hplain
    · obtain ⟨row, hrow, rfl⟩ := List.mem_map.mp hrule
      obtain rfl := List.mem_singleton.mp hplain
      exact h.width _ (List.mem_append_right _ List.mem_cons_self) plain hrow
    · exact h.width rule (List.mem_append_right _ (List.mem_cons_of_mem _ hrule)) plain hplain
  · exact List.rel_append (List.rel_append hfront (forall₂_each action hflat)) hback
  · have hplain : plainRows (front ++ flat.map PatternRow.row ++ back) =
        plainRows (front ++ .group flat :: back) := by
      rw [plainRows_append, plainRows_append, plainRows_map_row, plainRows_append,
        List.append_assoc]
      rfl
    rw [hplain]
    exact h.plan
  · have hfirst : (front ++ flat.map PatternRow.row).length =
        (before ++ Rule.each (first :: rest) action).length := by
      rw [List.length_append, List.length_append, hfront.length_eq, List.length_map, hlength,
        Rule.each, List.length_map]
    show testRows front before ++ _ ++ testRows back after = testRows _ _
    rw [testRows_append hfirst, testRows_append hfront.length_eq.symm, testRows_each action hlength]

end Compile

/-! ### Selecting -/

section Select

variable {force : Value → Run Value} {values : List Value}

/-- A row that is a group is asked as its rows are. -/
theorem select_group_cons (alternatives : List (List Test)) (action : α) (more : List (TestRow α)) :
    select force values (alternatives.map (fun tests => ⟨.row tests, action⟩) ++ more) =
      select force values (⟨.group alternatives, action⟩ :: more) := by
  induction alternatives with
  | nil => simp [select, RowTest.matches, matchGroup]
  | cons tests alternatives ih =>
    rw [List.map_cons, List.cons_append, select, select, ih]
    simp only [RowTest.matches, matchGroup, bind_assoc]
    refine bind_congr fun o => ?_
    cases o with
    | none => rw [select]; rfl
    | some b => simp

/-- **The rows of a group are selected as the group is.** -/
theorem select_ungrouped (front back : List (TestRow α)) (alternatives : List (List Test))
    (action : α) :
    select force values (front ++ alternatives.map (fun tests => ⟨.row tests, action⟩) ++ back) =
      select force values (front ++ ⟨.group alternatives, action⟩ :: back) := by
  rw [List.append_assoc, select_append, select_group_cons, ← select_append]

end Select

/-! ### Functions that no call can tell apart -/

section Call

variable {env : Env} {tell : Event → List Value} {s : Store} {p : FunctionRef} {args : List Value}

/-- A call of a function looks at the number of arguments and dispatches, now or later. -/
theorem outcome_observed_call_function (n : ℕ) :
    outcome (observed env tell (n + 1) (.call (.function p) args)) s =
      if args.length = (s.function p).arity then
        if (s.function p).lazy then
          (.ok (.thunk ⟨s.thunks.size⟩), s.withThunk (.dispatch p args))
        else outcome (observed env tell n (.dispatch p args)) s
      else (.error (.fault (.wrongArgumentCount (s.function p).name (s.function p).arity
        args.length)), s) := by
  rw [observed_quiet fun _ => rfl, step, call, outcome_get_bind]
  by_cases hargs : args.length = (s.function p).arity
  · cases hlazy : (s.function p).lazy <;> simp only [hargs, hlazy, if_true] <;> rfl
  · simp only [hargs, if_false]
    rfl

theorem Store.setCell_withThunk (s : Store) (c d : Computation) :
    (s.withThunk c).setCell ⟨s.thunks.size⟩ (.pending d) = s.withThunk d := by
  simp [Store.withThunk, Store.setCell, ← Array.toList_inj]

theorem outcome_observed_call_put_off (hlazy : (s.function p).lazy = true)
    (hargs : args.length = (s.function p).arity) (n : ℕ) :
    outcome (observed env tell (n + 1) (.call (.function p) args)) s =
      (.ok (.thunk ⟨s.thunks.size⟩), s.withThunk (.dispatch p args)) := by
  rw [outcome_observed_call_function, if_pos hargs, if_pos hlazy]

end Call

/-- Two functions of one name, plan and laziness that dispatch alike, however values are forced and
whatever is done with the action that is found and its bindings. -/
structure Function.Agrees (g f : Function) : Prop where
  name : g.name = f.name
  lazy : g.lazy = f.lazy
  plan : g.plan = f.plan
  dispatch : ∀ (force : Value → Run Value) (act : Handler → Bindings → Run Value)
    (args : List Value), g.dispatch force act args = f.dispatch force act args

namespace Function.Agrees

variable {g f : Function}

theorem symm (h : g.Agrees f) : f.Agrees g :=
  ⟨h.name.symm, h.lazy.symm, h.plan.symm, fun force act args => (h.dispatch force act args).symm⟩

theorem arity (h : g.Agrees f) : g.arity = f.arity := by rw [Function.arity, h.plan, Function.arity]

/-- Functions of one name whose rows are selected alike agree. -/
theorem of_select {name : String} {lazy : Bool} {c' c : Compiled Value} (hplan : c'.plan = c.plan)
    (h : ∀ (force : Value → Run Value) (values : List Value),
      select force values c'.rows = select force values c.rows) :
    (Function.ofCompiled name lazy c').Agrees (.ofCompiled name lazy c) := by
  refine ⟨rfl, rfl, hplan, fun force act args => ?_⟩
  rw [dispatch_ofCompiled, dispatch_ofCompiled, hplan]
  refine bind_congr fun values => ?_
  rw [matchRows, matchRows, h]

section Machine

variable {env : Env} {tell : Event → List Value} {s : Store} {p q : FunctionRef} {args : List Value}

theorem observed_dispatch (h : (s.function q).Agrees (s.function p)) (fuel : ℕ) :
    outcome (observed env tell fuel (.dispatch q args)) s =
      outcome (observed env tell fuel (.dispatch p args)) s := by
  cases fuel with
  | zero => rfl
  | succ n => rw [outcome_observed_dispatch, outcome_observed_dispatch, h.dispatch]

/-- A call comes to the same, for any number of arguments, unless it is put off. -/
theorem observed_call (h : (s.function q).Agrees (s.function p))
    (hnow : (s.function p).lazy = false ∨ args.length ≠ (s.function p).arity) (fuel : ℕ) :
    outcome (observed env tell fuel (.call (.function q) args)) s =
      outcome (observed env tell fuel (.call (.function p) args)) s := by
  cases fuel with
  | zero => rfl
  | succ n =>
    rw [outcome_observed_call_function, outcome_observed_call_function, h.arity, h.name, h.lazy,
      h.observed_dispatch]
    rcases hnow with hplain | hargs
    · simp only [hplain, Bool.false_eq_true, if_false]
    · rw [if_neg hargs, if_neg hargs]

/-- **To force the answers of calls that are put off comes to the same.** The stores that are left
differ in the state of the answer alone, where the one or the other dispatch is kept. -/
theorem ends_forcedCall (h : (s.function q).Agrees (s.function p))
    (hlazy : (s.function p).lazy = true) (hargs : args.length = (s.function p).arity)
    (hfresh : Unmentioned ⟨s.thunks.size⟩ env s args)
    (htell : ∀ d, tell (.computation ⟨s.thunks.size⟩ d) = []) {r : Except Stop Value} {s' : Store}
    (hends : Ends env tell (forcedCall p args) s r s') :
    ∃ d, Ends env tell (forcedCall q args) s r (s'.setCell ⟨s.thunks.size⟩ d) := by
  have hq : ∀ n, outcome (observed env tell (n + 1) (.call (.function q) args)) s =
      (.ok (.thunk ⟨s.thunks.size⟩), s.withThunk (.dispatch q args)) :=
    outcome_observed_call_put_off (h.lazy.trans hlazy) (hargs.trans h.arity.symm)
  have hp := hfresh.awaits p
  rw [ends_forcedCall_iff_of_outcome (outcome_observed_call_put_off hlazy hargs)] at hends
  have hcompute := hp.ends_compute_of_force htell hends
  have hmade : Made (· = ⟨s.thunks.size⟩) (Value.Avoids (· = ⟨s.thunks.size⟩)) fun again =>
      again (.dispatch p args) >>= fun w => again (.force [] w) :=
    .chain (.again hfresh.args) fun _ hw => .again hw
  -- What is dispatched is not aware of whose dispatch was put off.
  have hother := hmade.ends_setCell hp.env hp.store hp.lt hcompute (.pending (.dispatch q args))
  rw [Store.setCell_withThunk, Store.setCell_setCell] at hother
  have hagrees : ((s.withThunk (.dispatch q args)).function q).Agrees
    ((s.withThunk (.dispatch q args)).function p) := h
  have hdispatch : Ends env tell (fun again => again (.dispatch q args) >>= fun w =>
      again (.force [] w)) (s.withThunk (.dispatch q args)) r
        (s'.setCell ⟨s.thunks.size⟩ (.pending (.dispatch q args))) := by
    refine hother.imp_right fun ⟨n, hn⟩ => ⟨n, fun m hm => ?_⟩
    rw [← hn m hm]
    exact outcome_bind_congr (hagrees.observed_dispatch m) fun _ _ _ => rfl
  obtain ⟨d, hforce⟩ := (hfresh.awaits q).exists_ends_force htell hdispatch
  rw [Store.setCell_setCell] at hforce
  exact ⟨d, (ends_forcedCall_iff_of_outcome hq).mpr hforce⟩

end Machine

end Function.Agrees

/-! ### A group and consecutive rules -/

/-- **Groups are consecutive rules.** When rules compile, they still do with a group anywhere among
them replaced by its rows, each with the action of the group. The plan is the same and so is the
number of arguments. However values are forced and whatever is done with the action and its
bindings, the plain or lazy functions of both dispatch alike, with the same values forced in the
same order. So it is with the functions of both in any store, and all that an observer notes of the
actions and computations that are run: a call comes to the same when it dispatches or has the wrong
number of arguments; one that is put off does nothing but make a deferred value, and when that is
new, whoever forces it gets the same answer or error and leaves the same store, but for the state of
the deferred value itself, which may hold the one or the other dispatch. -/
theorem group_eq_consecutive {resolve : Resolver} {name : String} {before after : List (Rule Value)}
    {stamp : ℕ} {first : Row} {rest : List Row} {action : Value} {c : Compiled Value}
    (hc : Compiled.ofRules resolve name (before ++ ⟨.group stamp first rest, action⟩ :: after) =
      .ok c) :
    (∀ env fuel, observed env (fun _ => []) fuel = perform env fuel) ∧
    ∃ c', Compiled.ofRules resolve name (before ++ Rule.each (first :: rest) action ++ after) =
        .ok c' ∧
      c'.plan = c.plan ∧
      ∀ lazy, (Function.ofCompiled name lazy c').arity = (Function.ofCompiled name lazy c).arity ∧
        (Function.ofCompiled name lazy c').Agrees (.ofCompiled name lazy c) ∧
        ∀ (env : Env) (tell : Event → List Value) (s : Store) (p q : FunctionRef)
          (args : List Value),
          s.function p = .ofCompiled name lazy c → s.function q = .ofCompiled name lazy c' →
          (lazy = false ∨ args.length ≠ (Function.ofCompiled name lazy c).arity → ∀ fuel,
            outcome (observed env tell fuel (.call (.function q) args)) s =
              outcome (observed env tell fuel (.call (.function p) args)) s) ∧
          (lazy = true → args.length = (Function.ofCompiled name lazy c).arity →
            (∀ f ∈ [p, q], ∀ fuel,
              outcome (observed env tell (fuel + 1) (.call (.function f) args)) s =
                (.ok (.thunk ⟨s.thunks.size⟩), s.withThunk (.dispatch f args))) ∧
            (Unmentioned ⟨s.thunks.size⟩ env s args →
              (∀ d, tell (.computation ⟨s.thunks.size⟩ d) = []) → ∀ r s',
                (Ends env tell (forcedCall p args) s r s' →
                  ∃ d, Ends env tell (forcedCall q args) s r (s'.setCell ⟨s.thunks.size⟩ d)) ∧
                (Ends env tell (forcedCall q args) s r s' →
                  ∃ d, Ends env tell (forcedCall p args) s r
                    (s'.setCell ⟨s.thunks.size⟩ d)))) := by
  obtain ⟨rows, arity, hcompiles⟩ := Compiled.exists_of_ofRules hc
  obtain ⟨rows', front, alternatives, back, hrows, hcompiles'⟩ := hcompiles.ungrouped
  refine ⟨observed_silent, _, hcompiles'.ofRules name, rfl, fun lazy => ⟨rfl, ?_⟩⟩
  have hagrees : (Function.ofCompiled name lazy ⟨c.plan, front ++
      alternatives.map (fun tests => ⟨.row tests, action⟩) ++ back⟩).Agrees
        (.ofCompiled name lazy c) := by
    refine .of_select rfl fun force values => ?_
    rw [hrows]
    exact select_ungrouped front back alternatives action
  refine ⟨hagrees, fun env tell s p q args hp hq => ?_⟩
  rw [← hp, ← hq] at hagrees
  have hlazy : (s.function p).lazy = lazy := by rw [hp]; rfl
  rw [← hp]
  refine ⟨fun hnow => hagrees.observed_call (by rwa [hlazy]), fun hlater hargs => ⟨?_, ?_⟩⟩
  · have hput : ∀ f, (s.function f).lazy = true → args.length = (s.function f).arity → ∀ fuel,
        outcome (observed env tell (fuel + 1) (.call (.function f) args)) s =
          (.ok (.thunk ⟨s.thunks.size⟩), s.withThunk (.dispatch f args)) :=
      fun f => outcome_observed_call_put_off
    simp only [List.mem_cons, List.not_mem_nil, or_false, forall_eq_or_imp, forall_eq]
    exact ⟨hput p (hlazy.trans hlater) hargs,
      hput q (hagrees.lazy.trans (hlazy.trans hlater)) (hargs.trans hagrees.arity.symm)⟩
  · intro hfresh htell r s'
    exact ⟨hagrees.ends_forcedCall (hlazy.trans hlater) hargs hfresh htell,
      hagrees.symm.ends_forcedCall (hagrees.lazy.trans (hlazy.trans hlater))
        (hargs.trans hagrees.arity.symm) hfresh htell⟩

/-- The head of a stream or whatever else there is, in a group between two other rules. -/
theorem group_eq_consecutive_head :
    ∃ c c' : Compiled Value,
      Compiled.ofRules streams.resolver "head" ([⟨.row (.mk 1 [.name 2 "Nil"]), .int 0⟩] ++
        ⟨.group 3 (.mk 4 [.compound 5 ⟨105, "Cons"⟩ [.name 6 "x", .name 7 "_"]])
          [.mk 8 [.name 9 "x"]], .int 1⟩ :: [⟨.otherwise, .int 2⟩]) = .ok c ∧
      Compiled.ofRules streams.resolver "head" ([⟨.row (.mk 1 [.name 2 "Nil"]), .int 0⟩] ++
        Rule.each [.mk 4 [.compound 5 ⟨105, "Cons"⟩ [.name 6 "x", .name 7 "_"]],
          .mk 8 [.name 9 "x"]] (.int 1) ++ [⟨.otherwise, .int 2⟩]) = .ok c' ∧
      c'.plan = c.plan ∧
      (outcome ((Function.ofCompiled "head" false c').dispatch pure
        (fun _ b => pure ((b.get? "x").getD .null)) [.int 5]) {}).1.toOption = some (.int 5) := by
  obtain ⟨c, hc⟩ : ∃ c : Compiled Value, Compiled.ofRules streams.resolver "head"
      ([⟨.row (.mk 1 [.name 2 "Nil"]), .int 0⟩] ++
        ⟨.group 3 (.mk 4 [.compound 5 ⟨105, "Cons"⟩ [.name 6 "x", .name 7 "_"]])
          [.mk 8 [.name 9 "x"]], .int 1⟩ :: [⟨.otherwise, .int 2⟩]) = .ok c := ⟨_, rfl⟩
  obtain ⟨-, c', hc', hplan, hfunction⟩ := group_eq_consecutive hc
  refine ⟨c, c', hc, hc', hplan, ?_⟩
  rw [(hfunction false).2.1.dispatch]
  cases hc
  decide +kernel

end LazyMatch
