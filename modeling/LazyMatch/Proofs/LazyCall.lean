import LazyMatch.Proofs.Ending
import LazyMatch.Proofs.Reading
import LazyMatch.Proofs.Selection
import LazyMatch.Proofs.Term

/-!
# Lazy functions

A lazy function puts its whole dispatch off, and it forces what its actions answer unless they are
escaped. A plain function with the same rules, the escapes taken off, dispatches at once and leaves
what its actions answer as it is. Whoever forces the answer of either sees no difference: the same
actions and computations are run in the same order, and they come to the same.

* `Compiled.ofRules_unescaped`: compilation does not look into actions;
* `ends_handle_iff`: to force twice is to force once, so that escapes make no difference to whoever
  forces the answer;
* `ends_follow_congr`: dispatch goes the same way whatever is done with the action that is found;
* `lazy_function_agrees`: a lazy function and the plain one.
-/

namespace LazyMatch

variable {α β : Type}

/-! ### Escaped actions -/

/-- Whether an action is escaped. -/
def Value.isEscaped : Value → Bool
  | .phrase (.defer _ _) => true
  | _ => false

/-- An action without the escape around it, if there is one. -/
def Value.unescaped : Value → Value
  | .phrase (.defer _ content) => content
  | v => v

/-- A rule without the escape around its action, if there is one. -/
def Rule.unescaped (rule : Rule Value) : Rule Value := ⟨rule.row, rule.action.unescaped⟩

/-- Compiled rules without the escapes around their actions. -/
def Compiled.unescaped (c : Compiled Value) : Compiled Value :=
  ⟨c.plan, c.rows.map fun row => ⟨row.test, row.action.unescaped⟩⟩

/-- A lazy function forces what an action answers that is not escaped. -/
theorem Handler.ofAction_of_not_isEscaped {v : Value} (h : v.isEscaped = false) :
    Handler.ofAction true v = .forced v ∧ Handler.ofAction false v.unescaped = .adapted v := by
  cases v with
  | phrase p =>
    cases p with
    | defer => cases h
    | _ => exact ⟨rfl, rfl⟩
  | _ => exact ⟨rfl, rfl⟩

/-- A lazy function runs an escaped action as a plain one runs its content. -/
theorem Handler.ofAction_of_isEscaped {v : Value} (h : v.isEscaped = true) :
    Handler.ofAction true v = Handler.ofAction false v.unescaped := by
  cases v with
  | phrase p =>
    cases p with
    | defer => rfl
    | _ => cases h
  | _ => cases h

section Unescaped

variable (rules : List (Rule Value))

theorem ruleWidth_unescaped : ruleWidth (rules.map Rule.unescaped) = ruleWidth rules := by
  cases rules with
  | nil => rfl
  | cons rule rest =>
    simp only [ruleWidth, List.map_cons, List.flatMap_cons, List.flatMap_map]
    rfl

theorem requireWidth_unescaped (arity : Int) :
    requireWidth arity (rules.map Rule.unescaped) = requireWidth arity rules := by
  induction rules with
  | nil => rfl
  | cons rule rest ih =>
    rw [List.map_cons, requireWidth, requireWidth, ih]
    rfl

theorem patternRows_unescaped (resolve : Resolver) (name : String) :
    patternRows resolve name (rules.map Rule.unescaped) = patternRows resolve name rules := by
  induction rules with
  | nil => rfl
  | cons rule rest ih =>
    rw [List.map_cons, patternRows, patternRows, ih]
    rfl

end Unescaped

/-- Compilation does not look into actions. -/
theorem Compiled.ofRules_unescaped {resolve : Resolver} {name : String} {rules : List (Rule Value)}
    {c : Compiled Value} (h : Compiled.ofRules resolve name rules = .ok c) :
    Compiled.ofRules resolve name (rules.map Rule.unescaped) = .ok c.unescaped := by
  simp only [Compiled.ofRules, patternsAndDemand, ruleWidth_unescaped, requireWidth_unescaped,
    patternRows_unescaped, bind_eq_ok] at h ⊢
  obtain ⟨⟨rows, need⟩, hneed, plan, hplan, hc⟩ := h
  cases hc
  refine ⟨(rows, need), hneed, plan, hplan, ?_⟩
  simp only [Compiled.unescaped, List.zip_map_right, List.map_map]
  rfl

/-! ### Dispatch, whatever is done with what is found -/

section Rows

variable {force : Value → Run Value} {act : β → Bindings → Run Value}

/-- Rows with other actions are selected alike. -/
theorem matchRows_map (g : α → β) (name : String) (rows : List (TestRow α)) (values : List Value) :
    matchRows force act name (rows.map fun row => ⟨row.test, g row.action⟩) values =
      matchRows force (fun a b => act (g a) b) name rows values := by
  have hselect : select force values (rows.map fun row => ⟨row.test, g row.action⟩) =
      select force values rows >>= fun o => pure (o.map fun x => (g x.1, x.2)) := by
    induction rows with
    | nil => simp [select]
    | cons row rows ih =>
      rw [List.map_cons, select, select, bind_assoc]
      refine bind_congr fun o => ?_
      cases o with
      | none => exact ih
      | some b => simp
  rw [matchRows, matchRows, hselect, bind_assoc]
  refine bind_congr fun o => ?_
  cases o <;> rfl

/-- What follows dispatch follows the action. -/
theorem matchRows_bind (name : String) (rows : List (TestRow β)) (values : List Value)
    (k : Value → Run Value) :
    matchRows force act name rows values >>= k =
      matchRows force (fun a b => act a b >>= k) name rows values := by
  rw [matchRows, matchRows, bind_assoc]
  refine bind_congr fun o => ?_
  cases o with
  | none => exact outcome_ext fun s => rfl
  | some x => rfl

/-- Dispatch of compiled rules. -/
theorem Function.dispatch_ofCompiled (name : String) (lazy : Bool) (c : Compiled Value)
    (handler : Handler → Bindings → Run Value) (args : List Value) :
    (Function.ofCompiled name lazy c).dispatch force handler args =
      c.plan.run force args >>= fun values =>
        matchRows force (fun v b => handler (.ofAction lazy v) b) name c.rows values := by
  rw [Function.dispatch, Function.ofCompiled]
  exact bind_congr fun values => matchRows_map _ name c.rows values

end Rows

/-! ### Running actions and forcing what they answer -/

section Handle

variable {t : ThunkRef} {env : Env} {tell : Event → List Value} {s s' : Store}
  {r : Except Stop Value}

theorem ends_handle_forced_iff {v : Value} {b : Bindings} :
    Ends env tell (fun again => again (.handle (.forced v) b)) s r s' ↔
      Ends env tell (fun again => again (.handle (.adapted v) b) >>= fun w => again (.force [] w))
        s r s' := by
  refine ends_again_iff fun n => ?_
  rw [observed_quiet fun _ => rfl]
  rfl

/-- What running an action and forcing its answer comes to is not deferred. -/
theorem Ends.not_isDeferred_handle {v w : Value} {b : Bindings} (henv : env.Avoids (· = t))
    (hs : s.Avoids (· = t)) (ht : t.index < s.thunks.size) (hv : v.Avoids (· = t))
    (hb : Table.Avoid (· = t) b)
    (h : Ends env tell (fun again => again (.handle (.forced v) b)) s (.ok w) s') :
    w.isDeferred = false := by
  have hmade : Made (· = t) (Value.Avoids (· = t)) fun again => again (.handle (.adapted v) b) :=
    .again ⟨hv, hb⟩
  rw [ends_handle_forced_iff] at h
  rcases h.bind_cases (hmade.definite henv hs ht) with ⟨w₀, s₀, -, hforce⟩ | ⟨e, he, -⟩
  · exact hforce.not_isDeferred
  · cases he

/-- **To force twice is to force once.** A lazy function runs an action, escaped or not, so that to
force its answer is to force the answer of the action without the escape. -/
theorem ends_handle_iff {v : Value} {b : Bindings} (henv : env.Avoids (· = t))
    (hs : s.Avoids (· = t)) (ht : t.index < s.thunks.size) (hv : v.Avoids (· = t))
    (hb : Table.Avoid (· = t) b) :
    Ends env tell (fun again =>
        again (.handle (.ofAction true v) b) >>= fun w => again (.force [] w)) s r s' ↔
      Ends env tell (fun again => again (.handle (.ofAction false v.unescaped) b) >>=
        fun w => again (.force [] w)) s r s' := by
  cases hescaped : v.isEscaped with
  | true => rw [Handler.ofAction_of_isEscaped hescaped]
  | false =>
    -- The lazy function has forced the answer already, and forcing that again does nothing.
    obtain ⟨hlazy, hplain⟩ := Handler.ofAction_of_not_isEscaped hescaped
    rw [hlazy, hplain, ← ends_handle_forced_iff]
    have hmade : Made (· = t) (Value.Avoids (· = t)) fun again => again (.handle (.forced v) b) :=
      .again ⟨hv, hb⟩
    constructor
    · intro h
      rcases h.bind_cases (hmade.definite henv hs ht) with ⟨w, s₀, hw, hforce⟩ | ⟨e, rfl, he⟩
      · have hdone := hw.not_isDeferred_handle henv hs ht hv hb
        obtain ⟨rfl, rfl⟩ := hforce.unique (ends_force_of_not_isDeferred hdone [])
        exact hw
      · exact he
    · intro h
      cases r with
      | error e => exact h.bind_error
      | ok w =>
        have hdone := h.not_isDeferred_handle henv hs ht hv hb
        exact h.bind (f := fun w again => again (.force [] w))
          (ends_force_of_not_isDeferred hdone [])

end Handle

/-! ### Calls -/

section Calls

variable {t : ThunkRef} {env : Env} {tell : Event → List Value} {s s' : Store}
  {name : String} {c : Compiled Value} {args : List Value} {f : FunctionRef}
  {r : Except Stop Value}

/-- Dispatch of compiled rules that are handled in some way, and something done with the answer. -/
def Compiled.follow (name : String) (c : Compiled Value) (args : List Value)
    (handler : Value → Handler) (after : Evaluator → Value → Run Value) (again : Evaluator) :
    Run Value :=
  c.plan.run (fun v => again (.force [] v)) args >>= fun values =>
    matchRows (fun v => again (.force [] v))
      (fun v b => again (.handle (handler v) b) >>= after again) name c.rows values

/-- Call a function and force the answer. -/
def forcedCall (f : FunctionRef) (args : List Value) (again : Evaluator) : Run Value :=
  again (.call (.function f) args) >>= fun v => again (.force [] v)

theorem outcome_observed_dispatch (n : ℕ) :
    outcome (observed env tell (n + 1) (.dispatch f args)) s =
      outcome ((s.function f).dispatch (fun v => observed env tell n (.force [] v))
        (fun h b => observed env tell n (.handle h b)) args) s := by
  rw [observed_quiet fun _ => rfl, step, outcome_get_bind]

/-- Dispatch, and something done with the answer. -/
theorem ends_dispatch_iff {lazy : Bool} (hf : s.function f = .ofCompiled name lazy c)
    {after : Evaluator → Value → Run Value}
    (hdefinite : Definite env tell (fun again => again (.dispatch f args)) s) :
    Ends env tell (fun again => again (.dispatch f args) >>= after again) s r s' ↔
      Ends env tell (c.follow name args (.ofAction lazy) after) s r s' := by
  have hstep : ∀ n, outcome (observed env tell (n + 1) (.dispatch f args)) s =
      outcome (c.follow name args (.ofAction lazy) (fun _ => pure) (observed env tell n)) s := by
    intro n
    rw [outcome_observed_dispatch, hf, Function.dispatch_ofCompiled, Compiled.follow]
    simp only [bind_pure]
  have hfollow : c.follow name args (.ofAction lazy) after = fun again =>
      c.follow name args (.ofAction lazy) (fun _ => pure) again >>= after again := by
    funext again
    simp only [Compiled.follow, bind_assoc, bind_pure, matchRows_bind]
  rw [hfollow]
  exact Ends.bind_congr_first hdefinite (.of_again hstep hdefinite) fun _ _ => ends_again_iff hstep

theorem Value.mentions_unescaped (v : Value) : v.unescaped.mentions = v.mentions := by
  cases v with
  | phrase p => cases p <;> rfl
  | _ => rfl

/-- How an action is run makes no difference to what it mentions. -/
theorem Handler.mentions_ofAction (lazy : Bool) (v : Value) :
    (Handler.ofAction lazy v).action.mentions = v.mentions := by
  have hplain : ∀ w, Handler.ofAction false w = .adapted w := fun w => by cases w <;> rfl
  cases lazy with
  | false => rw [hplain, Handler.action]
  | true =>
    cases hescaped : v.isEscaped with
    | false => rw [(Handler.ofAction_of_not_isEscaped hescaped).1, Handler.action]
    | true =>
      rw [Handler.ofAction_of_isEscaped hescaped, hplain, Handler.action, Value.mentions_unescaped]

theorem Function.avoids_ofCompiled_iff {hidden : ThunkRef → Prop} {lazy : Bool} :
    (Function.ofCompiled name lazy c).Avoids hidden ↔ ∀ row ∈ c.rows, row.action.Avoids hidden := by
  simp only [Function.Avoids, Function.ofCompiled, List.forall_mem_map, Value.Avoids,
    Handler.mentions_ofAction]

/-- What is done with an answer counts only by what it comes to. -/
theorem ends_follow_congr (henv : env.Avoids (· = t)) (hs : s.Avoids (· = t))
    (ht : t.index < s.thunks.size) (hargs : ∀ v ∈ args, v.Avoids (· = t))
    (hrows : ∀ row ∈ c.rows, row.action.Avoids (· = t)) {handler handler' : Value → Handler}
    {after after' : Evaluator → Value → Run Value}
    (h : ∀ (v : Value) (b : Bindings) (s₁ : Store), s₁.Avoids (· = t) →
      t.index < s₁.thunks.size → v.Avoids (· = t) → Table.Avoid (· = t) b →
      (Ends env tell (fun again => again (.handle (handler v) b) >>= after again) s₁ r s' ↔
        Ends env tell (fun again => again (.handle (handler' v) b) >>= after' again) s₁ r s')) :
    Ends env tell (c.follow name args handler after) s r s' ↔
      Ends env tell (c.follow name args handler' after') s r s' := by
  have hplan := made_runPlan madeForce_again c.plan hargs
  refine Ends.bind_congr (hplan.definite henv hs ht) fun values s₁ hvalues => ?_
  obtain ⟨hkept, havoid⟩ := hplan.kept henv hs ht hvalues
  have hselect := made_select madeForce_again (havoid values rfl) c.rows hrows
  refine Ends.bind_congr (hselect.definite henv hkept.avoids (hkept.lt ht)) fun o s₂ ho => ?_
  obtain ⟨hkept₂, hfound⟩ := hselect.kept henv hkept.avoids (hkept.lt ht) ho
  cases o with
  | none => exact Iff.rfl
  | some x =>
    obtain ⟨hx, hb⟩ := hfound _ rfl x rfl
    exact h x.1 x.2 s₂ hkept₂.avoids (hkept₂.lt (hkept.lt ht)) hx hb

theorem Compiled.follow_unescaped (after : Evaluator → Value → Run Value) :
    c.unescaped.follow name args (.ofAction false) after =
      c.follow name args (fun v => .ofAction false v.unescaped) after := by
  funext again
  simp only [Compiled.follow, Compiled.unescaped, matchRows_map]

/-- A plain function dispatches when it is called. -/
theorem outcome_observed_call (hf : s.function f = .ofCompiled name false c)
    (hargs : args.length = (Function.ofCompiled name false c).arity) (n : ℕ) :
    outcome (observed env tell (n + 1) (.call (.function f) args)) s =
      outcome (observed env tell n (.dispatch f args)) s := by
  rw [observed_quiet fun _ => rfl, step, call, outcome_get_bind, hf, if_pos hargs]
  rfl

/-- A lazy function puts dispatch off when it is called. -/
theorem outcome_observed_call_lazy (hf : s.function f = .ofCompiled name true c)
    (hargs : args.length = (Function.ofCompiled name true c).arity) (n : ℕ) :
    outcome (observed env tell (n + 1) (.call (.function f) args)) s =
      (.ok (.thunk ⟨s.thunks.size⟩), s.withThunk (.dispatch f args)) := by
  rw [observed_quiet fun _ => rfl, step, call, outcome_get_bind, hf, if_pos hargs]
  rfl

end Calls

section Answer

variable {env : Env} {tell : Event → List Value} {s s' s₁ : Store} {f : FunctionRef}
  {args : List Value} {v : Value} {r : Except Stop Value}
  (hcall : ∀ n, outcome (observed env tell (n + 1) (.call (.function f) args)) s = (.ok v, s₁))

include hcall

/-- A call that answers at once ends with the answer. -/
theorem ends_call_of_outcome :
    Ends env tell (fun again => again (.call (.function f) args)) s (.ok v) s₁ := by
  refine ⟨by simp, 1, fun m hm => ?_⟩
  obtain ⟨n, rfl⟩ : ∃ n, m = n + 1 := ⟨m - 1, by omega⟩
  exact hcall n

theorem definite_call_of_outcome :
    Definite env tell (fun again => again (.call (.function f) args)) s := by
  intro n r s' hrun hr
  cases n with
  | zero =>
    cases hrun
    exact absurd rfl hr
  | succ n =>
    cases (hcall n).symm.trans hrun
    exact ends_call_of_outcome hcall

/-- To call and force is then to force the answer. -/
theorem ends_forcedCall_iff_of_outcome :
    Ends env tell (forcedCall f args) s r s' ↔
      Ends env tell (fun again => again (.force [] v)) s₁ r s' := by
  have hends := ends_call_of_outcome hcall
  constructor
  · intro h
    rcases h.bind_cases (definite_call_of_outcome hcall) with ⟨w, s₂, hw, hforce⟩ | ⟨e, rfl, hw⟩
    · cases (hw.unique hends).1
      cases (hw.unique hends).2
      exact hforce
    · cases (hw.unique hends).1
  · intro h
    exact hends.bind (f := fun w again => again (.force [] w)) h

end Answer

/-! ### Lazy and plain functions -/

/-- Nothing that a call has to do with mentions a deferred value. -/
structure Unmentioned (t : ThunkRef) (env : Env) (s : Store) (args : List Value) : Prop where
  env : env.Avoids (· = t)
  store : s.Avoids (· = t)
  args : ∀ v ∈ args, v.Avoids (· = t)

/-- A dispatch that is put off awaits as a value that nothing mentions yet. -/
theorem Unmentioned.awaits {env : Env} {s : Store} {args : List Value}
    (h : Unmentioned ⟨s.thunks.size⟩ env s args) (f : FunctionRef) :
    Awaits env ⟨s.thunks.size⟩ (.dispatch f args) (s.withThunk (.dispatch f args)) where
  env := h.env
  store := h.store.pushThunk h.args
  computation := h.args
  cell := s.cell_withThunk _

/-- A call of a lazy function, its answer that nothing mentions yet, and the plain function. -/
structure PutOff (name : String) (c : Compiled Value) (env : Env) (s : Store) (args : List Value)
    (l p : FunctionRef) : Prop where
  lazy : s.function l = .ofCompiled name true c
  plain : s.function p = .ofCompiled name false c.unescaped
  length : args.length = (Function.ofCompiled name true c).arity
  fresh : Unmentioned ⟨s.thunks.size⟩ env s args

section PutOff

variable {name : String} {c : Compiled Value} {env : Env} {s s' : Store} {args : List Value}
  {l p : FunctionRef} {tell : Event → List Value} {r : Except Stop Value}

theorem PutOff.awaits (h : PutOff name c env s args l p) :
    Awaits env ⟨s.thunks.size⟩ (.dispatch l args) (s.withThunk (.dispatch l args)) :=
  h.fresh.awaits l

theorem PutOff.definite_dispatch (h : PutOff name c env s args l p) (f : FunctionRef) :
    Definite env tell (fun again => again (.dispatch f args)) (s.withThunk (.dispatch l args)) := by
  have hmade : Made (· = ⟨s.thunks.size⟩) (Value.Avoids (· = ⟨s.thunks.size⟩)) fun again =>
      again (.dispatch f args) := .again h.fresh.args
  exact hmade.definite h.awaits.env h.awaits.store h.awaits.lt

theorem PutOff.made_plain (h : PutOff name c env s args l p) :
    Made (· = ⟨s.thunks.size⟩) (Value.Avoids (· = ⟨s.thunks.size⟩)) (forcedCall p args) :=
  .chain (.again ⟨Value.avoids_of_mentions_nil rfl, h.fresh.args⟩) fun _ hw => .again hw

theorem PutOff.definite_plain (h : PutOff name c env s args l p) :
    Definite env tell (forcedCall p args) (s.withThunk (.dispatch l args)) :=
  h.made_plain.definite h.awaits.env h.awaits.store h.awaits.lt

/-- The plain function need not be called beside the deferred value, if it defers nothing. -/
theorem PutOff.ends_plain_without (h : PutOff name c env s args l p)
    (hs' : s'.thunks.size = s.thunks.size)
    (hends : Ends env tell (forcedCall p args) (s.withThunk (.dispatch l args)) r
      (s'.withDeferred (.pending (.dispatch l args)))) :
    Ends env tell (forcedCall p args) s r s' :=
  h.made_plain.ends_without h.awaits.env rfl hs' h.awaits.store hends

/-- To force what the lazy function computes is to force what the plain one answers. -/
theorem PutOff.ends_dispatch_iff (h : PutOff name c env s args l p) :
    Ends env tell (fun again => again (.dispatch l args) >>= fun w => again (.force [] w))
        (s.withThunk (.dispatch l args)) r s' ↔
      Ends env tell (forcedCall p args) (s.withThunk (.dispatch l args)) r s' := by
  have hawaits := h.awaits
  have hrows : ∀ row ∈ c.rows, row.action.Avoids (· = ⟨s.thunks.size⟩) :=
    Function.avoids_ofCompiled_iff.mp (h.lazy ▸ h.fresh.store.function l)
  have hlazy : (s.withThunk (.dispatch l args)).function l = .ofCompiled name true c := h.lazy
  have hplain : (s.withThunk (.dispatch l args)).function p =
    .ofCompiled name false c.unescaped := h.plain
  have hcall : ∀ n, outcome (observed env tell (n + 1) (.call (.function p) args))
      (s.withThunk (.dispatch l args)) = outcome (observed env tell n (.dispatch p args))
        (s.withThunk (.dispatch l args)) := outcome_observed_call hplain h.length
  calc Ends env tell (fun again => again (.dispatch l args) >>= fun w => again (.force [] w))
        (s.withThunk (.dispatch l args)) r s'
    _ ↔ Ends env tell (c.follow name args (.ofAction true) fun again w => again (.force [] w))
        (s.withThunk (.dispatch l args)) r s' :=
      LazyMatch.ends_dispatch_iff hlazy (h.definite_dispatch l)
    _ ↔ Ends env tell (c.follow name args (fun v => .ofAction false v.unescaped)
        fun again w => again (.force [] w)) (s.withThunk (.dispatch l args)) r s' :=
      ends_follow_congr hawaits.env hawaits.store hawaits.lt h.fresh.args hrows
        fun v b s₁ hs₁ ht₁ hv hb => ends_handle_iff hawaits.env hs₁ ht₁ hv hb
    _ ↔ Ends env tell (fun again => again (.dispatch p args) >>= fun w => again (.force [] w))
        (s.withThunk (.dispatch l args)) r s' := by
      rw [← Compiled.follow_unescaped]
      exact (LazyMatch.ends_dispatch_iff hplain (h.definite_dispatch p)).symm
    _ ↔ Ends env tell (forcedCall p args) (s.withThunk (.dispatch l args)) r s' :=
      (Ends.bind_congr_first (.again hcall (h.definite_dispatch p)) (h.definite_dispatch p)
        fun _ _ => ends_again_iff hcall).symm

theorem PutOff.outcome_call (h : PutOff name c env s args l p) (n : ℕ) :
    outcome (observed env tell (n + 1) (.call (.function l) args)) s =
      (.ok (.thunk ⟨s.thunks.size⟩), s.withThunk (.dispatch l args)) :=
  outcome_observed_call_lazy h.lazy h.length n

/-- To force the answer of the lazy function is to force the deferred value that it is. -/
theorem PutOff.ends_forcedCall_iff (h : PutOff name c env s args l p) :
    Ends env tell (forcedCall l args) s r s' ↔
      Ends env tell (fun again => again (.force [] (.thunk ⟨s.thunks.size⟩)))
        (s.withThunk (.dispatch l args)) r s' :=
  ends_forcedCall_iff_of_outcome h.outcome_call

theorem PutOff.definite_lazy (h : PutOff name c env s args l p)
    (htell : ∀ d, tell (.computation ⟨s.thunks.size⟩ d) = []) :
    Definite env tell (forcedCall l args) s := by
  refine .bind (definite_call_of_outcome h.outcome_call) fun w s₁ hcall => ?_
  have hends : Ends env tell (fun again => again (.call (.function l) args)) s _ _ :=
    ends_call_of_outcome h.outcome_call
  cases (hcall.unique hends).1
  cases (hcall.unique hends).2
  exact h.awaits.definite_force htell

/-- The action that is not escaped has its answer forced when it is run. -/
theorem PutOff.not_isDeferred_of_dispatch (h : PutOff name c env s args l p) {n : ℕ}
    {values : List Value} {s₁ s₂ : Store} {v w : Value} {b : Bindings}
    (hplan : outcome (c.plan.run (fun v => observed env tell n (.force [] v)) args)
      (s.withThunk (.dispatch l args)) = (.ok values, s₁))
    (hselect : outcome (select (fun v => observed env tell n (.force [] v)) values c.rows) s₁ =
      (.ok (some (v, b)), s₂))
    (hv : v.isEscaped = false)
    (hends : Ends env tell (fun again => again (.dispatch l args)) (s.withThunk (.dispatch l args))
      (.ok w) s') :
    w.isDeferred = false := by
  have hawaits := h.awaits
  have hlazy : (s.withThunk (.dispatch l args)).function l = .ofCompiled name true c := h.lazy
  have hrows : ∀ row ∈ c.rows, row.action.Avoids (· = ⟨s.thunks.size⟩) :=
    Function.avoids_ofCompiled_iff.mp (h.lazy ▸ h.fresh.store.function l)
  have hmade := made_runPlan madeForce_again c.plan h.fresh.args
  have hplan' : Ends env tell (fun again => c.plan.run (fun v => again (.force [] v)) args)
      (s.withThunk (.dispatch l args)) (.ok values) s₁ :=
    hmade.definite hawaits.env hawaits.store hawaits.lt n _ _ hplan (by simp)
  obtain ⟨hkept, havoids⟩ := hmade.kept hawaits.env hawaits.store hawaits.lt hplan'
  have hmade₁ := made_select madeForce_again (havoids values rfl) c.rows hrows
  have hselect' : Ends env tell (fun again => select (fun v => again (.force [] v)) values c.rows)
      s₁ (.ok (some (v, b))) s₂ :=
    hmade₁.definite hawaits.env hkept.avoids (hkept.lt hawaits.lt) n _ _ hselect (by simp)
  obtain ⟨hkept₁, hfound⟩ := hmade₁.kept hawaits.env hkept.avoids (hkept.lt hawaits.lt) hselect'
  obtain ⟨hvavoids, hb⟩ := hfound _ rfl (v, b) rfl
  -- What is dispatched is what was found: there is one end to each link.
  have hfollow : Ends env tell (c.follow name args (.ofAction true) fun _ => pure)
      (s.withThunk (.dispatch l args)) (.ok w) s' := by
    rw [← LazyMatch.ends_dispatch_iff hlazy (h.definite_dispatch l)]
    simpa only [bind_pure] using hends
  rcases hfollow.bind_cases (hmade.definite hawaits.env hawaits.store hawaits.lt) with
    ⟨values', s₁', hplan'', hrest⟩ | ⟨e, he, -⟩
  · cases (hplan''.unique hplan').1
    cases (hplan''.unique hplan').2
    rcases hrest.bind_cases (hmade₁.definite hawaits.env hkept.avoids (hkept.lt hawaits.lt)) with
      ⟨o, s₂', hselect'', hhandle⟩ | ⟨e, he, -⟩
    · cases (hselect''.unique hselect').1
      cases (hselect''.unique hselect').2
      simp only [bind_pure, (Handler.ofAction_of_not_isEscaped hv).1] at hhandle
      exact hhandle.not_isDeferred_handle hawaits.env hkept₁.avoids
        (hkept₁.lt (hkept.lt hawaits.lt)) hvavoids hb
    · cases he
  · cases he

end PutOff

/-- **Lazy and plain functions agree.** Rules without the escapes around their actions compile as
the rules do. To call the lazy function of the rules, in any store, does nothing but make a deferred
value, and when that is new, whoever forces it sees what comes of forcing the answer of the plain
function: each ends when the other does, with the same answer or for the same reason, and they leave
the same store but for the state of the deferred value. That goes for all that an observer notes of
the actions and the computations that are run, in order; only the computation of the deferred value
itself is none that the plain function would run. The plain function is called where the deferred
value stands unasked, so that what both make on the way goes by the same names, which a text can
show. When nothing else is deferred on the way, the plain function comes to the same where there is
no such deferred value. When the action that is run is not escaped, a single layer of forcing is all
it takes. -/
theorem lazy_function_agrees {resolve : Resolver} {name : String} {rules : List (Rule Value)}
    {c : Compiled Value} (hc : Compiled.ofRules resolve name rules = .ok c) :
    Compiled.ofRules resolve name (rules.map Rule.unescaped) = .ok c.unescaped ∧
    (∀ env fuel, observed env (fun _ => []) fuel = perform env fuel) ∧
    ∀ (env : Env) (s : Store) (args : List Value) (l p : FunctionRef) (tell : Event → List Value),
      PutOff name c env s args l p →
      (∀ fuel, outcome (observed env tell (fuel + 1) (.call (.function l) args)) s =
        (.ok (.thunk ⟨s.thunks.size⟩), s.withThunk (.dispatch l args))) ∧
      ((∀ d, tell (.computation ⟨s.thunks.size⟩ d) = []) →
        Definite env tell (forcedCall l args) s ∧
        Definite env tell (forcedCall p args) (s.withThunk (.dispatch l args)) ∧
        (∀ r s', Ends env tell (forcedCall l args) s r s' →
          Ends env tell (forcedCall p args) (s.withThunk (.dispatch l args)) r
            (s'.setCell ⟨s.thunks.size⟩ (.pending (.dispatch l args)))) ∧
        (∀ r s', Ends env tell (forcedCall p args) (s.withThunk (.dispatch l args)) r s' →
          ∃ d, Ends env tell (forcedCall l args) s r (s'.setCell ⟨s.thunks.size⟩ d)) ∧
        (∀ r s' d, s'.thunks.size = s.thunks.size →
          Ends env tell (forcedCall l args) s r (s'.withDeferred d) →
          Ends env tell (forcedCall p args) s r s') ∧
        ∀ n i rule b s₂, Selects (fun v => observed env tell n (.force [] v)) name rules c args
            (s.withThunk (.dispatch l args)) i b s₂ →
          rules[i]? = some rule → rule.action.isEscaped = false →
          (∀ r s', Ends env tell (forcedCall l args) s r s' ↔
            Ends env tell (fun again => again (.resolve ⟨s.thunks.size⟩))
              (s.withThunk (.dispatch l args)) r s') ∧
          ∀ w s', Ends env tell (fun again => again (.resolve ⟨s.thunks.size⟩))
              (s.withThunk (.dispatch l args)) (.ok w) s' → w.isDeferred = false) := by
  refine ⟨Compiled.ofRules_unescaped hc, observed_silent, fun env s args l p tell h =>
    ⟨outcome_observed_call_lazy h.lazy h.length, fun htell => ?_⟩⟩
  obtain ⟨rows, arity, hcompiles⟩ := Compiled.exists_of_ofRules hc
  have hplain : ∀ r s', Ends env tell (forcedCall l args) s r s' →
      Ends env tell (forcedCall p args) (s.withThunk (.dispatch l args)) r
        (s'.setCell ⟨s.thunks.size⟩ (.pending (.dispatch l args))) := by
    intro r s' hends
    rw [h.ends_forcedCall_iff] at hends
    exact h.ends_dispatch_iff.mp (h.awaits.ends_compute_of_force htell hends)
  refine ⟨h.definite_lazy htell, h.definite_plain, hplain, fun r s' hends => ?_,
    fun r s' d hs' hends => ?_, fun n i rule b s₂ hselects hrule hescaped => ?_⟩
  · obtain ⟨d, hforce⟩ := h.awaits.exists_ends_force htell (h.ends_dispatch_iff.mpr hends)
    exact ⟨d, h.ends_forcedCall_iff.mpr hforce⟩
  · have hbeside := hplain r _ hends
    rw [Store.setCell_withDeferred_self (t := ⟨s.thunks.size⟩) hs'] at hbeside
    exact h.ends_plain_without hs' hbeside
  · obtain ⟨values, s₁, hplan, hselect⟩ := outcome_bind_eq_ok hselects.choose
    obtain ⟨j, row, rfl, hrow, hselected⟩ := select_of_numbered_some hselect
    obtain ⟨_, rule', _, hrule', rfl⟩ := hcompiles.exists_of_row hrow
    rw [Nat.zero_add, hrule'] at hrule
    cases hrule
    have hlayer : ∀ w s', Ends env tell (fun again => again (.resolve ⟨s.thunks.size⟩))
        (s.withThunk (.dispatch l args)) (.ok w) s' → w.isDeferred = false := by
      intro w s' hends
      obtain ⟨s₃, hcompute, -⟩ := (h.awaits.ends_resolve_iff htell).mp hends
      exact h.not_isDeferred_of_dispatch hplan hselected hescaped hcompute
    refine ⟨fun r s' => ?_, hlayer⟩
    rw [h.ends_forcedCall_iff, h.awaits.ends_resolve_iff_force htell hlayer]

/-- A deferred seven for everything, escaped for the empty stream. -/
def sevenRules : List (Rule Value) :=
  [⟨.row (.mk 1 [.name 2 "Nil"]), .phrase (.defer 3 (.thunk ⟨0⟩))⟩,
    ⟨.row (.mk 4 [.name 5 "x"]), .thunk ⟨0⟩⟩]

/-- A store with a deferred seven and the functions of the rules, the lazy one and the plain one. -/
def sevenStore (c : Compiled Value) : Store where
  thunks := #[.pending (.expr none [] (.constant (.int 7)))]
  functions := #[.ofCompiled "seven" true c, .ofCompiled "seven" false c.unescaped]

theorem putOff_seven {c : Compiled Value}
    (hc : Compiled.ofRules streams.resolver "seven" sevenRules = .ok c) :
    PutOff "seven" c {} (sevenStore c) [.int 3] ⟨0⟩ ⟨1⟩ := by
  have hlength : [Value.int 3].length = (Function.ofCompiled "seven" true c).arity := by
    cases hc
    rfl
  obtain ⟨rows, arity, hcompiles⟩ := Compiled.exists_of_ofRules hc
  have hrows : ∀ row ∈ c.rows, row.action.Avoids (· = ⟨1⟩) := by
    intro row hrow
    obtain ⟨i, hi⟩ := List.getElem?_of_mem hrow
    obtain ⟨_, rule, _, hrule, rfl⟩ := hcompiles.exists_of_row hi
    have hmem := List.mem_of_getElem? hrule
    rcases List.mem_cons.mp hmem with rfl | hmem
    · simp
    · obtain rfl := List.mem_singleton.mp hmem
      simp
  have hrows' : ∀ row ∈ c.unescaped.rows, row.action.Avoids (· = ⟨1⟩) := by
    simpa only [Compiled.unescaped, List.forall_mem_map, Value.Avoids, Value.mentions_unescaped]
      using hrows
  refine ⟨rfl, rfl, hlength, ⟨by simp [Table.Avoid], by simp⟩, ?_, ?_⟩
  · refine ⟨by simp [sevenStore], ?_, ?_, by simp [sevenStore]⟩
    · rintro ⟨_ | n⟩ d - hd
      · cases hd
        intro e he
        cases he
      · cases hd
    · intro f hf
      simp only [sevenStore, List.mem_toArray, List.mem_cons, List.not_mem_nil, or_false] at hf
      rcases hf with rfl | rfl
      · exact Function.avoids_ofCompiled_iff.mpr hrows
      · exact Function.avoids_ofCompiled_iff.mpr hrows'
  · intro v hv
    obtain rfl := List.mem_singleton.mp hv
    exact Value.avoids_of_mentions_nil rfl

/-- For three, the lazy function and the plain one come to seven, beside the deferred value and
without it, and so does a single layer. -/
theorem lazy_function_agrees_seven :
    ∃ c s₁ s₂ s₃ s₄, Compiled.ofRules streams.resolver "seven" sevenRules = .ok c ∧
      Ends {} (fun _ => []) (forcedCall ⟨0⟩ [.int 3]) (sevenStore c) (.ok (.int 7)) s₁ ∧
      Ends {} (fun _ => []) (forcedCall ⟨1⟩ [.int 3])
        ((sevenStore c).withThunk (.dispatch ⟨0⟩ [.int 3])) (.ok (.int 7)) s₂ ∧
      Ends {} (fun _ => []) (forcedCall ⟨1⟩ [.int 3]) (sevenStore c) (.ok (.int 7)) s₃ ∧
      Ends {} (fun _ => []) (fun again => again (.resolve ⟨1⟩))
        ((sevenStore c).withThunk (.dispatch ⟨0⟩ [.int 3])) (.ok (.int 7)) s₄ := by
  obtain ⟨c, hc⟩ : ∃ c, Compiled.ofRules streams.resolver "seven" sevenRules = .ok c := ⟨_, rfl⟩
  obtain ⟨rows, arity, hcompiles⟩ := Compiled.exists_of_ofRules hc
  obtain ⟨-, hagree⟩ := (lazy_function_agrees hc).2.2 {} (sevenStore c) [.int 3] ⟨0⟩ ⟨1⟩
    (fun _ => []) (putOff_seven hc)
  obtain ⟨hdefinite, -, hplain, -, hwithout, hlayer⟩ := hagree fun _ => rfl
  have hanswer : (outcome (forcedCall ⟨0⟩ [.int 3] (observed {} (fun _ => []) 9))
      (sevenStore c)).1.toOption = some (.int 7) := by
    cases hc
    decide +kernel
  have hsize : (outcome (forcedCall ⟨0⟩ [.int 3] (observed {} (fun _ => []) 9))
      (sevenStore c)).2.thunks.size = 2 := by
    cases hc
    decide +kernel
  have hposition : (outcome (c.choose (fun v => observed {} (fun _ => []) 9 (.force [] v))
      [.int 3]) ((sevenStore c).withThunk (.dispatch ⟨0⟩ [.int 3]))).1.toOption.map
        (·.map Prod.fst) = some (some 1) := by
    cases hc
    decide +kernel
  rcases hrun : outcome (forcedCall ⟨0⟩ [.int 3] (observed {} (fun _ => []) 9)) (sevenStore c) with
    ⟨e | v, s₁⟩
  · rw [hrun] at hanswer
    cases hanswer
  rcases hchoose : outcome (c.choose (fun v => observed {} (fun _ => []) 9 (.force [] v)) [.int 3])
    ((sevenStore c).withThunk (.dispatch ⟨0⟩ [.int 3])) with ⟨e | _ | ⟨i, b⟩, s₂⟩ <;>
    rw [hchoose] at hposition <;> cases hposition
  rw [hrun] at hanswer hsize
  cases hanswer
  have hends := hdefinite 9 _ _ hrun (by simp)
  have hone := hlayer 9 1 _ b s₂ (hcompiles.selects "seven" hchoose) rfl rfl
  obtain ⟨s₃, hs₁, hs₃⟩ : ∃ s₃ : Store,
      s₁ = s₃.withDeferred (s₁.cell ⟨1⟩) ∧ s₃.thunks.size = 1 :=
    Store.exists_withDeferred hsize
  exact ⟨c, s₁, _, s₃, s₁, hc, hends, hplain _ _ hends, hwithout _ s₃ _ hs₃ (hs₁ ▸ hends),
    (hone.1 _ _).mp hends⟩

end LazyMatch
