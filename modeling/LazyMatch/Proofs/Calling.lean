import LazyMatch.Proofs.Inverse
import LazyMatch.Proofs.Naming

/-!
# Calls of actions and functions

A program is run by the calls it makes. An action whose parameters are plain names is run where
these names are bound to what its rule bound under them; a call of a function defers its dispatch
when the function is lazy, and dispatches otherwise.

* `outcome_handle_plain`: what it means to hand over to a plain action;
* `Gives.call`, `Gives.binary`: expressions, put together from their parts;
* `gives_call_lazy`, `gives_call_strict`, `gives_dispatch`: functions.
-/

namespace LazyMatch

/-! ### Plain actions -/

/-- Whether parameters of these names go by exactly these names. -/
def PlainNames (names : List String) : Prop :=
  ∀ x ∈ names, Text.compatible x = x ∧ reservedWords.contains x = false

section Actions

variable {env : Env} {s s' : Store} {names : List String} {b : Bindings} {vs : List Value}

theorem PlainNames.mono {names' : List String} (h : PlainNames names) (hsub : names' ⊆ names) :
    PlainNames names' :=
  fun x hx => h x (hsub hx)

theorem takesAllNames_plain (names : List String) :
    takesAllNames (names.map (plainParam : String → Param Value)) = false := by
  simp [takesAllNames, plainParam]

theorem not_isDisguised_plain (h : PlainNames names) :
    (names.map (plainParam : String → Param Value)).any Param.isDisguised = false := by
  rw [List.any_map, List.any_eq_false]
  intro x hx
  simp only [Function.comp, plainParam, Param.isDisguised, Param.key, (h x hx).1, (h x hx).2]
  simp

/-- What goes by these names, in their order. -/
def Table.under (b : Bindings) (names : List String) : Scope :=
  names.map fun x => (x, (Table.get? b x).getD .null)

/-- Plain parameters take what goes by their names. -/
theorem distribute_plain (h : PlainNames names) (extra : Bindings)
    (hb : ∀ x ∈ names, (Table.get? b x).isSome = true) :
    distribute b extra (names.map plainParam) [] = pure (b.under names) := by
  induction names with
  | nil => rfl
  | cons x names ih =>
    rw [PlainNames, List.forall_mem_cons] at h
    rw [List.forall_mem_cons] at hb
    obtain ⟨v, hv⟩ := Option.isSome_iff_exists.mp hb.1
    have hfound : (if (plainParam x : Param Value).takesName then
        Table.get? b (plainParam x : Param Value).key else none).or none = some v := by
      rw [Param.key, plainParam, h.1.1, hv]
      rfl
    rw [List.map_cons, distribute]
    case cons =>
      rw [ih h.2 hb.2, show (plainParam x : Param Value).fallback = none from rfl, hfound]
      simp [Table.under, hv, plainParam]
    -- The other equations are for parameters of other kinds and for arguments by position.
    all_goals simp [plainParam]

/-- **A plain action is run where its parameters are bound** to what goes by their names. -/
theorem outcome_handle_plain {c : ClosureRef} {body : Expr} (h : PlainNames names)
    (hc : s.closure c = ⟨names.map plainParam, body, []⟩)
    (hb : ∀ x ∈ names, (Table.get? b x).isSome = true) (again : Evaluator) :
    outcome (handle again (.adapted (.closure c)) b) s =
      outcome (again (.eval (b.under names) body)) s := by
  have hextra : (wanted (names.map plainParam) b).filter
      (fun e => !wants (names.map (plainParam : String → Param Value)) e.1) = [] := by
    rw [wanted, takesAllNames_plain, not_isDisguised_plain h]
    simp
  have hget : ∀ x ∈ names, Table.get? (wanted (names.map plainParam) b) x = Table.get? b x := by
    intro x hx
    have hfound := get?_wanted (p := plainParam x) (List.mem_map_of_mem hx) rfl b
    rwa [Param.key, plainParam, (h x hx).1] at hfound
  have hunder : Table.under (wanted (names.map plainParam) b) names = b.under names :=
    List.map_congr_left fun x hx => by rw [hget x hx]
  have henter : Closure.enter ⟨names.map plainParam, body, []⟩ []
      (wanted (names.map plainParam) b) = pure (b.under names) := by
    have hall := distribute_plain h [] fun x hx =>
      (congrArg Option.isSome (hget x hx)).trans (hb x hx)
    simp only [Closure.enter, hextra, hall, hunder]
    simp
  rw [handle, outcome_get_bind, enter, outcome_get_bind, hc]
  simp only [henter, pure_bind]

theorem gives_handle_plain {c : ClosureRef} {body : Expr} {v : Value} (h : PlainNames names)
    (hc : s.closure c = ⟨names.map plainParam, body, []⟩)
    (hb : ∀ x ∈ names, (Table.get? b x).isSome = true)
    (hbody : Gives env (fun again => again (.eval (b.under names) body)) s v s') :
    Gives env (fun again => again (.handle (.adapted (.closure c)) b)) s v s' :=
  .step ((ends_congr fun again => outcome_handle_plain h hc hb again).mpr hbody)

end Actions

/-! ### Expressions and functions -/

section Evaluation

variable {env : Env} {scope : Scope} {s s₁ s₂ s₃ : Store} {f : FunctionRef}
  {args values : List Value} {v : Value}

theorem gives_global {name : String} (hscope : Table.get? scope name = none)
    (h : env.globals.get? name = some v) :
    Gives env (fun again => again (.eval scope (.var name))) s v s := by
  refine .step (gives_of_outcome ?_)
  simp only [hscope, h, Option.none_or]
  rfl

theorem gives_evals_nil :
    Gives env (fun again => ([] : List Expr).mapM fun e => again (.eval scope e)) s [] s :=
  gives_of_outcome rfl

theorem Gives.call {callee : Expr} {es : List Expr} {w : Value}
    (hcallee : Gives env (fun again => again (.eval scope callee)) s w s₁)
    (hargs : Gives env (fun again => es.mapM fun e => again (.eval scope e)) s₁ args s₂)
    (h : Gives env (fun again => again (.call w args)) s₂ v s₃) :
    Gives env (fun again => again (.eval scope (.call callee es))) s v s₃ :=
  .step (hcallee.bind (hargs.bind h))

theorem Gives.binary {op : BinaryOp} {left right : Expr} {a b : Value} (hop : op ≠ .same)
    (hleft : Gives env (fun again => again (.eval scope left)) s a s₁)
    (hright : Gives env (fun again => again (.eval scope right)) s₁ b s₂)
    (h : outcome (binary op a b) s₂ = (.ok v, s₃)) :
    Gives env (fun again => again (.eval scope (.binary op left right))) s v s₃ := by
  refine .step (hleft.bind (hright.bind (gives_of_outcome ?_)))
  rw [if_neg (by simp [hop]), h]

/-- To call a lazy function is to defer its dispatch. -/
theorem gives_call_lazy (hlazy : (s.function f).lazy = true)
    (harity : args.length = (s.function f).arity) :
    Gives env (fun again => again (.call (.function f) args)) s (.thunk ⟨s.thunks.size⟩)
      (s.withThunk (.dispatch f args)) := by
  refine .step (gives_iff.mpr ⟨0, fun m _ => ?_⟩)
  rw [step, call, outcome_get_bind]
  simp only [if_pos harity, if_pos hlazy]
  rfl

theorem gives_call_strict (hlazy : (s.function f).lazy = false)
    (harity : args.length = (s.function f).arity)
    (h : Gives env (fun again => again (.dispatch f args)) s v s₁) :
    Gives env (fun again => again (.call (.function f) args)) s v s₁ := by
  refine .step ((ends_congr fun again => ?_).mpr h)
  rw [step, call, outcome_get_bind]
  simp only [if_pos harity, hlazy]
  rfl

/-- To dispatch is to run the force plan, to select a row and to hand over to its action. -/
theorem gives_dispatch {g : Function} {a : Handler} {b : Bindings} (hg : s.function f = g)
    (hplan : Gives env (fun again => g.plan.run (fun v => again (.force [] v)) args) s values s₁)
    (hselect : Gives env (fun again => select (fun v => again (.force [] v)) values g.rows) s₁
      (some (a, b)) s₂)
    (h : Gives env (fun again => again (.handle a b)) s₂ v s₃) :
    Gives env (fun again => again (.dispatch f args)) s v s₃ := by
  obtain ⟨n₁, hplan⟩ := gives_iff.mp hplan
  obtain ⟨n₂, hselect⟩ := gives_iff.mp hselect
  obtain ⟨n₃, h⟩ := gives_iff.mp h
  refine .step (gives_iff.mpr ⟨n₁ + n₂ + n₃, fun m hm => ?_⟩)
  rw [step, outcome_get_bind, hg]
  simp only [Function.dispatch]
  rw [outcome_bind_ok (hplan m (by omega)), matchRows, outcome_bind_ok (hselect m (by omega))]
  exact h m (by omega)

end Evaluation

end LazyMatch
