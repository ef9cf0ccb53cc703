import LazyMatch.Dispatch
import LazyMatch.Proofs.ForcePlan
import LazyMatch.Proofs.Outcome
import Mathlib.Data.List.OfFn
import Mathlib.Data.List.FinRange

/-!
# What the matcher is handed

A compiled function runs its force plan before anything is matched: the arguments are entered in a
frame under the names of the parameters, the plan binds fresh names to forced arguments, and the
names to dispatch on are read. All of this amounts to one walk over the positions of the arguments,
on which each argument in demand is forced once, when its turn comes.

* `handOver` is the walk by positions, `forceWhere_ofFn` compares it with the one along lists;
* `InTurn`: the stores that it comes through; `outcome_handOver_eq_ok`, `outcome_handOver_eq_error`:
  it ends when it has been the turn of every argument, or where one cannot be forced;
* `plan_hands_over`: all of this about the plan.
-/

namespace LazyMatch

/-! ### One argument after the other -/

section Walk

variable {m : Type → Type} [Monad m] {n : ℕ}

/-- Go through arguments by their positions: force those in demand and hand on the others. -/
def handOver (force : Value → m Value) (need : Fin n → Bool) (args : Fin n → Value) :
    m (List Value) :=
  (List.finRange n).mapM fun i => if need i then force (args i) else pure (args i)

variable [LawfulMonad m]

theorem handOver_succ (force : Value → m Value) (need : Fin (n + 1) → Bool)
    (args : Fin (n + 1) → Value) :
    handOver force need args =
      ((if need 0 then force (args 0) else pure (args 0)) >>= fun w =>
        handOver force (fun i => need i.succ) (fun i => args i.succ) >>= fun values =>
          pure (w :: values)) := by
  simp only [handOver, List.finRange_succ, List.mapM_cons, List.mapM_map, Function.comp_def]

theorem forceWhere_ofFn (force : Value → m Value) (need : Fin n → Bool) (args : Fin n → Value) :
    forceWhere force (List.ofFn need) (List.ofFn args) = handOver force need args := by
  induction n with
  | zero => simp [forceWhere, handOver]
  | succ n ih => rw [List.ofFn_succ, List.ofFn_succ, forceWhere_cons, ih, handOver_succ]

end Walk

/-! ### In a store -/

section Store

variable {n : ℕ} {force : Value → Run Value}

/-- Whether the arguments before a position have been gone through in turn, where `stores i` is the
store in which it is the turn of argument `i`: it is forced there if it is in demand, and handed on
otherwise. -/
def InTurn (force : Value → Run Value) (need : Fin n → Bool) (args values : Fin n → Value)
    (stores : ℕ → Store) (position : ℕ) : Prop :=
  ∀ i : Fin n, i < position →
    if need i then outcome (force (args i)) (stores i) = (.ok (values i), stores (i + 1))
    else values i = args i ∧ stores (i + 1) = stores i

/-- Stores after a first one. -/
def andThenStores (s : Store) (stores : ℕ → Store) : ℕ → Store
  | 0 => s
  | i + 1 => stores i

/-- The first turn, and all others. -/
theorem inTurn_succ {need : Fin (n + 1) → Bool} {args values : Fin (n + 1) → Value}
    {stores : ℕ → Store} {position : ℕ} :
    InTurn force need args values stores (position + 1) ↔
      (if need 0 then outcome (force (args 0)) (stores 0) = (.ok (values 0), stores 1)
        else values 0 = args 0 ∧ stores 1 = stores 0) ∧
      InTurn force (fun i => need i.succ) (fun i => args i.succ) (fun i => values i.succ)
        (fun i => stores (i + 1)) position := by
  constructor
  · intro h
    exact ⟨h 0 (by simp), fun i hi => h i.succ (by simpa using hi)⟩
  · rintro ⟨hfirst, hrest⟩ i hi
    induction i using Fin.cases with
    | zero => exact hfirst
    | succ i => exact hrest i (by simpa using hi)

theorem outcome_turn_eq_ok {needed : Bool} {v w : Value} {s s' : Store} :
    outcome (if needed then force v else pure v) s = (.ok w, s') ↔
      if needed then outcome (force v) s = (.ok w, s') else w = v ∧ s' = s := by
  cases needed with
  | true => rfl
  | false => simp [eq_comm]

/-- The arguments have all been handed over when it has been the turn of each. -/
theorem outcome_handOver_eq_ok {need : Fin n → Bool} {args : Fin n → Value} {s s' : Store}
    {handed : List Value} :
    outcome (handOver force need args) s = (.ok handed, s') ↔
      ∃ values stores, handed = List.ofFn values ∧ stores 0 = s ∧ stores n = s' ∧
        InTurn force need args values stores n := by
  induction n generalizing s handed with
  | zero =>
    simp only [handOver, List.finRange_zero, List.mapM_nil, outcome_pure, Prod.mk.injEq,
      Except.ok.injEq, List.ofFn_zero]
    constructor
    · rintro ⟨rfl, rfl⟩
      exact ⟨args, fun _ => s, rfl, rfl, rfl, fun i => i.elim0⟩
    · rintro ⟨_, stores, rfl, rfl, rfl, -⟩
      exact ⟨rfl, rfl⟩
  | succ n ih =>
    rw [handOver_succ]
    constructor
    · intro h
      obtain ⟨w, s₁, hfirst, h⟩ := outcome_bind_eq_ok h
      obtain ⟨rest, s₂, hrest, h⟩ := outcome_bind_eq_ok h
      cases h
      obtain ⟨values, stores, rfl, rfl, rfl, hturns⟩ := ih.mp hrest
      refine ⟨Fin.cons w values, andThenStores s stores, by simp [List.ofFn_succ], rfl, rfl, ?_⟩
      exact inTurn_succ.mpr ⟨outcome_turn_eq_ok.mp hfirst, hturns⟩
    · rintro ⟨values, stores, rfl, rfl, rfl, hturns⟩
      obtain ⟨hfirst, hrest⟩ := inTurn_succ.mp hturns
      rw [outcome_bind_ok (outcome_turn_eq_ok.mpr hfirst),
        outcome_bind_ok (ih.mpr ⟨_, _, rfl, rfl, rfl, hrest⟩), List.ofFn_succ]
      rfl

/-- Handing over stops where an argument in demand cannot be forced, with those before it done. -/
theorem outcome_handOver_eq_error {need : Fin n → Bool} {args : Fin n → Value} {s s' : Store}
    {e : Stop} :
    outcome (handOver force need args) s = (.error e, s') ↔
      ∃ (k : Fin n) (values : Fin n → Value) (stores : ℕ → Store), stores 0 = s ∧
        InTurn force need args values stores k ∧ need k = true ∧
        outcome (force (args k)) (stores k) = (.error e, s') := by
  induction n generalizing s with
  | zero =>
    simp [handOver]
  | succ n ih =>
    rw [handOver_succ]
    constructor
    · intro h
      rcases outcome_bind_eq_error h with hfirst | ⟨w, s₁, hfirst, h⟩
      · cases hneed : need 0 with
        | false => simp [hneed] at hfirst
        | true =>
          rw [hneed] at hfirst
          exact ⟨0, args, fun _ => s, rfl, fun i hi => absurd hi (by simp), hneed, hfirst⟩
      · rcases outcome_bind_eq_error h with hrest | ⟨_, _, _, h⟩
        · obtain ⟨k, values, stores, rfl, hturns, hneed, hstop⟩ := ih.mp hrest
          refine ⟨k.succ, Fin.cons w values, andThenStores s stores, rfl, ?_, hneed, hstop⟩
          exact inTurn_succ.mpr ⟨outcome_turn_eq_ok.mp hfirst, hturns⟩
        · cases h
    · rintro ⟨k, values, stores, rfl, hturns, hneed, hstop⟩
      induction k using Fin.cases with
      | zero =>
        refine outcome_bind_error ?_ _
        rw [hneed]
        exact hstop
      | succ k =>
        obtain ⟨hfirst, hrest⟩ := inTurn_succ.mp hturns
        rw [outcome_bind_ok (outcome_turn_eq_ok.mpr hfirst)]
        exact outcome_bind_error (ih.mpr ⟨k, _, _, rfl, hrest, hneed, hstop⟩) _

end Store

/-- **The force plan computes what the matcher is to see.** Whatever forcing is, running the plan is
to go through the positions once, in order, and a function matches its rows against what comes of
that. In a store, the value that is handed over for an argument is what forcing it gives when its
turn comes, if it is in demand, and the argument itself otherwise; and the plan stops only where an
argument in demand cannot be forced. -/
theorem plan_hands_over (n : ℕ) (need : Fin n → Bool) (args : Fin n → Value) :
    ∃ plan, Plan.ofDemand (standardNames n) (List.ofFn need) = .ok plan ∧
      (∀ (m : Type → Type) [Monad m] [LawfulMonad m] [MonadExceptOf Stop m]
        (force : Value → m Value), plan.run force (List.ofFn args) =
          (List.finRange n).mapM fun i => if need i then force (args i) else pure (args i)) ∧
      (∀ (f : Function) (force : Value → Run Value) (act : Handler → Bindings → Run Value),
        f.plan = plan → f.dispatch force act (List.ofFn args) =
          plan.run force (List.ofFn args) >>= matchRows force act f.name f.rows) ∧
      ∀ (force : Value → Run Value) (s s' : Store),
        (∀ handed, outcome (plan.run force (List.ofFn args)) s = (.ok handed, s') ↔
          ∃ values stores, handed = List.ofFn values ∧ stores 0 = s ∧ stores n = s' ∧
            InTurn force need args values stores n) ∧
        ∀ e, outcome (plan.run force (List.ofFn args)) s = (.error e, s') ↔
          ∃ (k : Fin n) (values : Fin n → Value) (stores : ℕ → Store), stores 0 = s ∧
            InTurn force need args values stores k ∧ need k = true ∧
            outcome (force (args k)) (stores k) = (.error e, s') := by
  have hplan := Plan.ofDemand_standardNames (List.ofFn need)
  have hrun : ∀ (m : Type → Type) [Monad m] [LawfulMonad m] [MonadExceptOf Stop m]
      (force : Value → m Value),
      Plan.run force ⟨_, _, _⟩ (List.ofFn args) = handOver force need args :=
    fun m _ _ _ force => (Plan.run_ofDemand force hplan (by simp)).trans (forceWhere_ofFn ..)
  rw [List.length_ofFn] at hplan hrun
  refine ⟨_, hplan, hrun, ?_, fun force s s' => ?_⟩
  · intro f force act hf
    rw [Function.dispatch, hf]
  · rw [hrun]
    exact ⟨fun _ => outcome_handOver_eq_ok, fun _ => outcome_handOver_eq_error⟩

end LazyMatch
