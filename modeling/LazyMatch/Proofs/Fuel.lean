import LazyMatch.Proofs.Ending
import LazyMatch.Proofs.LifeCycle

/-!
# Fuel and time

More fuel never changes what an evaluation has come to, whatever store it starts in, and no
evaluation takes anything back from a deferred value: what is resolved stays so.

* `observed_outdone`: more fuel does what less fuel does;
* `Made.definite_of_made`, `definite_again`: what comes to an end does so for good;
* `Ends.matures`: deferred values only mature.
-/

namespace LazyMatch

variable {α β : Type}

/-! ### More fuel -/

/-- Whether a computation does whatever another one does that is not exhausted, and its answers are
as they should be. -/
def Outdone (P : α → Prop) (x y : Run α) : Prop :=
  ∀ (s s' : Store) (r : Except Stop α), outcome x s = (r, s') → r ≠ .error .exhausted →
    outcome y s = (r, s') ∧ ∀ a, r = .ok a → P a

section Outdone

variable {P : α → Prop} {Q : β → Prop}

theorem Outdone.of_answers {x : Run α} (h : ∀ s a s', outcome x s = (.ok a, s') → P a) :
    Outdone P x x := by
  intro s s' r hrun _
  exact ⟨hrun, fun a ha => h s a s' (ha ▸ hrun)⟩

theorem Outdone.chain {x y : Run α} {f g : α → Run β} (hxy : Outdone P x y)
    (hfg : ∀ a, P a → Outdone Q (f a) (g a)) : Outdone Q (x >>= f) (y >>= g) := by
  intro s s' r hrun hr
  rcases hx : outcome x s with ⟨e | a, s₁⟩
  · rw [outcome_bind_error hx] at hrun
    cases hrun
    obtain ⟨hy, -⟩ := hxy s s' _ hx (by simpa using hr)
    exact ⟨outcome_bind_error hy _, fun _ ha => by cases ha⟩
  · rw [outcome_bind_ok hx] at hrun
    obtain ⟨hy, hP⟩ := hxy s s₁ _ hx (by simp)
    rw [outcome_bind_ok hy]
    exact hfg a (hP a rfl) s₁ s' r hrun hr

/-- What is made of the steps of evaluation is outdone when the tasks that it leads to are. -/
theorem Made.outdone {x : Evaluator → Run α} (h : Made (fun _ => False) P x)
    {again again' : Evaluator}
    (hagain : ∀ task, Outdone (Value.Avoids fun _ => False) (again task) (again' task)) :
    Outdone P (x again) (x again') := by
  induction h with
  | answer h =>
    refine .of_answers fun s a s' hrun => ?_
    cases hrun
    exact h
  | stop e =>
    refine .of_answers fun s a s' hrun => ?_
    cases hrun
  | look same made ih => exact fun s s' r hrun hr => ih s s.avoids_none s s' r hrun hr
  | alter same _ made =>
    refine .of_answers fun s a s' hrun => ?_
    cases hrun
    exact (made s s.avoids_none).1
  | log v => exact .of_answers fun _ _ _ _ => trivial
  | delay hc => exact .of_answers fun _ _ _ _ => id
  | again h => exact hagain _
  | chain first rest ih₁ ih₂ => exact .chain ih₁ fun a ha => ih₂ a ha

end Outdone

theorem outdone_resolve {t : ThunkRef} {again again' : Evaluator}
    (hagain : ∀ task, Outdone (Value.Avoids fun _ => False) (again task) (again' task)) :
    Outdone (Value.Avoids fun _ => False) (resolve again t) (resolve again' t) := by
  intro s s' r hrun hr
  refine ⟨?_, fun v _ => v.avoids_none⟩
  rcases hcell : s.cell t with c | c | v
  · rcases hcompute : outcome (compute again c) (s.setCell t (.running c)) with ⟨r₁, s₁⟩
    have hr₁ : r₁ ≠ .error .exhausted := by
      rintro rfl
      rw [outcome_resolve_pending hcell hcompute (by simp)] at hrun
      cases hrun
      exact hr rfl
    obtain ⟨hcompute', -⟩ := (made_compute c.avoids_none).outdone hagain _ _ _ hcompute hr₁
    by_cases hself : r₁ = .ok (.thunk t)
    · subst hself
      -- Resolving goes the same way from here on, and looks at nothing but the store.
      rw [resolve, outcome_get_bind, hcell, outcome_modify_bind, outcome_bind, outcome_tryCatch,
        hcompute] at hrun
      rw [resolve, outcome_get_bind, hcell, outcome_modify_bind, outcome_bind, outcome_tryCatch,
        hcompute']
      exact hrun
    · rw [outcome_resolve_pending hcell hcompute hself] at hrun
      rw [outcome_resolve_pending hcell hcompute' hself, hrun]
  · rw [outcome_resolve_running hcell] at hrun ⊢
    exact hrun
  · rw [outcome_resolve_resolved hcell] at hrun ⊢
    exact hrun

/-- **More fuel does what less fuel does.** -/
theorem observed_outdone (env : Env) (tell : Event → List Value) {n m : ℕ} (hle : n ≤ m)
    (task : Task) :
    Outdone (Value.Avoids fun _ => False) (observed env tell n task)
      (observed env tell m task) := by
  induction n generalizing m task with
  | zero =>
    intro s s' r hrun hr
    cases hrun
    exact absurd rfl hr
  | succ n ih =>
    obtain ⟨m, rfl⟩ : ∃ k, m = k + 1 := ⟨m - 1, by omega⟩
    have hagain : ∀ task, Outdone (Value.Avoids fun _ => False) (observed env tell n task)
        (observed env tell m task) := ih (Nat.le_of_succ_le_succ hle)
    rw [observed_succ, observed_succ]
    refine .chain (P := fun _ => True) (.of_answers fun _ _ _ _ => trivial) fun _ _ => ?_
    by_cases hresolve : ∃ t, task = .resolve t
    · obtain ⟨t, rfl⟩ := hresolve
      exact outdone_resolve hagain
    · exact (made_step env.avoids_none task.avoids_none fun t ht => hresolve ⟨t, ht⟩).outdone hagain

section Definite

variable {env : Env} {tell : Event → List Value} {P : α → Prop} {x : Evaluator → Run α} {s : Store}

/-- What is made of the steps of evaluation comes to an end for good. -/
theorem Made.definite_of_made (h : Made (fun _ => False) P x) : Definite env tell x s :=
  fun n r _ hrun hr =>
    ⟨hr, n, fun _ hm => (h.outdone (observed_outdone env tell hm) s _ r hrun hr).1⟩

theorem definite_again {task : Task} : Definite env tell (fun again => again task) s :=
  Made.definite_of_made (.again task.avoids_none)

end Definite

/-! ### Deferred values mature -/

section Matures

variable {env : Env} {s s' : Store} {r : Except Stop Value}

theorem matures_of_outcome {fuel : ℕ} {task : Task}
    (h : outcome (perform env fuel task) s = (r, s')) : Matures s.thunks s'.thunks := by
  obtain ⟨r₁, s₁, tl, hrun, -, hspan⟩ := timed_watched env fuel [] task s
  have hsilent : outcome (watched env (fun _ => []) fuel [] task) s = (r₁, _) :=
    hrun (fun _ => []) s.log
  rw [watched_silent, h] at hsilent
  cases hsilent
  exact hspan.matures.1

/-- No evaluation takes anything back from a deferred value. -/
theorem Ends.matures {task : Task}
    (h : Ends env (fun _ => []) (fun again => again task) s r s') : Matures s.thunks s'.thunks := by
  obtain ⟨-, n, hn⟩ := h
  have hrun := hn n (Nat.le_refl n)
  rw [observed_silent] at hrun
  exact matures_of_outcome hrun

end Matures

end LazyMatch
