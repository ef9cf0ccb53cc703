import LazyMatch.Proofs.Timeline

/-!
# A deferred value that nothing mentions

What nothing mentions cannot be asked for. So evaluation goes its way whatever the state of such a
deferred value is, leaves that state alone, and comes to nothing that mentions it.

`observed` is the evaluator watched by an observer, who is told of every action and every
computation that is run and may add to the log. More fuel does not change what has come to an end.
Both are said at once, of the observed evaluator: `observed_unaware`. As long as nothing is deferred
later, such a deferred value need not even be there: `observed_heedless`.
-/

namespace LazyMatch

variable {α β : Type}

/-! ### Observing evaluation -/

/-- What an observer is told of. -/
inductive Event where
  /-- An action is run on bindings. -/
  | action (v : Value) (b : Bindings)
  /-- The computation of a deferred value is run. -/
  | computation (t : ThunkRef) (c : Computation)

/-- The computation that is run when a deferred value in this state is resolved. -/
def Cell.computation? : Cell → Option Computation
  | .pending c => some c
  | _ => none

/-- What there is to be told of when a task begins with deferred values in these states. -/
def Task.event? (cells : Array Cell) : Task → Option Event
  | .handle (.direct v) b | .handle (.adapted v) b => some (.action v b)
  | .resolve t => (cellAt cells t).computation?.map (.computation t)
  | _ => none

/-- The note-taker who tells an observer of what begins. -/
def telling (tell : Event → List Value) : Notes
  | .begins task _ cells => (task.event? cells).elim [] tell
  | .ends .. => []

/-- Do a task and tell an observer of all that is run. -/
def observed (env : Env) (tell : Event → List Value) (fuel : ℕ) : Evaluator :=
  watched env (telling tell) fuel []

/-- Tell of a task that begins. -/
def announce (tell : Event → List Value) (task : Task) : Run Unit :=
  modify fun s => s.withLog (s.log ++ (task.event? s.thunks).elim [] tell)

theorem observed_zero (env : Env) (tell : Event → List Value) (task : Task) :
    observed env tell 0 task = throw .exhausted := rfl

/-- An observer is told of a task that begins, and of nothing else but what happens within it. -/
theorem observed_succ (env : Env) (tell : Event → List Value) (fuel : ℕ) (task : Task) :
    observed env tell (fuel + 1) task =
      (announce tell task >>= fun _ => step env (observed env tell fuel) task) := by
  have hbelow : watched env (telling tell) fuel [task] = observed env tell fuel :=
    funext fun task' => watched_below (fun _ _ _ _ => rfl) (fun _ _ _ _ _ _ => rfl) fuel _ _ task'
  refine outcome_ext fun s => ?_
  rcases hstep : outcome (step env (watched env (telling tell) fuel [task]) task)
    (s.withLog (s.log ++ telling tell (.begins task [] s.thunks))) with ⟨r, s'⟩
  rw [observed, outcome_watched env _ fuel [] task hstep]
  rw [hbelow] at hstep
  rw [announce, outcome_modify_bind]
  exact (congrArg (Prod.mk r) (Store.withLog_append_nil s')).trans hstep.symm

theorem outcome_announce_resolve (tell : Event → List Value) (t : ThunkRef) (s : Store) :
    outcome (announce tell (.resolve t)) s = (.ok ⟨⟩,
      s.withLog (s.log ++ ((s.cell t).computation?.map (.computation t)).elim [] tell)) := rfl

/-- A task of which there is nothing to tell. -/
theorem observed_quiet {env : Env} {tell : Event → List Value} {task : Task}
    (h : ∀ cells, task.event? cells = none) (fuel : ℕ) :
    observed env tell (fuel + 1) task = step env (observed env tell fuel) task := by
  have hquiet : announce tell task = pure () := outcome_ext fun s => by
    simp [announce, h, Store.withLog]
  rw [observed_succ, hquiet, pure_bind]

theorem observed_silent (env : Env) (fuel : ℕ) :
    observed env (fun _ => []) fuel = perform env fuel := by
  have hsilent : telling (fun _ => []) = fun _ => [] := by
    funext m
    cases m with
    | begins task _ cells =>
      rw [telling]
      cases task.event? cells with
      | none => rfl
      | some e => rfl
    | ends => rfl
  funext task
  rw [observed, hsilent, watched_silent]

/-! ### Changing one state -/

namespace Store

variable (s : Store)

theorem setCell_comm {t u : ThunkRef} (h : u ≠ t) (c d : Cell) :
    (s.setCell u c).setCell t d = (s.setCell t d).setCell u c := by
  have hindex : u.index ≠ t.index := ThunkRef.index_injective.ne h
  simp only [setCell, Array.setIfInBounds_comm _ _ hindex]

@[simp] theorem setCell_setCell (t : ThunkRef) (c d : Cell) :
    (s.setCell t c).setCell t d = s.setCell t d := by
  simp only [setCell, Array.setIfInBounds_setIfInBounds]

theorem setCell_cell (t : ThunkRef) : s.setCell t (s.cell t) = s := by
  have hsame : s.thunks.setIfInBounds t.index (s.cell t) = s.thunks := by
    refine Array.ext_getElem? fun i => ?_
    rw [Array.getElem?_setIfInBounds]
    split
    · rename_i hi
      subst hi
      split
      · rename_i ht
        simp [cell, ht]
      · rename_i ht
        exact (Array.getElem?_eq_none (Nat.le_of_not_lt ht)).symm
    · rfl
  rw [setCell, hsame]

theorem sameOff_setCell (t : ThunkRef) (c : Cell) :
    SameOff (· = t) s.thunks (s.setCell t c).thunks := by
  intro u hu
  have hindex : t.index ≠ u.index := ThunkRef.index_injective.ne (Ne.symm hu)
  simp [setCell, hindex]

/-- The store with one more deferred value, in some state. -/
def withDeferred (d : Cell) : Store := { s with thunks := s.thunks.push d }

variable {s}

theorem withDeferred_inj {s' : Store} {d : Cell} (h : s.withDeferred d = s'.withDeferred d) :
    s = s' := by
  obtain ⟨⟩ := s
  obtain ⟨⟩ := s'
  simp only [withDeferred, Store.mk.injEq, Array.push_eq_push] at h
  simp [h]

theorem cell_withDeferred_of_ne {t : ThunkRef} (h : t.index ≠ s.thunks.size) (d : Cell) :
    (s.withDeferred d).cell t = s.cell t := by
  simp only [cell, withDeferred, Array.getElem?_push, if_neg h]

theorem setCell_withDeferred {t : ThunkRef} (h : t.index < s.thunks.size) (c d : Cell) :
    (s.withDeferred d).setCell t c = (s.setCell t c).withDeferred d := by
  have hpush : (s.thunks.push d).setIfInBounds t.index c =
      (s.thunks.setIfInBounds t.index c).push d := by
    refine Array.ext_getElem? fun i => ?_
    grind
  simp only [setCell, withDeferred, hpush]

theorem setCell_withDeferred_self {t : ThunkRef} (h : s.thunks.size = t.index) (c d : Cell) :
    (s.withDeferred d).setCell t c = s.withDeferred c := by
  have hpush : (s.thunks.push d).setIfInBounds t.index c = s.thunks.push c := by
    refine Array.ext_getElem? fun i => ?_
    grind
  simp only [setCell, withDeferred, hpush]

theorem sameOff_withDeferred {t : ThunkRef} (h : s.thunks.size = t.index) (d : Cell) :
    SameOff (· = t) (s.withDeferred d).thunks s.thunks := by
  intro u hu
  have hindex : u.index ≠ s.thunks.size := h ▸ ThunkRef.index_injective.ne hu
  simp only [withDeferred, Array.getElem?_push, if_neg hindex]

/-- The deferred value that was made last can be told from the rest of the store. -/
theorem exists_withDeferred {t : ThunkRef} (h : s.thunks.size = t.index + 1) :
    ∃ s' : Store, s = s'.withDeferred (s.cell t) ∧ s'.thunks.size = t.index := by
  refine ⟨{ s with thunks := s.thunks.pop }, ?_, by simp [h]⟩
  have hpush : s.thunks = s.thunks.pop.push (s.cell t) := by
    refine Array.ext_getElem? fun i => ?_
    simp only [cell]
    grind
  rw [withDeferred, ← hpush]

end Store

/-! ### Not being aware of a deferred value -/

/-- Nothing mentions a deferred value, before and after, and its state stays as it is. -/
structure Kept (t : ThunkRef) (s s' : Store) : Prop where
  avoids : s'.Avoids (· = t)
  size_le : s.thunks.size ≤ s'.thunks.size
  cell : s'.cell t = s.cell t

/-- Whether a computation comes to what another one comes to, unless that is exhausted, whatever the
state of a deferred value is that nothing mentions. -/
def Unaware (t : ThunkRef) (P : α → Prop) (x y : Run α) : Prop :=
  ∀ (s s' : Store) (r : Except Stop α), s.Avoids (· = t) → t.index < s.thunks.size →
    outcome x s = (r, s') → r ≠ .error .exhausted →
    (∀ c, outcome y (s.setCell t c) = (r, s'.setCell t c)) ∧ Kept t s s' ∧ ∀ a, r = .ok a → P a

section Unaware

variable {t : ThunkRef} {P : α → Prop} {Q : β → Prop}

theorem Kept.trans {s s' s'' : Store} (h : Kept t s s') (h' : Kept t s' s'') : Kept t s s'' :=
  ⟨h'.avoids, Nat.le_trans h.size_le h'.size_le, h'.cell.trans h.cell⟩

theorem Kept.lt {s s' : Store} (h : Kept t s s') (ht : t.index < s.thunks.size) :
    t.index < s'.thunks.size := Nat.lt_of_lt_of_le ht h.size_le

theorem Kept.refl {s : Store} (hs : s.Avoids (· = t)) : Kept t s s := ⟨hs, Nat.le_refl _, rfl⟩

/-- The state of another deferred value changes. -/
theorem Kept.setCell {s s' : Store} (h : Kept t s s') {u : ThunkRef} (hu : u ≠ t) {c : Cell}
    (hc : c.Avoids (· = t)) : Kept t s (s'.setCell u c) where
  avoids := h.avoids.setCell u hc
  size_le := by simpa [Store.setCell] using h.size_le
  cell := (Store.cell_setCell_of_ne hu.symm c).trans h.cell

theorem Unaware.answer {a : α} (h : P a) : Unaware t P (pure a) (pure a) := by
  intro s s' r hs ht hrun _
  cases hrun
  exact ⟨fun _ => rfl, .refl hs, fun _ ha => Except.ok.inj ha ▸ h⟩

theorem Unaware.stop (e : Stop) : Unaware t P (throw e) (throw e) := by
  intro s s' r hs ht hrun _
  cases hrun
  exact ⟨fun _ => rfl, .refl hs, fun _ ha => by cases ha⟩

theorem Unaware.chain {x y : Run α} {f g : α → Run β} (h : Unaware t P x y)
    (hfg : ∀ a, P a → Unaware t Q (f a) (g a)) : Unaware t Q (x >>= f) (y >>= g) := by
  intro s s' r hs ht hrun hr
  rcases hx : outcome x s with ⟨e | a, s₁⟩
  · rw [outcome_bind_error hx] at hrun
    cases hrun
    obtain ⟨hy, hkept, -⟩ := h s _ _ hs ht hx (by simpa using hr)
    exact ⟨fun c => outcome_bind_error (hy c) _, hkept, fun _ ha => by cases ha⟩
  · rw [outcome_bind_ok hx] at hrun
    obtain ⟨hy, hkept, hP⟩ := h s s₁ _ hs ht hx (by simp)
    obtain ⟨hg, hkept', hQ⟩ := hfg a (hP a rfl) s₁ s' r hkept.avoids (hkept.lt ht) hrun hr
    exact ⟨fun c => by rw [outcome_bind_ok (hy c), hg], hkept.trans hkept', hQ⟩

/-- A change that neither looks at the states of deferred values nor at the log. -/
theorem Unaware.alter {f : Store → α × Store}
    (same : ∀ s cells log, f (s.recast cells log) = ((f s).1, (f s).2.recast cells log))
    (made : ∀ s, s.Avoids (· = t) → P (f s).1 ∧ (f s).2.Avoids (· = t)) :
    Unaware t P (modifyGet f) (modifyGet f) := by
  intro s s' r hs ht hrun _
  cases hrun
  have hself : (f s).2 = (f s).2.recast s.thunks s.log := congrArg Prod.snd (same s s.thunks s.log)
  have hthunks : (f s).2.thunks = s.thunks := (congrArg Store.thunks hself).trans rfl
  have hlog : (f s).2.log = s.log := (congrArg Store.log hself).trans rfl
  refine ⟨fun c => ?_, ⟨(made s hs).2, hthunks ▸ Nat.le_refl _, ?_⟩, fun _ ha => ?_⟩
  · have hother : f (s.setCell t c) = _ := same s (s.setCell t c).thunks s.log
    rw [outcome_modifyGet, hother]
    refine congrArg (Prod.mk _) ?_
    simp only [Store.recast, Store.setCell, hthunks, ← hlog]
  · rw [Store.cell, Store.cell, hthunks]
  · exact Except.ok.inj ha ▸ (made s hs).1

theorem Unaware.log (v : Value) : Unaware t (fun _ => True)
    (modify fun s => { s with log := s.log.push v } : Run PUnit)
    (modify fun s => { s with log := s.log.push v }) := by
  intro s s' r hs ht hrun _
  cases hrun
  exact ⟨fun _ => rfl, ⟨hs.congr rfl rfl rfl rfl, Nat.le_refl _, rfl⟩, fun _ _ => trivial⟩

theorem Unaware.delay {c : Computation} (hc : c.Avoids (· = t)) :
    Unaware t (· ≠ t) (newThunk c) (newThunk c) := by
  intro s s' r hs ht hrun _
  cases hrun
  have hne : (⟨s.thunks.size⟩ : ThunkRef) ≠ t := by
    rintro rfl
    exact Nat.lt_irrefl _ ht
  refine ⟨fun d => ?_, ⟨hs.pushThunk hc, ?_, ?_⟩, fun _ ha => Except.ok.inj ha ▸ hne⟩
  · have hpush : (s.thunks.setIfInBounds t.index d).push (.pending c) =
        (s.thunks.push (.pending c)).setIfInBounds t.index d := by
      refine Array.ext_getElem? fun i => ?_
      grind
    simp only [newThunk, outcome_modifyGet, Store.setCell, Array.size_setIfInBounds, hpush]
  · simp only [Array.size_push]
    omega
  · simp [Store.cell, Array.getElem?_push, Nat.ne_of_lt ht]

/-- What is made of the steps of evaluation is unaware of what nothing mentions, when the tasks that
it leads to are. -/
theorem Made.unaware {x : Evaluator → Run α} (h : Made (· = t) P x) {again again' : Evaluator}
    (hagain : ∀ task : Task, task.Avoids (· = t) →
      Unaware t (Value.Avoids (· = t)) (again task) (again' task)) :
    Unaware t P (x again) (x again') := by
  induction h with
  | answer h => exact .answer h
  | stop e => exact .stop e
  | look same made ih =>
    intro s s' r hs ht hrun hr
    obtain ⟨hy, hkept, hP⟩ := ih s hs s s' r hs ht hrun hr
    refine ⟨fun c => ?_, hkept, hP⟩
    rw [outcome_get_bind, ← hy c]
    exact congrArg (fun f => outcome (f again') (s.setCell t c))
      (same s (s.setCell t c).thunks s.log hs (s.sameOff_setCell t c))
  | alter same _ made => exact .alter same made
  | log v => exact .log v
  | delay hc => exact .delay hc
  | again h => exact hagain _ h
  | chain first rest ih₁ ih₂ => exact .chain ih₁ fun a ha => ih₂ a ha

/-- Resolving another deferred value. -/
theorem unaware_resolve {u : ThunkRef} (hu : u ≠ t) {again again' : Evaluator}
    (hagain : ∀ task : Task, task.Avoids (· = t) →
      Unaware t (Value.Avoids (· = t)) (again task) (again' task)) :
    Unaware t (Value.Avoids (· = t)) (resolve again u) (resolve again' u) := by
  intro s s' r hs ht hrun hr
  have hother : ∀ d, (s.setCell t d).cell u = s.cell u := Store.cell_setCell_of_ne hu
  have hstate := hs.cell hu
  rcases hcell : s.cell u with c | c | v
  · rw [hcell] at hother hstate
    rcases hcompute : outcome (compute again c) (s.setCell u (.running c)) with ⟨r₁, s₁⟩
    have hr₁ : r₁ ≠ .error .exhausted := by
      rintro rfl
      rw [outcome_resolve_pending hcell hcompute (by simp)] at hrun
      cases hrun
      exact hr rfl
    have hmarked : Kept t s (s.setCell u (.running c)) := (Kept.refl hs).setCell hu hstate
    obtain ⟨hother₁, hkept₁, havoids⟩ := (made_compute hstate).unaware hagain _ s₁ r₁
      hmarked.avoids (hmarked.lt ht) hcompute hr₁
    have hkept := hmarked.trans hkept₁
    have hcompute' : ∀ d, outcome (compute again' c) ((s.setCell t d).setCell u (.running c)) =
        (r₁, s₁.setCell t d) := fun d => by rw [← Store.setCell_comm s hu, hother₁ d]
    -- The computation may answer the value that it is to give, which is circular either way.
    by_cases hself : r₁ = .ok (.thunk u)
    · subst hself
      have hlt : u.index < s₁.thunks.size :=
        Nat.lt_of_lt_of_le (Store.lt_of_cell_pending hcell) hkept.size_le
      rw [outcome_resolve_self hcell hcompute hlt] at hrun
      cases hrun
      refine ⟨fun d => ?_, hkept.setCell hu hstate, fun _ ha => by cases ha⟩
      rw [outcome_resolve_self (hother d) (hcompute' d) (by simpa [Store.setCell] using hlt),
        Store.setCell_comm _ hu]
    · rw [outcome_resolve_pending hcell hcompute hself] at hrun
      cases hrun
      have hleft : (c.outlasts r).Avoids (· = t) := by
        cases r with
        | ok v => exact havoids v rfl
        | error e => exact hstate
      refine ⟨fun d => ?_, hkept.setCell hu hleft, havoids⟩
      rw [outcome_resolve_pending (hother d) (hcompute' d) hself, Store.setCell_comm _ hu]
  · rw [hcell] at hother
    rw [outcome_resolve_running hcell] at hrun
    cases hrun
    exact ⟨fun d => outcome_resolve_running (hother d) _, .refl hs, fun _ ha => by cases ha⟩
  · rw [hcell] at hother hstate
    rw [outcome_resolve_resolved hcell] at hrun
    cases hrun
    refine ⟨fun d => outcome_resolve_resolved (hother d) _, .refl hs, fun _ ha => ?_⟩
    cases ha
    exact hstate

theorem unaware_announce (tell : Event → List Value) {task : Task} (htask : task.Avoids (· = t)) :
    Unaware t (fun _ => True) (announce tell task) (announce tell task) := by
  intro s s' r hs ht hrun _
  have hevent : ∀ d, task.event? (s.setCell t d).thunks = task.event? s.thunks := by
    intro d
    cases task with
    | resolve u =>
      exact congrArg (fun cell : Cell => cell.computation?.map (Event.computation u))
        (Store.cell_setCell_of_ne htask d)
    | handle h b => cases h <;> rfl
    | _ => rfl
  cases hrun
  refine ⟨fun d => ?_, ⟨hs.congr rfl rfl rfl rfl, Nat.le_refl _, rfl⟩, fun _ _ => trivial⟩
  rw [announce, outcome_modify, hevent d]
  rfl

/-- **What nothing mentions does not matter, nor does more fuel.** -/
theorem observed_unaware {env : Env} (henv : env.Avoids (· = t)) (tell : Event → List Value)
    {n m : ℕ} (hle : n ≤ m) {task : Task} (htask : task.Avoids (· = t)) :
    Unaware t (Value.Avoids (· = t)) (observed env tell n task) (observed env tell m task) := by
  induction n generalizing m task with
  | zero =>
    intro s s' r _ _ hrun hr
    cases hrun
    exact absurd rfl hr
  | succ n ih =>
    obtain ⟨m, rfl⟩ : ∃ k, m = k + 1 := ⟨m - 1, by omega⟩
    have hagain : ∀ task : Task, task.Avoids (· = t) →
        Unaware t (Value.Avoids (· = t)) (observed env tell n task) (observed env tell m task) :=
      fun task htask => ih (Nat.le_of_succ_le_succ hle) htask
    rw [observed_succ, observed_succ]
    refine .chain (unaware_announce tell htask) fun _ _ => ?_
    by_cases hresolve : ∃ u, task = .resolve u
    · obtain ⟨u, rfl⟩ := hresolve
      exact unaware_resolve htask hagain
    · exact (made_step henv htask fun u hu => hresolve ⟨u, hu⟩).unaware hagain

/-- What has come to an end with some fuel does so with more. -/
theorem Unaware.same {x y : Run α} (h : Unaware t P x y) {s s' : Store} {r : Except Stop α}
    (hs : s.Avoids (· = t)) (ht : t.index < s.thunks.size) (hrun : outcome x s = (r, s'))
    (hr : r ≠ .error .exhausted) : outcome y s = (r, s') := by
  obtain ⟨hy, hkept, -⟩ := h s s' r hs ht hrun hr
  have hself := hy (s.cell t)
  rwa [Store.setCell_cell, ← hkept.cell, Store.setCell_cell] at hself

theorem Made.unaware_observed {x : Evaluator → Run α} (h : Made (· = t) P x) {env : Env}
    (henv : env.Avoids (· = t)) (tell : Event → List Value) {n m : ℕ} (hle : n ≤ m) :
    Unaware t P (x (observed env tell n)) (x (observed env tell m)) :=
  h.unaware fun _ htask => observed_unaware henv tell hle htask

/-! ### Doing without a deferred value -/

/-- Whether a computation is unaware of a deferred value and does the same without it, when it makes
no other one. The deferred value is the one that was made last: those that are made later would go
by other names. -/
structure Heedless (t : ThunkRef) (P : α → Prop) (x : Run α) : Prop where
  unaware : Unaware t P x x
  without : ∀ (s s' : Store) (d : Cell) (r : Except Stop α), s.thunks.size = t.index →
    s'.thunks.size = t.index → (s.withDeferred d).Avoids (· = t) →
    outcome x (s.withDeferred d) = (r, s'.withDeferred d) → r ≠ .error .exhausted →
    outcome x s = (r, s')

theorem lt_size_withDeferred {s : Store} (hs : s.thunks.size = t.index) (d : Cell) :
    t.index < (s.withDeferred d).thunks.size := by
  simp [Store.withDeferred, hs]

/-- What has been kept and is the last deferred value still has its state. -/
theorem Kept.exists_withDeferred {s u : Store} {d : Cell} (h : Kept t (s.withDeferred d) u)
    (hs : s.thunks.size = t.index) (hu : u.thunks.size ≤ t.index + 1) :
    ∃ s₁ : Store, u = s₁.withDeferred d ∧ s₁.thunks.size = t.index := by
  have hsize : u.thunks.size = t.index + 1 := by
    have hlt := h.lt (lt_size_withDeferred hs d)
    omega
  have hcell : u.cell t = d := by
    rw [h.cell]
    simp [Store.cell, Store.withDeferred, ← hs]
  obtain ⟨s₁, hu, hs₁⟩ := Store.exists_withDeferred hsize
  exact ⟨s₁, hcell ▸ hu, hs₁⟩

theorem Heedless.answer {a : α} (h : P a) : Heedless t P (pure a) where
  unaware := .answer h
  without s s' d r _ _ _ hrun _ := by
    obtain ⟨rfl, hstore⟩ := Prod.mk.inj hrun
    rw [outcome_pure, Store.withDeferred_inj hstore]

theorem Heedless.stop (e : Stop) : Heedless t P (throw e) where
  unaware := .stop e
  without s s' d r _ _ _ hrun _ := by
    obtain ⟨rfl, hstore⟩ := Prod.mk.inj hrun
    rw [outcome_throw, Store.withDeferred_inj hstore]

theorem Heedless.chain {x : Run α} {f : α → Run β} (hx : Heedless t P x)
    (hf : ∀ a, P a → Heedless t Q (f a)) : Heedless t Q (x >>= f) where
  unaware := .chain hx.unaware fun a ha => (hf a ha).unaware
  without s s' d r hs hs' havoids hrun hr := by
    have ht := lt_size_withDeferred hs d
    rcases hfirst : outcome x (s.withDeferred d) with ⟨e | a, u⟩
    · rw [outcome_bind_error hfirst] at hrun
      obtain ⟨rfl, rfl⟩ := Prod.mk.inj hrun
      exact outcome_bind_error (hx.without s s' d _ hs hs' havoids hfirst (by simpa using hr)) _
    · rw [outcome_bind_ok hfirst] at hrun
      obtain ⟨-, hkept, hP⟩ := hx.unaware _ _ _ havoids ht hfirst (by simp)
      have hrest := hf a (hP a rfl)
      -- Nothing is made on the whole way, hence nothing on either part of it.
      obtain ⟨-, hkept', -⟩ := hrest.unaware _ _ _ hkept.avoids (hkept.lt ht) hrun hr
      have hsize := hkept'.size_le
      rw [Store.withDeferred, Array.size_push, hs'] at hsize
      obtain ⟨s₁, rfl, hs₁⟩ := hkept.exists_withDeferred hs hsize
      rw [outcome_bind_ok (hx.without s s₁ d _ hs hs₁ havoids hfirst (by simp))]
      exact hrest.without s₁ s' d r hs₁ hs' hkept.avoids hrun hr

/-- What is made of the steps of evaluation does without what nothing mentions, when the tasks that
it leads to do. -/
theorem Made.heedless {x : Evaluator → Run α} (h : Made (· = t) P x) {again : Evaluator}
    (hagain : ∀ task : Task, task.Avoids (· = t) →
      Heedless t (Value.Avoids (· = t)) (again task)) :
    Heedless t P (x again) := by
  have hunaware : ∀ task : Task, task.Avoids (· = t) →
      Unaware t (Value.Avoids (· = t)) (again task) (again task) :=
    fun task htask => (hagain task htask).unaware
  induction h with
  | answer h => exact .answer h
  | stop e => exact .stop e
  | look same made ih =>
    refine ⟨(Made.look same made).unaware hunaware, fun s s' d r hs hs' havoids hrun hr => ?_⟩
    have hlook := same (s.withDeferred d) s.thunks s.log havoids (Store.sameOff_withDeferred hs d)
    rw [outcome_get_bind] at hrun ⊢
    rw [← (ih (s.withDeferred d) havoids).without s s' d r hs hs' havoids hrun hr, ← hlook]
    rfl
  | @alter _ _ f same _ made =>
    refine ⟨.alter same made, fun s s' d r hs hs' havoids hrun hr => ?_⟩
    obtain ⟨rfl, hstore⟩ := Prod.mk.inj hrun
    have hself : f s = ((f (s.withDeferred d)).1, (f (s.withDeferred d)).2.recast s.thunks s.log) :=
      same (s.withDeferred d) s.thunks s.log
    have hthere : f (s.withDeferred d) =
        ((f (s.withDeferred d)).1,
          (f (s.withDeferred d)).2.recast (s.withDeferred d).thunks s.log) :=
      same (s.withDeferred d) (s.withDeferred d).thunks s.log
    have hwith : (f (s.withDeferred d)).2 =
        ((f (s.withDeferred d)).2.recast s.thunks s.log).withDeferred d := congrArg Prod.snd hthere
    rw [outcome_modifyGet, hself]
    exact congrArg (Prod.mk _) (Store.withDeferred_inj (hwith.symm.trans hstore))
  | log v =>
    refine ⟨.log v, fun s s' d r hs hs' havoids hrun hr => ?_⟩
    obtain ⟨rfl, hstore⟩ := Prod.mk.inj hrun
    exact congrArg (Prod.mk _) (Store.withDeferred_inj (d := d) hstore)
  | delay hc =>
    refine ⟨.delay hc, fun s s' d r hs hs' havoids hrun hr => ?_⟩
    have hsize := congrArg (fun o => o.2.thunks.size) hrun
    simp [newThunk, Store.withDeferred, hs, hs'] at hsize
  | again h => exact hagain _ h
  | chain first rest ih₁ ih₂ => exact .chain ih₁ fun a ha => ih₂ a ha

/-- Whatever state of another deferred value is left behind in the end, nothing has been deferred
before. -/
theorem Heedless.without_setCell {x : Run α} (hx : Heedless t P x) {s s' u : Store} {d e : Cell}
    {r : Except Stop α} {v : ThunkRef} (hs : s.thunks.size = t.index)
    (hs' : s'.thunks.size = t.index) (havoids : (s.withDeferred d).Avoids (· = t))
    (hrun : outcome x (s.withDeferred d) = (r, u)) (hr : r ≠ .error .exhausted)
    (hv : v.index < t.index) (hend : u.setCell v e = s'.withDeferred d) :
    ∃ s₁ : Store, outcome x s = (r, s₁) ∧ s₁.thunks.size = t.index ∧ s' = s₁.setCell v e := by
  obtain ⟨-, hkept, -⟩ := hx.unaware _ _ _ havoids (lt_size_withDeferred hs d) hrun hr
  have hsize : u.thunks.size ≤ t.index + 1 := by
    have hsame := congrArg (fun s : Store => s.thunks.size) hend
    simp only [Store.setCell, Store.withDeferred, Array.size_setIfInBounds, Array.size_push,
      hs'] at hsame
    omega
  obtain ⟨s₁, rfl, hs₁⟩ := hkept.exists_withDeferred hs hsize
  rw [Store.setCell_withDeferred (hs₁ ▸ hv)] at hend
  exact ⟨s₁, hx.without s s₁ d r hs hs₁ havoids hrun hr, hs₁, (Store.withDeferred_inj hend).symm⟩

/-- Resolving another deferred value. -/
theorem heedless_resolve {u : ThunkRef} (hu : u ≠ t) {again : Evaluator}
    (hagain : ∀ task : Task, task.Avoids (· = t) →
      Heedless t (Value.Avoids (· = t)) (again task)) :
    Heedless t (Value.Avoids (· = t)) (resolve again u) := by
  refine ⟨unaware_resolve hu fun task htask => (hagain task htask).unaware, ?_⟩
  intro s s' d r hs hs' havoids hrun hr
  have hindex : u.index ≠ s.thunks.size := hs ▸ ThunkRef.index_injective.ne hu
  have hother : (s.withDeferred d).cell u = s.cell u := Store.cell_withDeferred_of_ne hindex d
  have hstate := havoids.cell hu
  rcases hcell : s.cell u with c | c | v
  · rw [hcell] at hother
    rw [hother] at hstate
    have hlt := Store.lt_of_cell_pending hcell
    rcases hcompute : outcome (compute again c) ((s.withDeferred d).setCell u (.running c)) with
      ⟨r₁, u₁⟩
    have hr₁ : r₁ ≠ .error .exhausted := by
      rintro rfl
      rw [outcome_resolve_pending hother hcompute (by simp)] at hrun
      exact hr (congrArg Prod.fst hrun).symm
    have hmade := (made_compute hstate).heedless hagain
    have hmarked : ((s.withDeferred d).setCell u (.running c)).Avoids (· = t) :=
      havoids.setCell u hstate
    rw [Store.setCell_withDeferred hlt] at hcompute hmarked
    have hsize : (s.setCell u (.running c)).thunks.size = t.index := by
      simpa [Store.setCell] using hs
    have hcompute' := hcompute
    rw [← Store.setCell_withDeferred hlt] at hcompute'
    by_cases hself : r₁ = .ok (.thunk u)
    · subst hself
      obtain ⟨-, hkept, -⟩ :=
        hmade.unaware _ _ _ hmarked (lt_size_withDeferred hsize d) hcompute hr₁
      have hlt₁ : u.index < u₁.thunks.size := by
        have htop := hkept.lt (lt_size_withDeferred hsize d)
        omega
      rw [outcome_resolve_self hother hcompute' hlt₁] at hrun
      obtain ⟨rfl, hstore⟩ := Prod.mk.inj hrun
      obtain ⟨s₁, hcompute₁, hs₁, rfl⟩ :=
        hmade.without_setCell hsize hs' hmarked hcompute hr₁ (hs ▸ hlt) hstore
      exact outcome_resolve_self hcell hcompute₁ (hs₁ ▸ hs ▸ hlt)
    · rw [outcome_resolve_pending hother hcompute' hself] at hrun
      obtain ⟨rfl, hstore⟩ := Prod.mk.inj hrun
      obtain ⟨s₁, hcompute₁, -, rfl⟩ :=
        hmade.without_setCell hsize hs' hmarked hcompute hr₁ (hs ▸ hlt) hstore
      exact outcome_resolve_pending hcell hcompute₁ hself
  · rw [hcell] at hother
    rw [outcome_resolve_running hother] at hrun
    obtain ⟨rfl, hstore⟩ := Prod.mk.inj hrun
    rw [outcome_resolve_running hcell, Store.withDeferred_inj hstore]
  · rw [hcell] at hother
    rw [outcome_resolve_resolved hother] at hrun
    obtain ⟨rfl, hstore⟩ := Prod.mk.inj hrun
    rw [outcome_resolve_resolved hcell, Store.withDeferred_inj hstore]

theorem heedless_announce (tell : Event → List Value) {task : Task} (htask : task.Avoids (· = t)) :
    Heedless t (fun _ => True) (announce tell task) := by
  refine ⟨unaware_announce tell htask, fun s s' d r hs hs' havoids hrun hr => ?_⟩
  have hevent : task.event? (s.withDeferred d).thunks = task.event? s.thunks := by
    cases task with
    | resolve u =>
      have hindex : u.index ≠ s.thunks.size := hs ▸ ThunkRef.index_injective.ne htask
      exact congrArg (fun cell : Cell => cell.computation?.map (Event.computation u))
        (Store.cell_withDeferred_of_ne hindex d)
    | handle h b => cases h <;> rfl
    | _ => rfl
  rw [announce, outcome_modify, hevent] at hrun
  obtain ⟨rfl, hstore⟩ := Prod.mk.inj hrun
  exact congrArg (Prod.mk _) (Store.withDeferred_inj (d := d) hstore)

/-- **What nothing mentions need not be there**, as long as nothing is deferred after it. -/
theorem observed_heedless {env : Env} (henv : env.Avoids (· = t)) (tell : Event → List Value)
    (n : ℕ) {task : Task} (htask : task.Avoids (· = t)) :
    Heedless t (Value.Avoids (· = t)) (observed env tell n task) := by
  induction n generalizing task with
  | zero => exact .stop _
  | succ n ih =>
    rw [observed_succ]
    refine .chain (heedless_announce tell htask) fun _ _ => ?_
    by_cases hresolve : ∃ u, task = .resolve u
    · obtain ⟨u, rfl⟩ := hresolve
      exact heedless_resolve htask fun _ => ih
    · exact (made_step henv htask fun u hu => hresolve ⟨u, hu⟩).heedless fun _ => ih

/-! ### Forcing -/

theorem outcome_observed_force (env : Env) (tell : Event → List Value) (fuel : ℕ)
    (passed : List ThunkRef) (v : Value) :
    observed env tell (fuel + 1) (.force passed v) =
      forceLayers (observed env tell fuel) passed v :=
  observed_quiet (fun _ => rfl) fuel

theorem isDeferred_of_force {env : Env} {tell : Event → List Value} {fuel : ℕ}
    {passed : List ThunkRef} {v w : Value} {s s' : Store}
    (h : outcome (observed env tell fuel (.force passed v)) s = (.ok w, s')) :
    w.isDeferred = false :=
  not_isDeferred_of_forceLayers (observed_zero env tell) (outcome_observed_force env tell) h

/-- It makes no difference to have passed what nothing mentions. -/
theorem outcome_force_passed {env : Env} (henv : env.Avoids (· = t)) (tell : Event → List Value)
    {passed passed' : List ThunkRef} (hpassed : ∀ u, u ≠ t → (u ∈ passed ↔ u ∈ passed'))
    {v : Value} (hv : v.Avoids (· = t)) {s : Store} (hs : s.Avoids (· = t))
    (ht : t.index < s.thunks.size) (fuel : ℕ) :
    outcome (observed env tell fuel (.force passed v)) s =
      outcome (observed env tell fuel (.force passed' v)) s := by
  induction fuel generalizing passed passed' v s with
  | zero => rfl
  | succ fuel ih =>
    rw [outcome_observed_force, outcome_observed_force]
    by_cases hdeferred : v.isDeferred = true
    · obtain ⟨u, rfl⟩ := Value.eq_thunk_of_isDeferred hdeferred
      have hu : ¬ u = t := by simpa using hv
      rw [forceLayers, forceLayers]
      simp only [hpassed u hu]
      split
      · rfl
      · have htask : Task.Avoids (· = t) (.resolve u) := hu
        refine outcome_bind_congr rfl fun w s₁ hrun => ?_
        obtain ⟨-, hkept, hw⟩ := observed_unaware henv tell (Nat.le_refl fuel) htask s s₁ _ hs ht
          hrun (by simp)
        refine ih (fun u' hu' => ?_) (hw w rfl) hkept.avoids (hkept.lt ht)
        simp only [List.mem_cons, hpassed u' hu']
    · have hplain : v.isDeferred = false := by simpa using hdeferred
      rw [forceLayers_of_not_isDeferred hplain, forceLayers_of_not_isDeferred hplain]

end Unaware

end LazyMatch
