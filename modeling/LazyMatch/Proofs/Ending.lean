import LazyMatch.Proofs.Concealment

/-!
# What evaluations come to

Evaluation takes fuel, but what has come to an end does not depend on how much of it there was.
`Ends` leaves fuel out: it says what an evaluation comes to when there is enough. Chains come to an
end when their links do, and a task when the step does that it takes.

The rest is about a deferred value that nothing mentions. Its state makes no difference to what an
evaluation comes to, and so whoever forces it sees its computation as if it stood in its place.

* `Ends.bind`, `Ends.bind_cases`, `Ends.bind_congr`: chains;
* `ends_again_iff`: tasks;
* `Made.ends_setCell`: the state of a deferred value that nothing mentions;
* `Awaits.ends_compute_of_force`, `Awaits.exists_ends_force`: to force such a value is to run its
  computation and to force what comes of that.
-/

namespace LazyMatch

variable {α β : Type}

/-! ### What an evaluation comes to -/

/-- What an evaluation comes to, and the store that it leaves, when there is fuel enough. -/
def Ends (env : Env) (tell : Event → List Value) (x : Evaluator → Run α) (s : Store)
    (r : Except Stop α) (s' : Store) : Prop :=
  r ≠ .error .exhausted ∧ ∃ n, ∀ m ≥ n, outcome (x (observed env tell m)) s = (r, s')

/-- Whether an evaluation that comes to an end with some fuel comes to the same end with more. -/
def Definite (env : Env) (tell : Event → List Value) (x : Evaluator → Run α) (s : Store) : Prop :=
  ∀ n r s', outcome (x (observed env tell n)) s = (r, s') → r ≠ .error .exhausted →
    Ends env tell x s r s'

section Ends

variable {env : Env} {tell : Event → List Value} {x : Evaluator → Run α}
  {f g : α → Evaluator → Run β} {s s' s'' : Store} {r r' : Except Stop α} {q : Except Stop β}
  {task : Task}

theorem Ends.unique (h : Ends env tell x s r s') (h' : Ends env tell x s r' s'') :
    r = r' ∧ s' = s'' := by
  obtain ⟨-, n, hn⟩ := h
  obtain ⟨-, n', hn'⟩ := h'
  exact Prod.ext_iff.mp ((hn (n + n') (by omega)).symm.trans (hn' (n + n') (by omega)))

/-- Computations that start alike come to the same. -/
theorem ends_congr {y : Evaluator → Run α}
    (h : ∀ again, outcome (x again) s = outcome (y again) s) :
    Ends env tell x s r s' ↔ Ends env tell y s r s' := by
  simp only [Ends, h]

theorem Ends.bind {a : α} (hx : Ends env tell x s (.ok a) s') (hf : Ends env tell (f a) s' q s'') :
    Ends env tell (fun again => x again >>= fun a => f a again) s q s'' := by
  obtain ⟨-, n, hn⟩ := hx
  obtain ⟨hq, n', hn'⟩ := hf
  refine ⟨hq, n + n', fun m hm => ?_⟩
  rw [outcome_bind_ok (hn m (by omega)), hn' m (by omega)]

theorem Ends.bind_error {e : Stop} (hx : Ends env tell x s (.error e) s') :
    Ends env tell (fun again => x again >>= fun a => f a again) s (.error e) s' := by
  obtain ⟨hr, n, hn⟩ := hx
  exact ⟨by simpa using hr, n, fun m hm => outcome_bind_error (hn m hm) _⟩

/-- A chain comes to an end when its links do. -/
theorem Ends.bind_cases (hdefinite : Definite env tell x s)
    (h : Ends env tell (fun again => x again >>= fun a => f a again) s q s'') :
    (∃ a s', Ends env tell x s (.ok a) s' ∧ Ends env tell (f a) s' q s'') ∨
      ∃ e, q = .error e ∧ Ends env tell x s (.error e) s'' := by
  obtain ⟨hq, n, hn⟩ := h
  rcases hx : outcome (x (observed env tell n)) s with ⟨e | a, s'⟩
  · have hrun := hn n (Nat.le_refl n)
    rw [outcome_bind_error hx] at hrun
    cases hrun
    exact .inr ⟨e, rfl, hdefinite n _ _ hx (by simpa using hq)⟩
  · -- The first link settles at an amount of fuel of its own. Beyond both, the chain goes on there.
    obtain ⟨-, n', hn'⟩ := hdefinite n _ _ hx (by simp)
    refine .inl ⟨a, s', ⟨by simp, n', hn'⟩, hq, n + n', fun m hm => ?_⟩
    rw [← hn m (by omega), outcome_bind_ok (hn' m (by omega))]

/-- Chains whose later links come to the same do so too. -/
theorem Ends.bind_congr (hdefinite : Definite env tell x s)
    (hfg : ∀ a s', Ends env tell x s (.ok a) s' →
      (Ends env tell (f a) s' q s'' ↔ Ends env tell (g a) s' q s'')) :
    Ends env tell (fun again => x again >>= fun a => f a again) s q s'' ↔
      Ends env tell (fun again => x again >>= fun a => g a again) s q s'' := by
  constructor
  · intro h
    rcases h.bind_cases hdefinite with ⟨a, s', hx, hf⟩ | ⟨e, rfl, hx⟩
    · exact hx.bind ((hfg a s' hx).mp hf)
    · exact hx.bind_error
  · intro h
    rcases h.bind_cases hdefinite with ⟨a, s', hx, hg⟩ | ⟨e, rfl, hx⟩
    · exact hx.bind ((hfg a s' hx).mpr hg)
    · exact hx.bind_error

/-- A task that does something else at once comes to what that comes to. -/
theorem ends_again_iff {y : Evaluator → Run Value} {r : Except Stop Value}
    (h : ∀ n, outcome (observed env tell (n + 1) task) s = outcome (y (observed env tell n)) s) :
    Ends env tell (fun again => again task) s r s' ↔ Ends env tell y s r s' := by
  constructor
  · rintro ⟨hr, n, hn⟩
    exact ⟨hr, n, fun m hm => (h m).symm.trans (hn (m + 1) (by omega))⟩
  · rintro ⟨hr, n, hn⟩
    refine ⟨hr, n + 1, fun m hm => ?_⟩
    obtain ⟨k, rfl⟩ : ∃ k, m = k + 1 := ⟨m - 1, by omega⟩
    exact (h k).trans (hn k (by omega))

theorem Definite.of_again {y : Evaluator → Run Value}
    (h : ∀ n, outcome (observed env tell (n + 1) task) s = outcome (y (observed env tell n)) s)
    (hdefinite : Definite env tell (fun again => again task) s) : Definite env tell y s :=
  fun n r s' hrun hr => (ends_again_iff h).mp (hdefinite (n + 1) r s' ((h n).trans hrun) hr)

theorem Definite.again {y : Evaluator → Run Value}
    (h : ∀ n, outcome (observed env tell (n + 1) task) s = outcome (y (observed env tell n)) s)
    (hdefinite : Definite env tell y s) : Definite env tell (fun again => again task) s := by
  intro n r s' hrun hr
  cases n with
  | zero =>
    cases hrun
    exact absurd rfl hr
  | succ n => exact (ends_again_iff h).mpr (hdefinite n r s' ((h n).symm.trans hrun) hr)

theorem Definite.bind (hx : Definite env tell x s)
    (hf : ∀ a s', Ends env tell x s (.ok a) s' → Definite env tell (f a) s') :
    Definite env tell (fun again => x again >>= fun a => f a again) s := by
  intro n q s'' hrun hq
  rcases houtcome : outcome (x (observed env tell n)) s with ⟨e | a, s'⟩
  · rw [outcome_bind_error houtcome] at hrun
    cases hrun
    exact (hx n _ _ houtcome (by simpa using hq)).bind_error
  · rw [outcome_bind_ok houtcome] at hrun
    have hends := hx n _ _ houtcome (by simp)
    exact hends.bind (hf a s' hends n q s'' hrun hq)

/-- Chains whose first links come to the same do so too. -/
theorem Ends.bind_congr_first {y : Evaluator → Run α} (hx : Definite env tell x s)
    (hy : Definite env tell y s)
    (hxy : ∀ r s', Ends env tell x s r s' ↔ Ends env tell y s r s') :
    Ends env tell (fun again => x again >>= fun a => f a again) s q s'' ↔
      Ends env tell (fun again => y again >>= fun a => f a again) s q s'' := by
  constructor
  · intro h
    rcases h.bind_cases hx with ⟨a, s', hends, hf⟩ | ⟨e, rfl, hends⟩
    · exact ((hxy _ _).mp hends).bind hf
    · exact ((hxy _ _).mp hends).bind_error
  · intro h
    rcases h.bind_cases hy with ⟨a, s', hends, hf⟩ | ⟨e, rfl, hends⟩
    · exact ((hxy _ _).mpr hends).bind hf
    · exact ((hxy _ _).mpr hends).bind_error

end Ends

/-! ### A deferred value that nothing mentions -/

section Unaware

variable {t : ThunkRef} {env : Env} {tell : Event → List Value} {x : Evaluator → Run α}
  {P : α → Prop} {s s' : Store}

theorem Made.definite (h : Made (· = t) P x) (henv : env.Avoids (· = t)) (hs : s.Avoids (· = t))
    (ht : t.index < s.thunks.size) : Definite env tell x s :=
  fun n _ _ hrun hr => ⟨hr, n, fun _ hm => (h.unaware_observed henv tell hm).same hs ht hrun hr⟩

theorem Made.kept {r : Except Stop α} (h : Made (· = t) P x) (henv : env.Avoids (· = t))
    (hs : s.Avoids (· = t)) (ht : t.index < s.thunks.size) (hx : Ends env tell x s r s') :
    Kept t s s' ∧ ∀ a, r = .ok a → P a := by
  obtain ⟨hr, n, hn⟩ := hx
  exact ((h.unaware_observed henv tell (Nat.le_refl n)) s s' r hs ht (hn n (Nat.le_refl n)) hr).2

/-- The state of what nothing mentions makes no difference to what an evaluation comes to. -/
theorem Made.ends_setCell {r : Except Stop α} (h : Made (· = t) P x) (henv : env.Avoids (· = t))
    (hs : s.Avoids (· = t)) (ht : t.index < s.thunks.size) (hx : Ends env tell x s r s')
    (c : Cell) : Ends env tell x (s.setCell t c) r (s'.setCell t c) := by
  obtain ⟨hr, n, hn⟩ := hx
  refine ⟨hr, n, fun m hm => ?_⟩
  exact ((h.unaware_observed henv tell (Nat.le_refl m)) s s' r hs ht (hn m hm) hr).1 c

/-- An evaluation that defers nothing comes to the same without what nothing mentions. -/
theorem Made.ends_without {r : Except Stop α} (h : Made (· = t) P x) (henv : env.Avoids (· = t))
    {d : Cell} (hs : s.thunks.size = t.index) (hs' : s'.thunks.size = t.index)
    (havoids : (s.withDeferred d).Avoids (· = t))
    (hx : Ends env tell x (s.withDeferred d) r (s'.withDeferred d)) : Ends env tell x s r s' := by
  obtain ⟨hr, n, hn⟩ := hx
  refine ⟨hr, n, fun m hm => ?_⟩
  have hheedless := h.heedless fun _ htask => observed_heedless henv tell m htask
  exact hheedless.without s s' d r hs hs' havoids (hn m hm) hr

end Unaware

section Force

variable {env : Env} {tell : Event → List Value} {s s' : Store}

theorem ends_force_of_not_isDeferred {w : Value} (hw : w.isDeferred = false)
    (passed : List ThunkRef) :
    Ends env tell (fun again => again (.force passed w)) s (.ok w) s := by
  refine ⟨by simp, 1, fun m hm => ?_⟩
  obtain ⟨k, rfl⟩ : ∃ k, m = k + 1 := ⟨m - 1, by omega⟩
  show outcome (observed env tell (k + 1) (.force passed w)) s = _
  rw [outcome_observed_force, forceLayers_of_not_isDeferred hw, outcome_pure]

theorem Ends.not_isDeferred {passed : List ThunkRef} {v w : Value}
    (h : Ends env tell (fun again => again (.force passed v)) s (.ok w) s') :
    w.isDeferred = false := by
  obtain ⟨-, n, hn⟩ := h
  exact isDeferred_of_force (hn n (Nat.le_refl n))

end Force

section Pending

variable {t : ThunkRef} {env : Env} {tell : Event → List Value} {s s' : Store} {c : Computation}
  {r : Except Stop Value}

/-- A store with a deferred value that is pending and that nothing mentions. -/
structure Awaits (env : Env) (t : ThunkRef) (c : Computation) (s : Store) : Prop where
  env : env.Avoids (· = t)
  store : s.Avoids (· = t)
  computation : c.Avoids (· = t)
  cell : s.cell t = .pending c

theorem Awaits.lt (h : Awaits env t c s) : t.index < s.thunks.size :=
  Store.lt_of_cell_pending h.cell

theorem Store.setCell_eq_self {d : Cell} (h : s.cell t = d) : s.setCell t d = s := by
  rw [← h, Store.setCell_cell]

variable (hawaits : Awaits env t c s) (htell : ∀ d, tell (.computation t d) = [])
include hawaits htell

/-- Resolving it is resolving it without a word. -/
theorem Awaits.outcome_resolve (n : ℕ) :
    outcome (observed env tell (n + 1) (.resolve t)) s =
      outcome (resolve (observed env tell n) t) s := by
  have hquiet : outcome (announce tell (.resolve t)) s = (.ok ⟨⟩, s) := by
    rw [outcome_announce_resolve, hawaits.cell]
    simp [Cell.computation?, htell, Store.withLog]
  rw [observed_succ, outcome_bind_ok hquiet]
  rfl

theorem Awaits.ends_resolve_step :
    Ends env tell (fun again => again (.resolve t)) s r s' ↔
      Ends env tell (fun again => resolve again t) s r s' :=
  ends_again_iff (hawaits.outcome_resolve htell)

omit htell in
/-- When resolving it comes to an end, its computation has come to an end. -/
theorem Awaits.ends_compute {n : ℕ} (hrun : outcome (resolve (observed env tell n) t) s = (r, s'))
    (hr : r ≠ .error .exhausted) :
    ∃ s₁, Ends env tell (fun again => compute again c) s r s₁ ∧
      s' = s₁.setCell t (c.outlasts r) := by
  have hmade := made_compute hawaits.computation
  rcases hcompute : outcome (compute (observed env tell n) c) (s.setCell t (.running c))
    with ⟨r₁, s₁⟩
  have hmarked : (s.setCell t (.running c)).Avoids (· = t) :=
    hawaits.store.setCell t hawaits.computation
  have hlt : t.index < (s.setCell t (.running c)).thunks.size := by
    simpa [Store.setCell] using hawaits.lt
  have hr₁ : r₁ ≠ .error .exhausted := by
    rintro rfl
    rw [outcome_resolve_pending hawaits.cell hcompute (by simp)] at hrun
    cases hrun
    exact hr rfl
  have hends : Ends env tell (fun again => compute again c) (s.setCell t (.running c)) r₁ s₁ :=
    hmade.definite hawaits.env hmarked hlt n r₁ s₁ hcompute hr₁
  -- What is answered mentions the value no more than the computation does, so it is not circular.
  have hself : r₁ ≠ .ok (.thunk t) := by
    rintro rfl
    exact Value.avoids_thunk.mp ((hmade.kept hawaits.env hmarked hlt hends).2 _ rfl) rfl
  rw [outcome_resolve_pending hawaits.cell hcompute hself] at hrun
  cases hrun
  -- The computation ran while its value was marked as running. Pending, it makes no difference.
  have hpending := hmade.ends_setCell hawaits.env hmarked hlt hends (.pending c)
  rw [Store.setCell_setCell, Store.setCell_eq_self hawaits.cell] at hpending
  exact ⟨_, hpending, by rw [Store.setCell_setCell]⟩

/-- Resolving it comes to what its computation comes to. -/
theorem Awaits.ends_resolve {s₁ : Store}
    (hends : Ends env tell (fun again => compute again c) s r s₁) :
    Ends env tell (fun again => again (.resolve t)) s r (s₁.setCell t (c.outlasts r)) := by
  have hmade := made_compute hawaits.computation
  have hself : r ≠ .ok (.thunk t) := by
    rintro rfl
    exact Value.avoids_thunk.mp
      ((hmade.kept hawaits.env hawaits.store hawaits.lt hends).2 _ rfl) rfl
  obtain ⟨hr, n, hn⟩ := hmade.ends_setCell hawaits.env hawaits.store hawaits.lt hends (.running c)
  rw [hawaits.ends_resolve_step htell]
  refine ⟨hr, n, fun m hm => ?_⟩
  rw [outcome_resolve_pending hawaits.cell (hn m hm) hself, Store.setCell_setCell]

theorem Awaits.definite_resolve : Definite env tell (fun again => again (.resolve t)) s := by
  intro n r s' hrun hr
  cases n with
  | zero =>
    cases hrun
    exact absurd rfl hr
  | succ n =>
    rw [hawaits.outcome_resolve htell] at hrun
    obtain ⟨s₁, hends, rfl⟩ := hawaits.ends_compute hrun hr
    exact hawaits.ends_resolve htell hends

theorem Awaits.ends_resolve_iff :
    Ends env tell (fun again => again (.resolve t)) s r s' ↔
      ∃ s₁, Ends env tell (fun again => compute again c) s r s₁ ∧
        s' = s₁.setCell t (c.outlasts r) := by
  constructor
  · rw [hawaits.ends_resolve_step htell]
    rintro ⟨hr, n, hn⟩
    exact hawaits.ends_compute (hn n (Nat.le_refl n)) hr
  · rintro ⟨s₁, hends, rfl⟩
    exact hawaits.ends_resolve htell hends

omit hawaits htell in
theorem made_again_force {passed : List ThunkRef} {w : Value} (hw : w.Avoids (· = t)) :
    Made (· = t) (Value.Avoids (· = t)) fun again => again (.force passed w) := .again hw

omit hawaits htell in
/-- Forcing a deferred value is resolving it and forcing what it resolves to. -/
theorem outcome_force_thunk_step (n : ℕ) :
    outcome (observed env tell (n + 1) (.force [] (.thunk t))) s =
      outcome (observed env tell n (.resolve t) >>= fun w => observed env tell n (.force [t] w))
        s := by
  rw [outcome_observed_force, forceLayers, if_neg (by simp)]

omit hawaits htell in
theorem ends_force_thunk_iff :
    Ends env tell (fun again => again (.force [] (.thunk t))) s r s' ↔
      Ends env tell (fun again => again (.resolve t) >>= fun w => again (.force [t] w)) s r s' :=
  ends_again_iff outcome_force_thunk_step

omit hawaits htell in
/-- It makes no difference to have passed what nothing mentions. -/
theorem ends_force_passed_iff (henv : env.Avoids (· = t)) (hs : s.Avoids (· = t))
    (ht : t.index < s.thunks.size) {w : Value} (hw : w.Avoids (· = t)) :
    Ends env tell (fun again => again (.force [t] w)) s r s' ↔
      Ends env tell (fun again => again (.force [] w)) s r s' := by
  have hsame : ∀ n, outcome (observed env tell n (.force [t] w)) s =
      outcome (observed env tell n (.force [] w)) s :=
    outcome_force_passed henv tell (fun u hu => by simp [hu]) hw hs ht
  simp only [Ends, hsame]

omit htell in
theorem Awaits.resolved {w : Value} {s₁ : Store}
    (hcompute : Ends env tell (fun again => compute again c) s (.ok w) s₁) :
    w.Avoids (· = t) ∧ (s₁.setCell t (.resolved w)).Avoids (· = t) ∧
      t.index < (s₁.setCell t (.resolved w)).thunks.size := by
  obtain ⟨hkept, havoids⟩ :=
    (made_compute hawaits.computation).kept hawaits.env hawaits.store hawaits.lt hcompute
  have hw := havoids w rfl
  exact ⟨hw, hkept.avoids.setCell t hw, by simpa [Store.setCell] using hkept.lt hawaits.lt⟩

/-- **Forcing it runs its computation and forces what comes of that.** -/
theorem Awaits.ends_compute_of_force
    (h : Ends env tell (fun again => again (.force [] (.thunk t))) s r s') :
    Ends env tell (fun again => compute again c >>= fun w => again (.force [] w)) s r
      (s'.setCell t (.pending c)) := by
  have hmade := made_compute hawaits.computation
  rw [ends_force_thunk_iff] at h
  rcases h.bind_cases (hawaits.definite_resolve htell) with
    ⟨w, s₀, hresolve, hforce⟩ | ⟨e, rfl, hresolve⟩
  · obtain ⟨s₁, hcompute, rfl⟩ := (hawaits.ends_resolve_iff htell).mp hresolve
    obtain ⟨hkept, -⟩ := hmade.kept hawaits.env hawaits.store hawaits.lt hcompute
    obtain ⟨hw, hstore, hlt⟩ := hawaits.resolved hcompute
    -- The next layer is forced where the value is resolved, and comes to the same where it is not.
    rw [Computation.outlasts, ends_force_passed_iff hawaits.env hstore hlt hw] at hforce
    have hother := (made_again_force hw).ends_setCell hawaits.env hstore hlt hforce (.pending c)
    rw [Store.setCell_setCell, Store.setCell_eq_self (hkept.cell.trans hawaits.cell)] at hother
    exact hcompute.bind hother
  · obtain ⟨s₁, hcompute, rfl⟩ := (hawaits.ends_resolve_iff htell).mp hresolve
    obtain ⟨hkept, -⟩ := hmade.kept hawaits.env hawaits.store hawaits.lt hcompute
    rw [Store.setCell_setCell, Store.setCell_eq_self (hkept.cell.trans hawaits.cell)]
    exact hcompute.bind_error

theorem Awaits.exists_ends_force
    (h : Ends env tell (fun again => compute again c >>= fun w => again (.force [] w)) s r s') :
    ∃ d, Ends env tell (fun again => again (.force [] (.thunk t))) s r (s'.setCell t d) := by
  have hmade := made_compute hawaits.computation
  simp only [ends_force_thunk_iff]
  rcases h.bind_cases (hmade.definite hawaits.env hawaits.store hawaits.lt) with
    ⟨w, s₁, hcompute, hforce⟩ | ⟨e, rfl, hcompute⟩
  · obtain ⟨hkept, -⟩ := hmade.kept hawaits.env hawaits.store hawaits.lt hcompute
    obtain ⟨hw, hstore, hlt⟩ := hawaits.resolved hcompute
    have hother := (made_again_force hw).ends_setCell hawaits.env hkept.avoids
      (hkept.lt hawaits.lt) hforce (.resolved w)
    rw [← ends_force_passed_iff hawaits.env hstore hlt hw] at hother
    exact ⟨.resolved w, (hawaits.ends_resolve htell hcompute).bind hother⟩
  · exact ⟨.pending c, (hawaits.ends_resolve htell hcompute).bind_error⟩

theorem Awaits.definite_force :
    Definite env tell (fun again => again (.force [] (.thunk t))) s := by
  have hlayers : Definite env tell
      (fun again => again (.resolve t) >>= fun w => again (.force [t] w)) s := by
    refine .bind (hawaits.definite_resolve htell) fun w s₁ hends => ?_
    obtain ⟨s₀, hcompute, rfl⟩ := (hawaits.ends_resolve_iff htell).mp hends
    obtain ⟨hw, hstore, hlt⟩ := hawaits.resolved hcompute
    exact (made_again_force hw).definite hawaits.env hstore hlt
  exact .again outcome_force_thunk_step hlayers

/-- When resolving it comes to what is not deferred, it is all that forcing it does. -/
theorem Awaits.ends_resolve_iff_force
    (hlayer : ∀ w s₁, Ends env tell (fun again => again (.resolve t)) s (.ok w) s₁ →
      w.isDeferred = false) :
    Ends env tell (fun again => again (.resolve t)) s r s' ↔
      Ends env tell (fun again => again (.force [] (.thunk t))) s r s' := by
  rw [ends_force_thunk_iff]
  constructor
  · intro hends
    cases r with
    | error e => exact hends.bind_error
    | ok w =>
      have hforce : Ends env tell (fun again => again (.force [t] w)) s' (.ok w) s' :=
        ends_force_of_not_isDeferred (hlayer w s' hends) [t]
      exact hends.bind (f := fun w again => again (.force [t] w)) hforce
  · intro hends
    rcases hends.bind_cases (hawaits.definite_resolve htell) with
      ⟨w, s₁, hresolve, hforce⟩ | ⟨e, rfl, hresolve⟩
    · obtain ⟨rfl, rfl⟩ :=
        hforce.unique (ends_force_of_not_isDeferred (hlayer w s₁ hresolve) [t])
      exact hresolve
    · exact hresolve

end Pending

end LazyMatch
