import LazyMatch.Proofs.Fuel
import LazyMatch.Proofs.History
import Mathlib.Logic.Relation

/-!
# The layers of a deferred value

A deferred value that is resolved stands for another value, which may be deferred in turn. Two loops
go through such layers. Forcing computes the next layer where it is missing, and fails when it comes
back to a layer that it has passed. Describing a value that no rule matches only looks. Both keep a
list of what they have passed, and `Store.Walks` is the way that they go together: through layers
that are resolved and were not passed before. There are only so many of them, so the way ends
somewhere (`Store.exists_walk`), and what forcing comes to is decided there
(`Store.Standing.of_walk`).

* `forcing_settles_layers`: what forcing comes to where all layers are resolved, and that a value
  that was forced stays so;
* `summary_in_step`: a value is described by what forcing it would answer, or as deferred.
-/

namespace LazyMatch

variable {α β : Type}

/-! ### Layers -/

/-- Whether a value is deferred and has been resolved to another one. -/
def Store.Layer (s : Store) (v w : Value) : Prop := ∃ t, v = .thunk t ∧ s.cell t = .resolved w

/-- Whether a value leads to another one through layers that are resolved. -/
def Store.Unwraps (s : Store) : Value → Value → Prop := Relation.ReflTransGen s.Layer

/-- Whether the layers of a value come back to one of them. -/
def Store.Rings (s : Store) (v : Value) : Prop :=
  ∃ t, s.Unwraps v (.thunk t) ∧ Relation.TransGen s.Layer (.thunk t) (.thunk t)

section Layers

variable {s s' : Store} {t : ThunkRef} {v w w' : Value}

theorem layer_thunk_iff : s.Layer (.thunk t) w ↔ s.cell t = .resolved w := by
  constructor
  · rintro ⟨u, hu, hcell⟩
    cases hu
    exact hcell
  · intro hcell
    exact ⟨t, rfl, hcell⟩

theorem layer_rightUnique (s : Store) : Relator.RightUnique s.Layer := by
  rintro v w w' ⟨t, rfl, hcell⟩ hlayer
  exact Cell.resolved.inj (hcell.symm.trans (layer_thunk_iff.mp hlayer))

theorem not_layer_of_not_isDeferred (hv : v.isDeferred = false) : ¬ s.Layer v w := by
  rintro ⟨t, rfl, -⟩
  cases hv

/-- Whatever is on the way to a value that is not deferred leads there. -/
theorem Store.Unwraps.of_end (h : s.Unwraps v w) (hw : w.isDeferred = false)
    (h' : s.Unwraps v w') : s.Unwraps w' w := by
  rcases Relation.ReflTransGen.total_of_right_unique (layer_rightUnique s) h h' with hback | honward
  · rcases hback.cases_head with rfl | ⟨u, hlayer, -⟩
    · exact .refl
    · exact absurd hlayer (not_layer_of_not_isDeferred hw)
  · exact honward

/-- All layers of a value that leads to one that is not deferred are resolved. -/
theorem Store.Unwraps.resolved (h : s.Unwraps v w) (hw : w.isDeferred = false)
    (ht : s.Unwraps v (.thunk t)) : ∃ u, s.cell t = .resolved u := by
  rcases (h.of_end hw ht).cases_head with rfl | ⟨u, hlayer, -⟩
  · cases hw
  · exact ⟨u, layer_thunk_iff.mp hlayer⟩

theorem Store.Unwraps.unique (h : s.Unwraps v w) (hw : w.isDeferred = false)
    (h' : s.Unwraps v w') (hw' : w'.isDeferred = false) : w = w' := by
  rcases (h.of_end hw h').cases_head with heq | ⟨u, hlayer, -⟩
  · exact heq.symm
  · exact absurd hlayer (not_layer_of_not_isDeferred hw')

/-- The layers on the way to a value that is not deferred do not come around. -/
theorem Store.Unwraps.not_transGen (h : s.Unwraps v w) (hw : w.isDeferred = false) :
    ¬ Relation.TransGen s.Layer v v := by
  induction h using Relation.ReflTransGen.head_induction_on with
  | refl =>
    intro hring
    obtain ⟨u, hlayer, -⟩ := Relation.TransGen.head'_iff.mp hring
    exact not_layer_of_not_isDeferred hw hlayer
  | head hlayer _ ih =>
    intro hring
    obtain ⟨u, hlayer', hback⟩ := Relation.TransGen.head'_iff.mp hring
    obtain rfl := layer_rightUnique s hlayer hlayer'
    exact ih (Relation.TransGen.tail' hback hlayer)

theorem Store.Unwraps.not_rings (h : s.Unwraps v w) (hw : w.isDeferred = false) : ¬ s.Rings v := by
  rintro ⟨t, ht, hring⟩
  exact (h.of_end hw ht).not_transGen hw hring

/-- In a ring every layer is deferred. -/
theorem exists_thunk_of_ring (h : Relation.TransGen s.Layer (.thunk t) (.thunk t)) :
    ∃ u, s.cell t = .resolved (.thunk u) := by
  obtain ⟨w, hlayer, hback⟩ := Relation.TransGen.head'_iff.mp h
  rcases hback.cases_head with rfl | ⟨x, ⟨u, rfl, -⟩, -⟩
  · exact ⟨t, layer_thunk_iff.mp hlayer⟩
  · exact ⟨u, layer_thunk_iff.mp hlayer⟩

/-- Layers stay. -/
theorem Store.Unwraps.mono (h : s.Unwraps v w) (hs : Matures s.thunks s'.thunks) :
    s'.Unwraps v w := by
  refine Relation.ReflTransGen.mono ?_ v w h
  rintro _ u ⟨t, rfl, hcell⟩
  exact ⟨t, rfl, hs.resolved (Store.lt_of_cell_resolved hcell) hcell⟩

end Layers

/-! ### The way through the layers -/

/-- The way that both loops go, from a value with some layers passed to another one with more. -/
inductive Store.Walks (s : Store) : List ThunkRef → Value → List ThunkRef → Value → Prop where
  | rest (passed : List ThunkRef) (v : Value) : s.Walks passed v passed v
  | layer {t : ThunkRef} {v w : Value} {passed passed' : List ThunkRef} (ht : t ∉ passed)
      (hcell : s.cell t = .resolved v) (h : s.Walks (t :: passed) v passed' w) :
      s.Walks passed (.thunk t) passed' w

/-- Whether the way ends at a value: it is not deferred, has been passed, or is not resolved. -/
def Store.Halts (s : Store) (passed : List ThunkRef) (v : Value) : Prop :=
  ∀ t, v = .thunk t → t ∈ passed ∨ ∀ w, s.cell t ≠ .resolved w

section Walks

variable {s : Store} {passed passed' : List ThunkRef} {v w : Value}

theorem Store.Walks.unwraps (h : s.Walks passed v passed' w) : s.Unwraps v w := by
  induction h with
  | rest => exact .refl
  | layer _ hcell _ ih => exact .head (layer_thunk_iff.mpr hcell) ih

/-- All that has been passed leads to where the way has come. -/
theorem Store.Walks.transGen_of_mem (h : s.Walks passed v passed' w)
    (hpassed : ∀ t ∈ passed, Relation.TransGen s.Layer (.thunk t) v) :
    ∀ t ∈ passed', Relation.TransGen s.Layer (.thunk t) w := by
  induction h with
  | rest => exact hpassed
  | @layer t v w passed passed' _ hcell _ ih =>
    have hlayer : s.Layer (.thunk t) v := layer_thunk_iff.mpr hcell
    refine ih (List.forall_mem_cons.mpr ⟨.single hlayer, fun u hu => ?_⟩)
    exact (hpassed u hu).tail hlayer

/-- Looking through layers goes the way to its end, if it may look through more of them than are
left. -/
theorem walks_follow (n : ℕ) (hnodup : passed.Nodup) (hin : ∀ t ∈ passed, t.index < s.thunks.size)
    (hn : s.thunks.size < n + passed.length) (v : Value) :
    ∃ passed', s.Walks passed v passed' (s.follow n passed v) ∧
      s.Halts passed' (s.follow n passed v) := by
  induction n generalizing passed v with
  | zero =>
    have hle := length_le_size hnodup hin
    omega
  | succ n ih =>
    cases hv : v.isDeferred with
    | false =>
      rw [follow_of_not_isDeferred hv]
      refine ⟨passed, .rest passed v, ?_⟩
      rintro t rfl
      cases hv
    | true =>
      obtain ⟨t, rfl⟩ := Value.eq_thunk_of_isDeferred hv
      by_cases ht : t ∈ passed
      · rw [Store.follow, if_pos ht]
        refine ⟨passed, .rest passed _, ?_⟩
        rintro _ ⟨⟩
        exact .inl ht
      rw [Store.follow, if_neg ht]
      rcases hcell : s.cell t with c | c | w
      · refine ⟨passed, .rest passed _, ?_⟩
        rintro _ ⟨⟩
        exact .inr (by simp [hcell])
      · refine ⟨passed, .rest passed _, ?_⟩
        rintro _ ⟨⟩
        exact .inr (by simp [hcell])
      · have hlt := Store.lt_of_cell_resolved hcell
        obtain ⟨passed', hwalk, hhalts⟩ := ih (List.nodup_cons.mpr ⟨ht, hnodup⟩)
          (List.forall_mem_cons.mpr ⟨hlt, hin⟩) (by simp only [List.length_cons]; omega) w
        exact ⟨passed', .layer ht hcell hwalk, hhalts⟩

/-- The way through the layers of a value ends, where looking through them ends. -/
theorem Store.exists_walk (s : Store) (v : Value) :
    ∃ passed, s.Walks [] v passed (s.follow (s.thunks.size + 1) [] v) ∧
      s.Halts passed (s.follow (s.thunks.size + 1) [] v) :=
  walks_follow _ List.nodup_nil (by simp) (by simp) v

end Walks

/-! ### Forcing on the way -/

/-- What is said when the layers of a deferred value come around. -/
def ringStop : Stop := .fault (.circularForce "<Thunk: another deferred value>")

section Ends

variable {env : Env} {tell : Event → List Value} {x : Evaluator → Run α}
  {f : α → Evaluator → Run β} {s s' s'' : Store} {q : Except Stop β} {r : Except Stop Value}
  {passed passed' : List ThunkRef} {t : ThunkRef} {c : Computation} {v w : Value}

/-- A chain whose first link answers comes to what the rest comes to. -/
theorem Ends.bind_iff {a : α} (hx : Ends env tell x s (.ok a) s') :
    Ends env tell (fun again => x again >>= fun a => f a again) s q s'' ↔
      Ends env tell (f a) s' q s'' := by
  constructor
  · obtain ⟨-, n, hn⟩ := hx
    rintro ⟨hq, n', hn'⟩
    refine ⟨hq, n + n', fun m hm => ?_⟩
    rw [← hn' m (by omega), outcome_bind_ok (hn m (by omega))]
  · exact hx.bind

/-- Of what is not pending there is nothing to tell. -/
theorem ends_resolve_iff_of_computation?_eq_none (h : (s.cell t).computation? = none) :
    Ends env tell (fun again => again (.resolve t)) s r s' ↔
      Ends env tell (fun again => resolve again t) s r s' := by
  refine ends_again_iff fun n => ?_
  have hquiet : outcome (announce tell (.resolve t)) s = (.ok ⟨⟩, s) := by
    rw [outcome_announce_resolve, h]
    simp [Store.withLog]
  rw [observed_succ, outcome_bind_ok hquiet]
  rfl

/-- Resolving what is resolved runs nothing. -/
theorem ends_resolve_of_resolved (hcell : s.cell t = .resolved v) :
    Ends env tell (fun again => again (.resolve t)) s (.ok v) s := by
  rw [ends_resolve_iff_of_computation?_eq_none (by rw [hcell]; rfl)]
  exact ⟨by simp, 0, fun _ _ => outcome_resolve_resolved hcell _⟩

theorem ends_resolve_of_running (hcell : s.cell t = .running c) :
    Ends env tell (fun again => again (.resolve t)) s (.error (circularStop c)) s := by
  rw [ends_resolve_iff_of_computation?_eq_none (by rw [hcell]; rfl)]
  exact ⟨by simp [circularStop], 0, fun _ _ => outcome_resolve_running hcell _⟩

theorem ends_force_thunk_of_not_mem (ht : t ∉ passed) :
    Ends env tell (fun again => again (.force passed (.thunk t))) s r s' ↔
      Ends env tell (fun again => again (.resolve t) >>= fun w => again (.force (t :: passed) w))
        s r s' :=
  ends_again_iff fun n => by rw [outcome_observed_force, forceLayers, if_neg ht]

/-- Forcing goes the way. -/
theorem Store.Walks.ends_force_iff (h : s.Walks passed v passed' w) :
    Ends env tell (fun again => again (.force passed v)) s r s' ↔
      Ends env tell (fun again => again (.force passed' w)) s r s' := by
  induction h with
  | rest => rfl
  | layer ht hcell _ ih =>
    rw [ends_force_thunk_of_not_mem ht, ← ih]
    exact (ends_resolve_of_resolved hcell).bind_iff (f := fun w again => again (.force _ w))

/-- A layer that has been passed is circular. -/
theorem ends_force_of_mem (ht : t ∈ passed) {u : ThunkRef}
    (hcell : s.cell t = .resolved (.thunk u)) :
    Ends env tell (fun again => again (.force passed (.thunk t))) s (.error ringStop) s := by
  have hshown : s.shown (.thunk t) = .ok "<Thunk: another deferred value>" := by
    rw [Store.shown, Store.shownWith, hcell]
  have hraise : Ends env tell (fun _ => (throw ringStop : Run Value)) s (.error ringStop) s :=
    ⟨by simp [ringStop], 0, fun _ _ => rfl⟩
  refine (ends_again_iff (y := fun _ => throw ringStop) fun n => ?_).mpr hraise
  rw [outcome_observed_force, forceLayers, if_pos ht, outcome_get_bind, hshown]
  rfl

/-- A layer whose computation is under way is circular. -/
theorem ends_force_of_running (ht : t ∉ passed) (hcell : s.cell t = .running c) :
    Ends env tell (fun again => again (.force passed (.thunk t))) s
      (.error (circularStop c)) s := by
  rw [ends_force_thunk_of_not_mem ht]
  exact Ends.bind_error (f := fun w again => again (.force _ w)) (ends_resolve_of_running hcell)

end Ends

/-! ### Records and what an observer has noted down stay -/

/-- Whether there are no fewer records, and nothing has been taken off the log. -/
structure Store.PersistsIn (s s' : Store) : Prop where
  records : s.records.size ≤ s'.records.size
  log : s.log.size ≤ s'.log.size

theorem Store.PersistsIn.refl (s : Store) : s.PersistsIn s := ⟨Nat.le_refl _, Nat.le_refl _⟩

theorem Store.PersistsIn.trans {s s' s'' : Store} (h : s.PersistsIn s') (h' : s'.PersistsIn s'') :
    s.PersistsIn s'' := ⟨Nat.le_trans h.records h'.records, Nat.le_trans h.log h'.log⟩

/-- Whether a computation does away with nothing, and its answers are as they should be. -/
def Lasting (P : α → Prop) (x : Run α) : Prop :=
  ∀ (s s' : Store) (r : Except Stop α), outcome x s = (r, s') →
    s.PersistsIn s' ∧ ∀ a, r = .ok a → P a

section Lasting

variable {P : α → Prop} {Q : β → Prop} {again : Evaluator}

theorem Lasting.chain {x : Run α} {f : α → Run β} (hx : Lasting P x)
    (hf : ∀ a, P a → Lasting Q (f a)) : Lasting Q (x >>= f) := by
  intro s s' r hrun
  rcases houtcome : outcome x s with ⟨e | a, s₁⟩
  · rw [outcome_bind_error houtcome] at hrun
    cases hrun
    exact ⟨(hx s s' _ houtcome).1, fun _ ha => by cases ha⟩
  · rw [outcome_bind_ok houtcome] at hrun
    obtain ⟨hfirst, hP⟩ := hx s s₁ _ houtcome
    obtain ⟨hrest, hQ⟩ := hf a (hP a rfl) s₁ s' r hrun
    exact ⟨hfirst.trans hrest, hQ⟩

/-- What is made of the steps of evaluation does away with nothing when the tasks that it leads to
do not. -/
theorem Made.lasting {x : Evaluator → Run α} (h : Made (fun _ => False) P x)
    (hagain : ∀ task, Lasting (Value.Avoids fun _ => False) (again task)) :
    Lasting P (x again) := by
  induction h with
  | answer h =>
    intro s s' r hrun
    cases hrun
    exact ⟨.refl s, fun _ ha => Except.ok.inj ha ▸ h⟩
  | stop e =>
    intro s s' r hrun
    cases hrun
    exact ⟨.refl s, fun _ ha => by cases ha⟩
  | look same made ih => exact fun s s' r hrun => ih s s.avoids_none s s' r hrun
  | @alter _ _ f same grows made =>
    intro s s' r hrun
    cases hrun
    have hself : (f s).2 = (f s).2.recast s.thunks s.log :=
      congrArg Prod.snd (same s s.thunks s.log)
    have hlog : (f s).2.log = s.log := (congrArg Store.log hself).trans rfl
    exact ⟨⟨grows s, hlog ▸ Nat.le_refl _⟩, fun _ ha => Except.ok.inj ha ▸ (made s s.avoids_none).1⟩
  | log v =>
    intro s s' r hrun
    cases hrun
    exact ⟨⟨Nat.le_refl _, by simp⟩, fun _ _ => trivial⟩
  | delay hc =>
    intro s s' r hrun
    cases hrun
    exact ⟨⟨Nat.le_refl _, Nat.le_refl _⟩, fun _ _ => id⟩
  | again h => exact hagain _
  | chain first rest ih₁ ih₂ => exact .chain ih₁ fun a ha => ih₂ a ha

theorem lasting_resolve (hagain : ∀ task, Lasting (Value.Avoids fun _ => False) (again task))
    (t : ThunkRef) : Lasting (Value.Avoids fun _ => False) (resolve again t) := by
  intro s s' r hrun
  refine ⟨?_, fun v _ => v.avoids_none⟩
  rcases hcell : s.cell t with c | c | v
  · rcases hcompute : outcome (compute again c) (s.setCell t (.running c)) with ⟨r₁, s₁⟩
    -- The states of deferred values are neither records nor on the log.
    obtain ⟨⟨hrecords, hlog⟩, -⟩ := (made_compute c.avoids_none).lasting hagain _ _ _ hcompute
    by_cases hself : r₁ = .ok (.thunk t)
    · subst hself
      obtain ⟨e, he⟩ := exists_outcome_resolve_self hcell hcompute
      cases he.symm.trans hrun
      exact ⟨hrecords, hlog⟩
    · rw [outcome_resolve_pending hcell hcompute hself] at hrun
      cases hrun
      exact ⟨hrecords, hlog⟩
  · rw [outcome_resolve_running hcell] at hrun
    cases hrun
    exact .refl s
  · rw [outcome_resolve_resolved hcell] at hrun
    cases hrun
    exact .refl s

theorem lasting_step (env : Env)
    (hagain : ∀ task, Lasting (Value.Avoids fun _ => False) (again task)) (task : Task) :
    Lasting (Value.Avoids fun _ => False) (step env again task) := by
  by_cases hresolve : ∃ t, task = .resolve t
  · obtain ⟨t, rfl⟩ := hresolve
    exact lasting_resolve hagain t
  · exact (made_step env.avoids_none task.avoids_none fun t ht => hresolve ⟨t, ht⟩).lasting hagain

theorem lasting_observed (env : Env) (tell : Event → List Value) (n : ℕ) (task : Task) :
    Lasting (Value.Avoids fun _ => False) (observed env tell n task) := by
  induction n generalizing task with
  | zero =>
    intro s s' r hrun
    cases hrun
    exact ⟨.refl s, fun _ ha => by cases ha⟩
  | succ n ih =>
    rw [observed_succ]
    refine Lasting.chain (P := fun _ => True) ?_ fun _ _ => lasting_step env ih task
    intro s s' r hrun
    cases hrun
    refine ⟨⟨Nat.le_refl _, ?_⟩, fun _ _ => trivial⟩
    show s.log.size ≤ (s.log ++ (task.event? s.thunks).elim [] tell).size
    rw [← Array.length_toList, ← Array.length_toList, Array.toList_appendList]
    simp

theorem Ends.persists {env : Env} {tell : Event → List Value} {task : Task} {s s' : Store}
    {r : Except Stop Value} (h : Ends env tell (fun again => again task) s r s') :
    s.PersistsIn s' := by
  obtain ⟨-, n, hn⟩ := h
  exact (lasting_observed env tell n task s s' r (hn n (Nat.le_refl n))).1

end Lasting

section Pending

variable {env : Env} {s s' : Store} {t : ThunkRef} {c : Computation} {r : Except Stop Value}
  {passed : List ThunkRef}

/-- An observer with something to say on every occasion has noted down that a computation ran. -/
theorem lt_log_of_resolve (hcell : s.cell t = .pending c)
    (h : Ends env (fun _ => [.null]) (fun again => again (.resolve t)) s r s') :
    s.log.size < s'.log.size := by
  obtain ⟨-, n, hn⟩ := h
  have hrun : outcome (observed env (fun _ => [.null]) (n + 1) (.resolve t)) s = (r, s') :=
    hn (n + 1) (Nat.le_succ n)
  have htold : outcome (announce (fun _ => [.null]) (.resolve t)) s =
      (.ok ⟨⟩, s.withLog (s.log ++ [Value.null])) := by
    rw [outcome_announce_resolve, hcell]
    rfl
  rw [observed_succ, outcome_bind_ok htold] at hrun
  have hkept := (lasting_step env (lasting_observed env _ n) _ _ _ _ hrun).1.log
  simpa [Store.withLog, Nat.succ_le_iff] using hkept

theorem lt_log_of_force (ht : t ∉ passed) (hcell : s.cell t = .pending c)
    (h : Ends env (fun _ => [.null]) (fun again => again (.force passed (.thunk t))) s r s') :
    s.log.size < s'.log.size := by
  rw [ends_force_thunk_of_not_mem ht] at h
  rcases h.bind_cases (f := fun w again => again (.force _ w)) definite_again with
    ⟨w, s₁, hresolve, hforce⟩ | ⟨e, -, hresolve⟩
  · exact Nat.lt_of_lt_of_le (lt_log_of_resolve hcell hresolve) hforce.persists.log
  · exact lt_log_of_resolve hcell hresolve

end Pending

/-! ### Where a value stands -/

/-- Whether forcing a value comes to an end at once: nothing is run that an observer would be told
of, and the store stays as it is. -/
def Immediate (env : Env) (s : Store) (v : Value) (r : Except Stop Value) : Prop :=
  ∀ tell, Ends env tell (fun again => again (.force [] v)) s r s

/-- What forcing a value comes to, by what there is at the end of the way through its layers. -/
inductive Store.Standing (env : Env) (s : Store) (v : Value) : Value → Prop where
  | plain {w : Value} (hunwraps : s.Unwraps v w) (hw : w.isDeferred = false)
      (hforce : Immediate env s v (.ok w)) : s.Standing env v w
  | ring {t : ThunkRef} (hrings : s.Rings v) (hforce : Immediate env s v (.error ringStop)) :
      s.Standing env v (.thunk t)
  | running {t : ThunkRef} {c : Computation} (hunwraps : s.Unwraps v (.thunk t))
      (hcell : s.cell t = .running c) (hforce : Immediate env s v (.error (circularStop c))) :
      s.Standing env v (.thunk t)
  | pending {t : ThunkRef} {c : Computation} (hunwraps : s.Unwraps v (.thunk t))
      (hcell : s.cell t = .pending c) (hforce : ∀ r, ¬ Immediate env s v r) :
      s.Standing env v (.thunk t)

section Standing

variable {env : Env} {s s' : Store} {t : ThunkRef} {passed : List ThunkRef} {v w : Value}
  {r r' : Except Stop Value}

theorem Immediate.unique (h : Immediate env s v r) (h' : Immediate env s v r') : r = r' :=
  ((h fun _ => []).unique (h' fun _ => [])).1

/-- What forcing comes to is decided where the way ends. -/
theorem Store.Standing.of_walk (hwalk : s.Walks [] v passed w) (hhalts : s.Halts passed w) :
    s.Standing env v w := by
  have hends : ∀ {r}, (∀ tell, Ends env tell (fun again => again (.force passed w)) s r s) →
      Immediate env s v r := fun h tell => hwalk.ends_force_iff.mpr (h tell)
  have hunwraps := hwalk.unwraps
  cases hw : w.isDeferred with
  | false => exact .plain hunwraps hw (hends fun tell => ends_force_of_not_isDeferred hw passed)
  | true =>
    obtain ⟨t, rfl⟩ := Value.eq_thunk_of_isDeferred hw
    by_cases ht : t ∈ passed
    · have hring := hwalk.transGen_of_mem (by simp) t ht
      obtain ⟨u, hcell⟩ := exists_thunk_of_ring hring
      exact .ring ⟨t, hunwraps, hring⟩ (hends fun tell => ends_force_of_mem ht hcell)
    · rcases hcell : s.cell t with c | c | u
      · refine .pending hunwraps hcell fun r hforce => ?_
        have hrun := hwalk.ends_force_iff.mp (hforce fun _ => [.null])
        exact Nat.lt_irrefl _ (lt_log_of_force ht hcell hrun)
      · exact .running hunwraps hcell (hends fun tell => ends_force_of_running ht hcell)
      · exact absurd hcell ((hhalts t rfl).resolve_left ht u)

/-- Where a value stands is found by looking through its layers. -/
theorem standing_follow (env : Env) (s : Store) (v : Value) :
    s.Standing env v (s.follow (s.thunks.size + 1) [] v) := by
  obtain ⟨passed, hwalk, hhalts⟩ := s.exists_walk v
  exact .of_walk hwalk hhalts

/-- Forcing a value with layers that lead to one that is not deferred answers that. -/
theorem Store.Unwraps.immediate (h : s.Unwraps v w) (hw : w.isDeferred = false) (env : Env) :
    Immediate env s v (.ok w) := by
  obtain ⟨u, hstanding⟩ : ∃ u, s.Standing env v u := ⟨_, standing_follow env s v⟩
  cases hstanding with
  | plain hunwraps hu hforce =>
    obtain rfl := h.unique hw hunwraps hu
    exact hforce
  | ring hrings _ => exact absurd hrings (h.not_rings hw)
  | running hunwraps hcell _ =>
    obtain ⟨u, hcell'⟩ := h.resolved hw hunwraps
    cases hcell.symm.trans hcell'
  | pending hunwraps hcell _ =>
    obtain ⟨u, hcell'⟩ := h.resolved hw hunwraps
    cases hcell.symm.trans hcell'

/-- Resolving leaves a deferred value resolved to what it answers. -/
theorem cell_of_resolve {n : ℕ} (h : outcome (perform env n (.resolve t)) s = (.ok v, s')) :
    s'.cell t = .resolved v := by
  have hsize := (matures_of_outcome h).1
  cases n with
  | zero => cases h
  | succ n =>
    rw [perform, step] at h
    rcases hcell : s.cell t with c | c | u
    · rcases hcompute : outcome (compute (perform env n) c) (s.setCell t (.running c)) with ⟨r, s₁⟩
      have hlt := Nat.lt_of_lt_of_le (Store.lt_of_cell_pending hcell) hsize
      by_cases hself : r = .ok (.thunk t)
      · subst hself
        obtain ⟨e, he⟩ := exists_outcome_resolve_self hcell hcompute
        cases he.symm.trans h
      · rw [outcome_resolve_pending hcell hcompute hself] at h
        cases h
        exact Store.cell_setCell_self (by simpa [Store.setCell] using hlt) _
    · rw [outcome_resolve_running hcell] at h
      cases h
    · rw [outcome_resolve_resolved hcell] at h
      cases h
      exact hcell

/-- Forcing leaves a value with layers that lead to what it answers. -/
theorem unwraps_of_outcome {n : ℕ}
    (h : outcome (perform env n (.force passed v)) s = (.ok w, s')) : s'.Unwraps v w := by
  induction n generalizing passed v s with
  | zero => cases h
  | succ n ih =>
    rw [perform, step] at h
    cases hv : v.isDeferred with
    | false =>
      rw [forceLayers_of_not_isDeferred hv] at h
      cases h
      exact .refl
    | true =>
      obtain ⟨t, rfl⟩ := Value.eq_thunk_of_isDeferred hv
      rw [forceLayers] at h
      split at h
      · rw [outcome_get_bind] at h
        obtain ⟨shown, s₁, -, hraise⟩ := outcome_bind_eq_ok h
        cases hraise
      · obtain ⟨u, s₁, hresolve, hforce⟩ := outcome_bind_eq_ok h
        have hcell := cell_of_resolve hresolve
        have hlt := Store.lt_of_cell_resolved hcell
        exact .head ⟨t, rfl, (matures_of_outcome hforce).resolved hlt hcell⟩ (ih hforce)

theorem Ends.unwraps
    (h : Ends env (fun _ => []) (fun again => again (.force passed v)) s (.ok w) s') :
    s'.Unwraps v w := by
  obtain ⟨-, n, hn⟩ := h
  have hrun := hn n (Nat.le_refl n)
  rw [observed_silent] at hrun
  exact unwraps_of_outcome hrun

/-- Where all layers are resolved, forcing answers what they lead to, or they come around. -/
theorem exists_immediate_of_resolved (env : Env)
    (h : ∀ t, s.Unwraps v (.thunk t) → ∃ w, s.cell t = .resolved w) :
    (∃ w, Immediate env s v (.ok w) ∧ s.Unwraps v w ∧ w.isDeferred = false) ∨
      Immediate env s v (.error ringStop) ∧ s.Rings v := by
  obtain ⟨u, hstanding⟩ : ∃ u, s.Standing env v u := ⟨_, standing_follow env s v⟩
  cases hstanding with
  | plain hunwraps hw hforce => exact .inl ⟨_, hforce, hunwraps, hw⟩
  | ring hrings hforce => exact .inr ⟨hforce, hrings⟩
  | running hunwraps hcell _ =>
    obtain ⟨u, hcell'⟩ := h _ hunwraps
    cases hcell.symm.trans hcell'
  | pending hunwraps hcell _ =>
    obtain ⟨u, hcell'⟩ := h _ hunwraps
    cases hcell.symm.trans hcell'

/-- What has been forced is answered at once from then on. -/
theorem Store.Unwraps.immediate_later (h : s.Unwraps v w) (hw : w.isDeferred = false)
    (hs : Matures s.thunks s'.thunks) (env : Env) : Immediate env s' v (.ok w) :=
  (h.mono hs).immediate hw env

end Standing

/-- **Forcing goes through all layers.** Where all layers of a value are resolved, forcing it runs
nothing, answers what the layers lead to, and fails if and only if they come around. Wherever it
answers, all layers are resolved, and forcing the value again later on in a session gives the same
answer at once. -/
theorem forcing_settles_layers (env : Env) (s : Store) (v : Value) :
    ((∀ t, s.Unwraps v (.thunk t) → ∃ w, s.cell t = .resolved w) →
      ∃ r, Immediate env s v r ∧
        (∀ w, r = .ok w ↔ s.Unwraps v w ∧ w.isDeferred = false) ∧
        (r = .error ringStop ↔ s.Rings v) ∧
        ((∃ w, r = .ok w) ∨ r = .error ringStop)) ∧
    ∀ (w : Value) (s' : Store),
      Ends env (fun _ => []) (fun again => again (.force [] v)) s (.ok w) s' →
      w.isDeferred = false ∧ s'.Unwraps v w ∧
      (∀ t, s'.Unwraps v (.thunk t) → ∃ u, s'.cell t = .resolved u) ∧
      (∀ s'', Matures s'.thunks s''.thunks → ∀ env', Immediate env' s'' v (.ok w)) ∧
      ∀ (fuel : ℕ) (commands : List Command) (session : Session), session.store = s' →
        ∃ (history : List Chapter) (final : Session),
          (∀ note, Session.course (watching fuel note) commands session =
            (history.map (Chapter.toldBy note), final)) ∧
          ∀ s'', (s'' = final.store ∨ ∃ m ∈ historyMoments history, s''.thunks = m.cells) →
            ∀ env', Immediate env' s'' v (.ok w) := by
  constructor
  · intro hresolved
    rcases exists_immediate_of_resolved env hresolved with
      ⟨w, hforce, hunwraps, hw⟩ | ⟨hforce, hrings⟩
    · refine ⟨_, hforce, fun w' => ⟨?_, ?_⟩, ⟨?_, ?_⟩, .inl ⟨w, rfl⟩⟩
      · rintro ⟨⟩
        exact ⟨hunwraps, hw⟩
      · rintro ⟨hunwraps', hw'⟩
        rw [hunwraps.unique hw hunwraps' hw']
      · rintro ⟨⟩
      · exact fun hrings => absurd hrings (hunwraps.not_rings hw)
    · refine ⟨_, hforce, fun w' => ⟨?_, ?_⟩, ⟨fun _ => hrings, fun _ => rfl⟩, .inr rfl⟩
      · rintro ⟨⟩
      · exact fun ⟨hunwraps, hw⟩ => absurd hrings (hunwraps.not_rings hw)
  · intro w s' hends
    have hw := hends.not_isDeferred
    have hunwraps := hends.unwraps
    refine ⟨hw, hunwraps, fun t ht => hunwraps.resolved hw ht, ?_, ?_⟩
    · exact fun s'' hs env' => hunwraps.immediate_later hw hs env'
    · rintro fuel commands session rfl
      obtain ⟨history, final, hcourse, hspan⟩ := course_recorded fuel commands session
      obtain ⟨hend, hmoments⟩ := hspan.matures
      refine ⟨history, final, hcourse, ?_⟩
      rintro s'' (rfl | ⟨m, hm, hcells⟩) env'
      · exact hunwraps.immediate_later hw hend env'
      · exact hunwraps.immediate_later hw (hcells ▸ (hmoments m hm).1) env'

/-- Two layers before a number, a layer that leads into a ring of two, and a layer before one that
is still to be computed. -/
def layeredStore : Store where
  thunks := #[.resolved (.thunk ⟨1⟩), .resolved (.int 7), .resolved (.thunk ⟨3⟩),
    .resolved (.thunk ⟨4⟩), .resolved (.thunk ⟨3⟩), .resolved (.thunk ⟨6⟩),
    .pending (.expr none [] (.constant (.int 5)))]

/-- The ring is found behind its tail, and a number that has been computed stays. -/
theorem forcing_settles_layers_layeredStore :
    Immediate {} layeredStore (.thunk ⟨2⟩) (.error ringStop) ∧
    ∃ s', Ends {} (fun _ => []) (fun again => again (.force [] (.thunk ⟨5⟩))) layeredStore
        (.ok (.int 5)) s' ∧
      ∀ s'', Matures s'.thunks s''.thunks →
        ∀ env, Immediate env s'' (.thunk ⟨5⟩) (.ok (.int 5)) := by
  constructor
  · have hlayers : ∀ v, layeredStore.Unwraps (.thunk ⟨2⟩) v →
        v = .thunk ⟨2⟩ ∨ v = .thunk ⟨3⟩ ∨ v = .thunk ⟨4⟩ := by
      intro v hv
      induction hv with
      | refl => exact .inl rfl
      | tail _ hlayer ih =>
        rcases ih with rfl | rfl | rfl <;> cases layer_thunk_iff.mp hlayer <;> simp
    have hresolved : ∀ t, layeredStore.Unwraps (.thunk ⟨2⟩) (.thunk t) →
        ∃ w, layeredStore.cell t = .resolved w := by
      intro t ht
      rcases hlayers _ ht with h | h | h <;> cases h <;> exact ⟨_, rfl⟩
    have hrings : layeredStore.Rings (.thunk ⟨2⟩) :=
      ⟨⟨3⟩, .single ⟨⟨2⟩, rfl, rfl⟩, .tail (.single ⟨⟨3⟩, rfl, rfl⟩) ⟨⟨4⟩, rfl, rfl⟩⟩
    obtain ⟨r, hforce, -, hiff, -⟩ := (forcing_settles_layers {} layeredStore _).1 hresolved
    exact hiff.mpr hrings ▸ hforce
  · have hanswer : (outcome (perform {} 5 (.force [] (.thunk ⟨5⟩))) layeredStore).1.toOption =
        some (.int 5) := by decide +kernel
    rcases hrun : outcome (perform {} 5 (.force [] (.thunk ⟨5⟩))) layeredStore with ⟨e | w, s'⟩
    · simp [hrun, Except.toOption] at hanswer
    · obtain rfl : w = .int 5 := by simpa [hrun, Except.toOption] using hanswer
      rw [← observed_silent] at hrun
      have hends : Ends {} (fun _ => []) (fun again => again (.force [] (.thunk ⟨5⟩))) layeredStore
          (.ok (.int 5)) s' := definite_again 5 _ _ hrun (by simp)
      obtain ⟨-, -, -, hlater, -⟩ := (forcing_settles_layers {} layeredStore _).2 _ _ hends
      exact ⟨s', hends, hlater⟩

section Summary

variable {s : Store} {v w : Value}

theorem summary_of_thunk {t : ThunkRef} (h : s.follow (s.thunks.size + 1) [] v = .thunk t) :
    s.summary v = .ok (.text "<deferred>") := by
  rw [Store.summary, h]

theorem summary_of_not_isDeferred (h : s.follow (s.thunks.size + 1) [] v = w)
    (hw : w.isDeferred = false) :
    (s.tag w ≠ .null → s.summary v = .ok (s.tag w)) ∧
      (s.tag w = .null → s.summary v = .text <$> s.written w) := by
  rw [Store.summary, h]
  split
  · cases hw
  · split
    · rename_i htag
      exact ⟨fun hne => absurd htag hne, fun _ => rfl⟩
    · rename_i htag
      exact ⟨fun _ => rfl, fun hnull => absurd hnull htag⟩

end Summary

/-- **A value is described in step with forcing it.** What forcing would have to compute, or would
find circular, is described as deferred; anything else by the tag of what forcing it answers, or as
that is written out when it has none. A function of which no rule matches says so in these words,
and leaves the store as it is. -/
theorem summary_in_step (env : Env) (s : Store) (v : Value) :
    ((¬ ∃ r, Immediate env s v r) ∨
        (∃ shown s', Ends env (fun _ => []) (fun again => again (.force [] v)) s
          (.error (.fault (.circularForce shown))) s') →
      s.summary v = .ok (.text "<deferred>")) ∧
    (∀ r, Immediate env s v r → (∀ shown, r ≠ .error (.fault (.circularForce shown))) →
      ∃ w, r = .ok w ∧ (s.tag w ≠ .null → s.summary v = .ok (s.tag w)) ∧
        (s.tag w = .null → s.summary v = .text <$> s.written w)) ∧
    ∀ (force : Value → Run Value) (act : Handler → Bindings → Run Value) (name : String)
      (rows : List (TestRow Handler)) (values : List Value) (s₀ : Store),
      outcome (select force values rows) s₀ = (.ok none, s) →
      outcome (matchRows force act name rows values) s₀ = (.error (s.noMatch name values), s) ∧
      ∀ tags, values.mapM s.summary = .ok (tags.map .text) →
        s.noMatch name values = .fault (.noMatch name tags) := by
  refine ⟨?_, ?_, ?_⟩
  · intro hrefused
    generalize hfollow : s.follow (s.thunks.size + 1) [] v = w
    have hstanding : s.Standing env v w := hfollow ▸ standing_follow env s v
    cases hstanding with
    | plain _ _ hforce =>
      rcases hrefused with hnone | ⟨shown, s', hcircular⟩
      · exact absurd ⟨_, hforce⟩ hnone
      · cases (hcircular.unique (hforce _)).1
    | _ => exact summary_of_thunk hfollow
  · intro r hforce hplain
    generalize hfollow : s.follow (s.thunks.size + 1) [] v = w
    have hstanding : s.Standing env v w := hfollow ▸ standing_follow env s v
    cases hstanding with
    | plain _ hw hforce' => exact ⟨w, hforce.unique hforce', summary_of_not_isDeferred hfollow hw⟩
    | ring _ hforce' => exact absurd (hforce.unique hforce') (hplain _)
    | running _ _ hforce' => exact absurd (hforce.unique hforce') (hplain _)
    | pending _ _ hnone => exact absurd hforce (hnone r)
  · intro force act name rows values s₀ hselect
    refine ⟨?_, fun tags htags => ?_⟩
    · rw [matchRows, outcome_bind_ok hselect, outcome_get_bind, outcome_throw]
    · simp only [Store.noMatch, htags, Value.mapM_text?_eq_some.mpr rfl]

example : (layeredStore.summary (.thunk ⟨0⟩)).toOption = some (.text "7") ∧
    (layeredStore.summary (.thunk ⟨2⟩)).toOption = some (.text "<deferred>") ∧
    (layeredStore.summary (.thunk ⟨5⟩)).toOption = some (.text "<deferred>") := by decide +kernel

end LazyMatch
