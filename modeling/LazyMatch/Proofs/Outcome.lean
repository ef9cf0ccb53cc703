import LazyMatch.Machine
import Mathlib.Data.List.Forall2

/-!
# Outcomes of computations

A computation over the store is a function from stores: it gives a value or stops, and leaves a
store behind either way. `outcome` reads it so, and the equations below open the operations that
computations are built from, so that later proofs need not look into the monad.

* `outcome_bind`, `outcome_get`, `outcome_modify`, … : what each operation does in a store;
* `outcome_ext`: computations with the same outcome in every store are equal;
* `bind_eq_ok`, `mapM_eq_ok`, `mapM_eq_error`, …: checks one after another succeed when each does,
  and otherwise the first that fails says why.
-/

namespace LazyMatch

variable {α β : Type}

/-- What a computation gives when it starts in a store, and the store that it leaves. -/
def outcome (x : Run α) (s : Store) : Except Stop α × Store := StateT.run (ExceptT.run x) s

/-- Computations with the same outcome in every store are equal. -/
theorem outcome_ext {x y : Run α} (h : ∀ s, outcome x s = outcome y s) : x = y := funext h

@[simp] theorem outcome_pure (a : α) (s : Store) : outcome (pure a) s = (.ok a, s) := rfl

@[simp] theorem outcome_get (s : Store) : outcome (get : Run Store) s = (.ok s, s) := rfl

@[simp] theorem outcome_throw (e : Stop) (s : Store) :
    outcome (throw e : Run α) s = (.error e, s) := rfl

@[simp] theorem outcome_raise (f : Fault) (s : Store) :
    outcome (raise f : Run α) s = (.error (.fault f), s) := rfl

@[simp] theorem outcome_modify (f : Store → Store) (s : Store) :
    outcome (modify f : Run PUnit) s = (.ok ⟨⟩, f s) := rfl

@[simp] theorem outcome_modifyGet (f : Store → α × Store) (s : Store) :
    outcome (modifyGet f : Run α) s = (.ok (f s).1, (f s).2) := rfl

/-- One computation after another: the second starts where the first ends, unless that stops. -/
theorem outcome_bind (x : Run α) (f : α → Run β) (s : Store) :
    outcome (x >>= f) s =
      match outcome x s with
      | (.ok a, s') => outcome (f a) s'
      | (.error e, s') => (.error e, s') := by
  simp only [outcome, ExceptT.run_bind, StateT.run_bind]
  rcases StateT.run (ExceptT.run x) s with ⟨_ | a, s'⟩ <;> rfl

theorem outcome_bind_ok {x : Run α} {s s' : Store} {a : α} (h : outcome x s = (.ok a, s'))
    (f : α → Run β) : outcome (x >>= f) s = outcome (f a) s' := by
  rw [outcome_bind, h]

theorem outcome_bind_error {x : Run α} {s s' : Store} {e : Stop} (h : outcome x s = (.error e, s'))
    (f : α → Run β) : outcome (x >>= f) s = (.error e, s') := by
  rw [outcome_bind, h]

theorem outcome_discard_ok {x : Run α} {s s' : Store} {a : α} (h : outcome x s = (.ok a, s')) :
    outcome (discard x) s = (.ok ⟨⟩, s') := by
  rw [discard, LawfulFunctor.map_const, Function.comp_apply, map_eq_pure_bind, outcome_bind_ok h]
  rfl

@[simp] theorem outcome_get_bind (f : Store → Run β) (s : Store) :
    outcome (get >>= f) s = outcome (f s) s := rfl

@[simp] theorem outcome_modify_bind (g : Store → Store) (f : PUnit → Run β) (s : Store) :
    outcome (modify g >>= f) s = outcome (f ⟨⟩) (g s) := rfl

/-- What catches a stop starts in the store that the stopped computation left. -/
theorem outcome_tryCatch (x : Run α) (h : Stop → Run α) (s : Store) :
    outcome (tryCatch x h) s =
      match outcome x s with
      | (.ok a, s') => (.ok a, s')
      | (.error e, s') => outcome (h e) s' := by
  show StateT.run (ExceptT.run (ExceptT.tryCatch x h)) s = _
  simp only [ExceptT.tryCatch, ExceptT.run, ExceptT.mk, outcome, StateT.run_bind]
  rcases StateT.run x s with ⟨_ | a, s'⟩ <;> rfl

/-- A computation that answers has an outcome of every link. -/
theorem outcome_bind_eq_ok {x : Run α} {f : α → Run β} {s s' : Store} {b : β}
    (h : outcome (x >>= f) s = (.ok b, s')) :
    ∃ a t, outcome x s = (.ok a, t) ∧ outcome (f a) t = (.ok b, s') := by
  rw [outcome_bind] at h
  rcases hx : outcome x s with ⟨_ | a, t⟩
  · simp [hx] at h
  · exact ⟨a, t, rfl, by simpa [hx] using h⟩

/-- A computation that stops does so in one of its links. -/
theorem outcome_bind_eq_error {x : Run α} {f : α → Run β} {s s' : Store} {e : Stop}
    (h : outcome (x >>= f) s = (.error e, s')) :
    outcome x s = (.error e, s') ∨
      ∃ a t, outcome x s = (.ok a, t) ∧ outcome (f a) t = (.error e, s') := by
  rcases hx : outcome x s with ⟨e' | a, t⟩
  · cases (outcome_bind_error hx f).symm.trans h
    exact .inl rfl
  · exact .inr ⟨a, t, rfl, (outcome_bind_ok hx f).symm.trans h⟩

/-- Links with the same outcomes make chains with the same outcome. -/
theorem outcome_bind_congr {x y : Run α} {f g : α → Run β} {s : Store}
    (hxy : outcome x s = outcome y s)
    (hfg : ∀ a t, outcome y s = (.ok a, t) → outcome (f a) t = outcome (g a) t) :
    outcome (x >>= f) s = outcome (y >>= g) s := by
  rw [outcome_bind, outcome_bind, hxy]
  rcases hy : outcome y s with ⟨_ | a, t⟩
  · rfl
  · exact hfg a t hy

/-- How dispatch forces a value, with so much fuel. -/
def Env.force (env : Env) (fuel : ℕ) (v : Value) : Run Value := perform env fuel (.force [] v)

/-! ### Records -/

theorem Store.entries_setEntries_self {s : Store} {r : RecordRef} (h : r.index < s.records.size)
    (e : Entries) : (s.setEntries r e).entries r = e := by
  simp [Store.entries, Store.setEntries, h]

theorem Store.entries_setEntries_of_ne {s : Store} {r r' : RecordRef} (h : r' ≠ r) (e : Entries) :
    (s.setEntries r e).entries r' = s.entries r' := by
  have hindex : r.index ≠ r'.index := fun he => h (by cases r; cases r'; simp_all)
  simp [Store.entries, Store.setEntries, hindex]

@[simp] theorem Store.size_setEntries (s : Store) (r : RecordRef) (e : Entries) :
    (s.setEntries r e).records.size = s.records.size := by
  simp [Store.setEntries]

/-- Only a record that is there has entries. -/
theorem Store.lt_of_mem_entries {s : Store} {r : RecordRef} {e : Value × Value}
    (h : e ∈ s.entries r) : r.index < s.records.size := by
  by_contra hlt
  rw [Store.entries, Array.getElem?_eq_none (Nat.le_of_not_lt hlt)] at h
  cases h

theorem Store.getElem?_records {s : Store} {r : RecordRef} (h : r.index < s.records.size) :
    s.records[r.index]? = some (s.entries r) := by
  simp [Store.entries, h]

/-! ### Deferred values -/

theorem Store.cell_setCell_self {s : Store} {t : ThunkRef} (h : t.index < s.thunks.size)
    (c : Cell) : (s.setCell t c).cell t = c := by
  simp [Store.cell, Store.setCell, h]

theorem Store.cell_setCell_of_ne {s : Store} {t t' : ThunkRef} (h : t' ≠ t) (c : Cell) :
    (s.setCell t c).cell t' = s.cell t' := by
  have hindex : t.index ≠ t'.index := fun he => h (by cases t; cases t'; simp_all)
  simp [Store.cell, Store.setCell, hindex]

/-- What is not in the store counts as under way. -/
theorem Store.cell_of_size_le {s : Store} {t : ThunkRef} (h : s.thunks.size ≤ t.index) :
    s.cell t = .running (.constant ⟨0⟩) := by
  rw [Store.cell, Array.getElem?_eq_none h]
  rfl

theorem Store.lt_of_cell_pending {s : Store} {t : ThunkRef} {c : Computation}
    (h : s.cell t = .pending c) : t.index < s.thunks.size := by
  by_contra hlt
  cases h.symm.trans (Store.cell_of_size_le (Nat.le_of_not_lt hlt))

theorem Store.lt_of_cell_resolved {s : Store} {t : ThunkRef} {v : Value}
    (h : s.cell t = .resolved v) : t.index < s.thunks.size := by
  by_contra hlt
  cases h.symm.trans (Store.cell_of_size_le (Nat.le_of_not_lt hlt))

theorem outcome_resolve_resolved {s : Store} {t : ThunkRef} {v : Value} (h : s.cell t = .resolved v)
    (again : Task → Run Value) : outcome (resolve again t) s = (.ok v, s) := by
  rw [resolve, outcome_get_bind, h]
  rfl

/-- What is said when a deferred value is asked for in the course of its own computation. -/
def circularStop (c : Computation) : Stop :=
  .fault (.circularForce ("<Thunk: " ++ Store.label c ++ ">"))

theorem outcome_resolve_running {s : Store} {t : ThunkRef} {c : Computation}
    (h : s.cell t = .running c) (again : Task → Run Value) :
    outcome (resolve again t) s = (.error (circularStop c), s) := by
  have hshown : s.shown (.thunk t) = .ok ("<Thunk: " ++ Store.label c ++ ">") := by
    rw [Store.shown, Store.shownWith, h]
  rw [resolve, outcome_get_bind, h, outcome_get_bind, hshown]
  rfl

/-- What is left of a computation that has run: what it answered, or, when it stopped, all of it. -/
def Computation.outlasts (c : Computation) : Except Stop Value → Cell
  | .ok v => .resolved v
  | .error _ => .pending c

section Pending

variable {s s' : Store} {t : ThunkRef} {c : Computation} {again : Task → Run Value}

/-- The computation of a pending deferred value runs: its answer is kept, and when it stops the
value is pending again. -/
theorem outcome_resolve_pending (h : s.cell t = .pending c) {r : Except Stop Value}
    (hcompute : outcome (compute again c) (s.setCell t (.running c)) = (r, s'))
    (hself : r ≠ .ok (.thunk t)) :
    outcome (resolve again t) s = (r, s'.setCell t (c.outlasts r)) := by
  rw [resolve, outcome_get_bind, h, outcome_modify_bind, outcome_bind, outcome_tryCatch, hcompute]
  cases r with
  | error e => rfl
  | ok v =>
    have hv : v ≠ .thunk t := fun he => hself (he ▸ rfl)
    simp only [if_neg hv]
    rfl

/-- The computation of a pending deferred value answers that value itself, and all that is done
about it is to say so. -/
theorem exists_outcome_resolve_self (h : s.cell t = .pending c)
    (hcompute : outcome (compute again c) (s.setCell t (.running c)) = (.ok (.thunk t), s')) :
    ∃ e, outcome (resolve again t) s = (.error e, s'.setCell t (.pending c)) := by
  rw [resolve, outcome_get_bind, h, outcome_modify_bind, outcome_bind, outcome_tryCatch, hcompute]
  simp only [if_true, outcome_modify_bind, outcome_get_bind]
  cases (s'.setCell t (.pending c)).shown (.thunk t) with
  | error e => exact ⟨e, rfl⟩
  | ok text => exact ⟨_, rfl⟩

/-- The computation of a pending deferred value answers that value itself, which is circular. -/
theorem outcome_resolve_self (h : s.cell t = .pending c)
    (hcompute : outcome (compute again c) (s.setCell t (.running c)) = (.ok (.thunk t), s'))
    (ht : t.index < s'.thunks.size) :
    outcome (resolve again t) s = (.error (circularStop c), s'.setCell t (.pending c)) := by
  have hshown : (s'.setCell t (.pending c)).shown (.thunk t) =
      .ok ("<Thunk: " ++ Store.label c ++ ">") := by
    rw [Store.shown, Store.shownWith, Store.cell_setCell_self ht]
  rw [resolve, outcome_get_bind, h, outcome_modify_bind, outcome_bind, outcome_tryCatch, hcompute]
  simp only [if_true, outcome_modify_bind, outcome_get_bind, hshown, orStop, pure_bind,
    outcome_raise, circularStop]

end Pending

theorem Value.eq_thunk_of_isDeferred {v : Value} (h : v.isDeferred = true) : ∃ t, v = .thunk t := by
  cases v <;> simp_all [Value.isDeferred]

theorem forceLayers_of_not_isDeferred {v : Value} (h : v.isDeferred = false)
    (again : Task → Run Value) (passed : List ThunkRef) : forceLayers again passed v = pure v := by
  cases v <;> simp_all [Value.isDeferred, forceLayers]

/-- Forcing never answers anything deferred, in any run whose layers are forced one by one. -/
theorem not_isDeferred_of_forceLayers {run : ℕ → Task → Run Value}
    (hzero : ∀ task, run 0 task = throw .exhausted)
    (hsucc : ∀ n passed v, run (n + 1) (.force passed v) = forceLayers (run n) passed v)
    {fuel : ℕ} {passed : List ThunkRef} {v w : Value} {s s' : Store}
    (h : outcome (run fuel (.force passed v)) s = (.ok w, s')) : w.isDeferred = false := by
  induction fuel generalizing passed v s with
  | zero =>
    rw [hzero] at h
    cases h
  | succ fuel ih =>
    rw [hsucc] at h
    cases v with
    | thunk t =>
      rw [forceLayers] at h
      split at h
      · obtain ⟨_, _, _, h⟩ := outcome_bind_eq_ok h
        obtain ⟨_, _, _, h⟩ := outcome_bind_eq_ok h
        cases h
      · obtain ⟨_, _, _, h⟩ := outcome_bind_eq_ok h
        exact ih h
    | _ =>
      cases h
      rfl

/-! ### Checks -/

section Checks

variable {ε γ : Type}

theorem bind_eq_ok {x : Except ε α} {f : α → Except ε β} {b : β} :
    x >>= f = .ok b ↔ ∃ a, x = .ok a ∧ f a = .ok b := by
  cases x with
  | error e => simp [bind, Except.bind]
  | ok a => simp [bind, Except.bind]

theorem bind_eq_error {x : Except ε α} {f : α → Except ε β} {e : ε} :
    x >>= f = .error e ↔ x = .error e ∨ ∃ a, x = .ok a ∧ f a = .error e := by
  cases x with
  | error e' => simp [bind, Except.bind]
  | ok a => simp [bind, Except.bind]

theorem map_eq_ok {x : Except ε α} {f : α → β} {b : β} :
    x.map f = .ok b ↔ ∃ a, x = .ok a ∧ f a = b := by
  cases x with
  | error e => simp [Except.map]
  | ok a => simp [Except.map]

theorem map_eq_error {x : Except ε α} {f : α → β} {e : ε} :
    x.map f = .error e ↔ x = .error e := by
  cases x with
  | error e' => simp [Except.map]
  | ok a => simp [Except.map]

/-- Checks in a row all succeed when the list of their results is there. -/
theorem mapM_eq_ok {f : α → Except ε β} {as : List α} {bs : List β} :
    as.mapM f = .ok bs ↔ List.Forall₂ (fun a b => f a = .ok b) as bs := by
  induction as generalizing bs with
  | nil => cases bs <;> simp [pure, Except.pure]
  | cons a as ih =>
    simp only [List.mapM_cons, bind_eq_ok, ih]
    constructor
    · rintro ⟨b, hb, bs', hbs, h⟩
      cases h
      exact .cons hb hbs
    · rintro (_ | ⟨hb, hbs⟩)
      exact ⟨_, hb, _, hbs, rfl⟩

/-- Otherwise the first of them that fails says why. -/
theorem mapM_eq_error {f : α → Except ε β} {as : List α} {e : ε} :
    as.mapM f = .error e ↔ ∃ before a after, as = before ++ a :: after ∧
      (∀ a ∈ before, ∃ b, f a = .ok b) ∧ f a = .error e := by
  induction as with
  | nil =>
    constructor
    · intro h
      cases h
    · rintro ⟨before, a, after, h, -⟩
      simp at h
  | cons a as ih =>
    rw [List.mapM_cons]
    constructor
    · intro h
      rcases bind_eq_error.mp h with h | ⟨b, hb, h⟩
      · exact ⟨[], a, as, rfl, by simp, h⟩
      · rcases bind_eq_error.mp h with h | ⟨_, _, h⟩
        · obtain ⟨before, a', after, rfl, hbefore, h⟩ := ih.mp h
          exact ⟨a :: before, a', after, rfl, List.forall_mem_cons.mpr ⟨⟨b, hb⟩, hbefore⟩, h⟩
        · cases h
    · rintro ⟨before, a', after, hsplit, hbefore, h⟩
      cases before with
      | nil =>
        obtain ⟨rfl, rfl⟩ := List.cons.inj hsplit
        exact bind_eq_error.mpr (.inl h)
      | cons c before =>
        obtain ⟨rfl, hrest⟩ := List.cons.inj hsplit
        obtain ⟨⟨b, hb⟩, hbefore⟩ := List.forall_mem_cons.mp hbefore
        have hrest := ih.mpr ⟨before, a', after, hrest, hbefore, h⟩
        exact bind_eq_error.mpr (.inr ⟨b, hb, bind_eq_error.mpr (.inl hrest)⟩)

/-- Checks in a row give the results of other checks, changed, when each does. -/
theorem mapM_map_of_forall {f : α → Except ε β} {g : α → Except ε γ} {h : β → γ}
    (hfg : ∀ a, g a = (f a).map h) (as : List α) : as.mapM g = (as.mapM f).map (·.map h) := by
  induction as with
  | nil => rfl
  | cons a as ih =>
    simp only [List.mapM_cons, hfg, ih]
    cases f a with
    | error e => rfl
    | ok b => cases as.mapM f <;> rfl

theorem forM_eq_ok {f : α → Except ε Unit} {as : List α} (h : as.forM f = .ok ()) :
    ∀ a ∈ as, f a = .ok () := by
  induction as with
  | nil => simp
  | cons a as ih =>
    obtain ⟨_, ha, has⟩ := bind_eq_ok.mp h
    exact List.forall_mem_cons.mpr ⟨ha, ih has⟩

theorem forM_eq_error {f : α → Except ε Unit} {as : List α} {e : ε} (h : as.forM f = .error e) :
    ∃ a ∈ as, f a = .error e := by
  induction as with
  | nil => cases h
  | cons a as ih =>
    rcases bind_eq_error.mp h with h | ⟨_, _, h⟩
    · exact ⟨a, List.mem_cons_self, h⟩
    · obtain ⟨a', ha', h⟩ := ih h
      exact ⟨a', List.mem_cons_of_mem _ ha', h⟩

/-- Answers in a row are all there when the list of them is. -/
theorem mapM_eq_some {f : α → Option β} {as : List α} {bs : List β} :
    as.mapM f = some bs ↔ List.Forall₂ (fun a b => f a = some b) as bs := by
  induction as generalizing bs with
  | nil => cases bs <;> simp
  | cons a as ih =>
    simp only [List.mapM_cons, Option.bind_eq_bind, Option.bind_eq_some_iff, ih]
    constructor
    · rintro ⟨b, hb, bs', hbs, h⟩
      cases h
      exact .cons hb hbs
    · rintro (_ | ⟨hb, hbs⟩)
      exact ⟨_, hb, _, hbs, rfl⟩

/-- Otherwise one of them is not there. -/
theorem mapM_eq_none {f : α → Option β} {as : List α} :
    as.mapM f = none ↔ ∃ a ∈ as, f a = none := by
  induction as with
  | nil => simp
  | cons a as ih =>
    rw [List.exists_mem_cons_iff, ← ih, List.mapM_cons]
    cases f a with
    | none => simp
    | some b => cases as.mapM f <;> simp

theorem Value.text?_eq_some {v : Value} {text : String} : v.text? = some text ↔ v = .text text := by
  cases v <;> simp [Value.text?]

theorem Value.mapM_text?_eq_some {values : List Value} {texts : List String} :
    values.mapM Value.text? = some texts ↔ values = texts.map .text := by
  simp only [mapM_eq_some, Value.text?_eq_some, ← List.forall₂_eq_eq_eq,
    List.forall₂_map_right_iff]

end Checks

end LazyMatch
