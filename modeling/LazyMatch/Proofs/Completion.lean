import LazyMatch.Proofs.Course
import LazyMatch.Proofs.Inverse
import Mathlib.Order.WellFoundedSet

/-!
# Completing a structure

Forcing a value throughout forces the value and, when it is a record, the entries of that record in
place, and so on through the records that the entries come to. As long as the computations on the
way write to records in no other way (`Orderly`), this completes the structure and does no harm.

* `Point.Sound.step`, `Point.Sound.steps`: the work lets records evolve (`Store.Evolves`);
* `Point.completed_of_steps`: at the end nothing below the record is deferred (`Store.Completed`);
  the induction goes backwards, from the last point;
* `Store.Completed.ends_rest`: what is completed is not touched again;
* `Orderly.exists_done`: there is an end when the computations return and the records that are met
  are finitely many and do not come around;
* `completion`: all of this about forcing a value throughout.
-/

namespace LazyMatch

/-! ### Sound points -/

namespace Point

/-- The deferred value that is to be forced next. -/
def Asks (p : Point) (t : ThunkRef) : Prop :=
  ∃ i places key, p.places = i :: places ∧
    (p.store.entries p.record)[i]? = some (key, .thunk t)

/-- Whether the computation that is met next keeps the records, even if it fails. -/
def Keeps (env : Env) (p : Point) : Prop :=
  ∀ t, p.Asks t → ∀ res s',
    Ends env (fun _ => []) (fun again => again (.force [] (.thunk t))) p.store res s' →
      p.store.Keeps s'

/-- Whether the record at hand is in the store and has its size, and the places that are still to
come are in it. -/
structure Sound (p : Point) : Prop where
  record : p.record.index < p.store.records.size
  size : (p.store.entries p.record).length = p.size
  places : ∀ i ∈ p.places, i < p.size

section Sound

variable {env : Env} {p p' : Point} {s s' : Store} {r : RecordRef} {v : Value} {i : ℕ}
  {places : List ℕ}

theorem sound_begin {queue : List RecordRef} (hr : r.index < s.records.size) :
    (begin s r queue).Sound := ⟨hr, rfl, fun _ hi => List.mem_range.mp hi⟩

/-- There is an entry at the next place. -/
theorem Sound.exists_entry (h : p.Sound) (hplaces : p.places = i :: places) :
    ∃ key u, (p.store.entries p.record)[i]? = some (key, u) := by
  have hlt : i < (p.store.entries p.record).length :=
    h.size ▸ h.places i (hplaces ▸ List.mem_cons_self)
  exact ⟨_, _, List.getElem?_eq_getElem hlt⟩

/-- What forcing the next entry in place does. -/
theorem Sound.entry (h : p.Sound) (hkeeps : p.Keeps env) (hplaces : p.places = i :: places)
    (hends : Ends env (fun _ => []) (fun again => settleEntry again p.record i) p.store (.ok v)
      s') :
    p.store.Evolves s' ∧ v.isDeferred = false ∧
      ∃ key, (s'.entries p.record)[i]? = some (key, v) := by
  obtain ⟨key, u, hget⟩ := h.exists_entry hplaces
  obtain ⟨hevolves, hv, hget'⟩ := evolves_settleEntry hget
    (fun t ht => hkeeps t ⟨i, places, key, hplaces, ht ▸ hget⟩) hends
  exact ⟨hevolves, hv, key, hget'⟩

/-- **A step lets records evolve** and leads to a sound point. -/
theorem Sound.step (h : p.Sound) (hkeeps : p.Keeps env) (hstep : p.Steps env (fun _ => []) p') :
    p'.Sound ∧ p.store.Evolves p'.store := by
  cases hstep with
  | entry hsize hends =>
    have hevolves := (h.entry hkeeps rfl hends).1
    exact ⟨⟨Nat.lt_of_lt_of_le h.record hevolves.size,
      (hevolves.length_entries h.record).trans h.size,
      fun i hi => h.places i (List.mem_cons_of_mem _ hi)⟩, hevolves⟩
  | record hsize hq => exact ⟨sound_begin hq, .refl _⟩

/-- Whether all computations that are met from here on keep the records. -/
def Tame (env : Env) (p : Point) : Prop :=
  ∀ p', Relation.ReflTransGen (Steps env fun _ => []) p p' → p'.Keeps env

/-- **The work lets records evolve.** -/
theorem Sound.steps (h : p.Sound) (htame : p.Tame env)
    (hsteps : Relation.ReflTransGen (Steps env fun _ => []) p p') :
    p'.Sound ∧ p.store.Evolves p'.store := by
  induction hsteps with
  | refl => exact ⟨h, .refl _⟩
  | tail hprevious hstep ih =>
    obtain ⟨hsound, hevolves⟩ := ih.1.step (htame _ hprevious) hstep
    exact ⟨hsound, ih.2.trans hevolves⟩

/-- The work stops where a computation fails, and for no other reason. -/
theorem Sound.stops_iff (h : p.Sound) {e : Stop} :
    p.Stops env (fun _ => []) e s' ↔ ∃ t, p.Asks t ∧
      Ends env (fun _ => []) (fun again => again (.force [] (.thunk t))) p.store (.error e) s' := by
  constructor
  · rintro (⟨i, places, hplaces, -, hends⟩ | ⟨hsize, -⟩)
    · obtain ⟨key, u, hget⟩ := h.exists_entry hplaces
      cases hu : u.isDeferred with
      | false => cases (hends.unique (ends_settleEntry_of_not_isDeferred hget hu)).1
      | true =>
        obtain ⟨t, rfl⟩ := Value.eq_thunk_of_isDeferred hu
        rcases (ends_settleEntry_thunk_iff hget).mp hends with ⟨_, _, -, hv, -⟩ | ⟨_, hforce, he⟩
        · cases hv
        · cases he
          exact ⟨t, ⟨i, places, key, hplaces, hget⟩, hforce⟩
    · exact absurd h.size hsize
  · rintro ⟨t, ⟨i, places, key, hplaces, hget⟩, hforce⟩
    exact .inl ⟨i, places, hplaces, h.size,
      (ends_settleEntry_thunk_iff hget).mpr (.inr ⟨e, hforce, rfl⟩)⟩

end Sound

end Point

/-! ### Completed records -/

/-- Whether a record holds another. -/
def Store.Contains (s : Store) (r q : RecordRef) : Prop := ∃ e ∈ s.entries r, e.2 = .record q

/-- Whether a record is in the store, and nothing is deferred in it and, down to an end, in the
records below it. -/
inductive Store.Completed (s : Store) : RecordRef → Prop where
  | intro {r : RecordRef} (hr : r.index < s.records.size)
      (hentries : ∀ e ∈ s.entries r, e.2.isDeferred = false)
      (hbelow : ∀ q, s.Contains r q → s.Completed q) : s.Completed r

namespace Store.Completed

variable {env : Env} {s : Store} {r q : RecordRef}

theorem index_lt (h : s.Completed r) : r.index < s.records.size := by
  obtain ⟨hr, -, -⟩ := h
  exact hr

theorem not_isDeferred (h : s.Completed r) : ∀ e ∈ s.entries r, e.2.isDeferred = false := by
  obtain ⟨-, hentries, -⟩ := h
  exact hentries

theorem of_contains (h : s.Completed r) (hq : s.Contains r q) : s.Completed q := by
  obtain ⟨-, -, hbelow⟩ := h
  exact hbelow q hq

theorem reachable (h : s.Completed r) (hq : Relation.ReflTransGen s.Contains r q) :
    s.Completed q := by
  induction hq with
  | refl => exact h
  | tail _ hcontains ih => exact ih.of_contains hcontains

/-- A record is completed when it is so place by place. -/
theorem of_places {places : List ℕ} (hr : r.index < s.records.size)
    (hplaces : List.range (s.entries r).length = places)
    (h : ∀ i ∈ places, ∀ e, (s.entries r)[i]? = some e →
      e.2.isDeferred = false ∧ ∀ q, e.2 = .record q → s.Completed q) : s.Completed r := by
  have hentry : ∀ e ∈ s.entries r,
      e.2.isDeferred = false ∧ ∀ q, e.2 = .record q → s.Completed q := by
    intro e he
    obtain ⟨i, hi⟩ := List.mem_iff_getElem?.mp he
    have hlt := (List.getElem?_eq_some_iff.mp hi).1
    exact h i (hplaces ▸ List.mem_range.mpr hlt) e hi
  exact ⟨hr, fun e he => (hentry e he).1, fun q ⟨e, he, hq⟩ => (hentry e he).2 q hq⟩

theorem acc (h : s.Completed r) : Acc (fun q r => s.Completed r ∧ s.Contains r q) r := by
  induction h with
  | intro _ _ _ ih => exact ⟨_, fun q hq => ih q hq.2⟩

/-- What is completed has a bottom. -/
theorem wellFounded (s : Store) : WellFounded fun q r => s.Completed r ∧ s.Contains r q :=
  ⟨fun r => ⟨r, fun _ hq => (hq.1.of_contains hq.2).acc⟩⟩

end Store.Completed

namespace Point

section Completed

variable {env : Env} {p p' : Point}

/-- **At the end nothing is deferred** in the records that were queued and at the places that were
still to come. -/
theorem completed_of_steps (h : p.Sound) (htame : p.Tame env)
    (hsteps : Relation.ReflTransGen (Steps env fun _ => []) p p') (hdone : p'.IsDone) :
    (∀ q ∈ p.queue, p'.store.Completed q) ∧
      ∀ i ∈ p.places, ∀ e, (p'.store.entries p.record)[i]? = some e →
        e.2.isDeferred = false ∧ ∀ q, e.2 = .record q → p'.store.Completed q := by
  induction hsteps using Relation.ReflTransGen.head_induction_on with
  | refl => simp [hdone.1, hdone.2.1]
  | @head p p₁ hstep hrest ih =>
    have htame₁ : p₁.Tame env := fun p' hp' => htame p' (.head hstep hp')
    have hsound₁ := (h.step (htame p .refl) hstep).1
    have hevolves := (hsound₁.steps htame₁ hrest).2
    obtain ⟨hqueue, hplaces⟩ := ih hsound₁ htame₁
    cases hstep with
    | @entry s s₁ r size i v places queue hsize hends =>
      obtain ⟨-, hv, key, hget⟩ := h.entry (htame _ .refl) rfl hends
      refine ⟨fun q hq => hqueue q (List.mem_append_left _ hq), fun j hj e he => ?_⟩
      rcases List.mem_cons.mp hj with rfl | hj
      · -- The entry is not deferred any more, and so it stays.
        obtain ⟨e', he', hcompletes⟩ := hevolves.getElem? hget
        cases he'.symm.trans he
        rw [hcompletes.eq_of_not_isDeferred hv]
        exact ⟨hv, fun q hq => hqueue q (List.mem_append_right _ (Value.mem_queued.mpr hq))⟩
      · exact hplaces j hj e he
    | @record s r q size queue hsize hq =>
      have hcompleted : p'.store.Completed q :=
        .of_places (Nat.lt_of_lt_of_le hq hevolves.size)
          (congrArg List.range (hevolves.length_entries hq)) hplaces
      exact ⟨List.forall_mem_cons.mpr ⟨hcompleted, hqueue⟩, by simp⟩

theorem completed_of_begin {s : Store} {r : RecordRef} (hr : r.index < s.records.size)
    (htame : (begin s r []).Tame env)
    (hsteps : Relation.ReflTransGen (Steps env fun _ => []) (begin s r []) p') (hdone : p'.IsDone) :
    p'.store.Completed r := by
  have hevolves : s.Evolves p'.store := ((sound_begin hr).steps htame hsteps).2
  exact .of_places (Nat.lt_of_lt_of_le hr hevolves.size)
    (congrArg List.range (hevolves.length_entries hr))
    (completed_of_steps (sound_begin hr) htame hsteps hdone).2

end Completed

/-- Whether all that is at hand is completed in the store. -/
structure AtRest (s : Store) (p : Point) : Prop where
  store : p.store = s
  sound : p.Sound
  record : s.Completed p.record
  queue : ∀ q ∈ p.queue, s.Completed q

section AtRest

variable {env : Env} {tell : Event → List Value} {s : Store} {r : RecordRef} {p : Point}

theorem atRest_begin {queue : List RecordRef} (h : s.Completed r)
    (hqueue : ∀ q ∈ queue, s.Completed q) : (begin s r queue).AtRest s where
  store := rfl
  sound := sound_begin h.index_lt
  record := h
  queue := hqueue

theorem AtRest.exists_entry {i : ℕ} {places : List ℕ} (h : p.AtRest s)
    (hplaces : p.places = i :: places) :
    ∃ e ∈ s.entries p.record, (p.store.entries p.record)[i]? = some e ∧
      e.2.isDeferred = false := by
  obtain ⟨rfl, hsound, hrecord, -⟩ := h
  obtain ⟨key, u, hget⟩ := hsound.exists_entry hplaces
  have hmem := List.mem_of_getElem? hget
  exact ⟨(key, u), hmem, hget, hrecord.not_isDeferred _ hmem⟩

/-- No computation is met. -/
theorem AtRest.keeps (h : p.AtRest s) : p.Keeps env := by
  rintro t ⟨i, places, key, hplaces, ht⟩
  obtain ⟨e, -, hget, hdeferred⟩ := h.exists_entry hplaces
  rw [Option.some.inj (hget.symm.trans ht)] at hdeferred
  cases hdeferred

/-- The work goes on without a change. -/
theorem AtRest.step (h : p.AtRest s) (tell : Event → List Value) :
    p.IsDone ∨ ∃ p', p.Steps env tell p' ∧ p'.AtRest s := by
  obtain ⟨s', r, size, places, queue⟩ := p
  obtain rfl : s' = s := h.store
  have hsize := h.sound.size
  cases places with
  | nil =>
    cases queue with
    | nil => exact .inl ⟨rfl, rfl, hsize⟩
    | cons q queue =>
      have hq := List.forall_mem_cons.mp h.queue
      exact .inr ⟨_, .record hsize hq.1.index_lt, atRest_begin hq.1 hq.2⟩
  | cons i places =>
    obtain ⟨e, he, hget, hdeferred⟩ := h.exists_entry rfl
    have hends : ∀ tell, Ends env tell (fun again => settleEntry again r i) s' (.ok e.2) s' :=
      fun tell => ends_settleEntry_of_not_isDeferred hget hdeferred
    have hsound := (h.sound.step h.keeps (.entry hsize (hends _))).1
    refine .inr ⟨_, .entry hsize (hends tell), rfl, hsound, h.record, fun q hq => ?_⟩
    rcases List.mem_append.mp hq with hq | hq
    · exact h.queue q hq
    · exact h.record.of_contains ⟨e, he, Value.mem_queued.mp hq⟩

theorem AtRest.contains {q : RecordRef} (h : p.AtRest s) (hq : p.Queues env tell q) :
    s.Contains p.record q := by
  obtain ⟨i, places, s', hplaces, hends⟩ := hq
  obtain ⟨e, he, hget, hdeferred⟩ := h.exists_entry hplaces
  have hsame := (hends.unique (ends_settleEntry_of_not_isDeferred hget hdeferred)).1
  exact ⟨e, he, (Except.ok.inj hsame).symm⟩

end AtRest

end Point

/-- **What is completed is not touched again**, and nothing runs. -/
theorem Store.Completed.ends_rest {env : Env} {s : Store} {r : RecordRef} (h : s.Completed r)
    (tell : Event → List Value) :
    Ends env tell (Point.begin s r []).rest s (.ok .null) s := by
  have hstep : ∀ p, Point.AtRest s p → p.IsDone ∨ ∃ p', p.Steps env tell p' ∧ p'.AtRest s :=
    fun p hp => hp.step tell
  have hbegin : (Point.begin s r []).AtRest s := Point.atRest_begin h (by simp)
  obtain ⟨p', hsteps, hrest, hdone⟩ := Point.exists_done (Store.Completed.wellFounded s) hstep
    (fun p q hp hq => ⟨hp.record, hp.contains hq⟩) hbegin
  have hends := Point.ends_of_steps hsteps hdone.ends
  rw [hrest.store] at hends
  exact hends

/-! ### Forcing a value throughout -/

/-- Go on with what has been forced. -/
def throughout (w : Value) (again : Evaluator) : Run Value :=
  match w with
  | .record r => do discard (again (.settle [r])); return w
  | _ => return w

section Throughout

variable {env : Env} {tell : Event → List Value} {s s' : Store} {r : RecordRef} {v w : Value}
  {res : Except Stop Value}

theorem unary_complete (again : Evaluator) (v : Value) :
    unary again .complete v = again (.force [] v) >>= fun w => throughout w again := rfl

theorem ends_throughout_of_not_record (hw : ∀ r, w ≠ .record r) :
    Ends env tell (throughout w) s (.ok w) s := by
  refine ⟨by simp, 0, fun m _ => ?_⟩
  cases w with
  | record r => exact absurd rfl (hw r)
  | _ => rfl

theorem ends_throughout_record_iff :
    Ends env tell (throughout (.record r)) s res s' ↔
      r.index < s.records.size ∧
        ∃ q, Ends env tell (Point.begin s r []).rest s q s' ∧ res = q.map fun _ => .record r := by
  have hopen : throughout (.record r) = fun again => again (.settle [r]) >>= fun _ =>
      pure (.record r) := by
    funext again
    simp [throughout, discard, LawfulFunctor.map_const]
  have hpure : ∀ s₁, Ends env tell (fun _ => (pure (.record r) : Run Value)) s₁ (.ok (.record r))
      s₁ := fun s₁ => ⟨by simp, 0, fun _ _ => rfl⟩
  rw [hopen]
  constructor
  · intro h
    rcases h.bind_cases (f := fun _ _ => pure (Value.record r)) definite_again with
      ⟨u, s₁, hfirst, hrest⟩ | ⟨e, rfl, hfirst⟩
    · obtain ⟨rfl, rfl⟩ := hrest.unique (hpure s₁)
      obtain ⟨hr, hwork⟩ := Point.ends_settle_cons_iff.mp hfirst
      exact ⟨hr, .ok u, hwork, rfl⟩
    · obtain ⟨hr, hwork⟩ := Point.ends_settle_cons_iff.mp hfirst
      exact ⟨hr, .error e, hwork, rfl⟩
  · rintro ⟨hr, e | u, hrest, rfl⟩
    · exact (Point.ends_settle_cons_iff.mpr ⟨hr, hrest⟩).bind_error
    · exact (Point.ends_settle_cons_iff.mpr ⟨hr, hrest⟩).bind
        (f := fun _ _ => pure (Value.record r)) (hpure s')

/-- One run that returns is enough. -/
theorem gives_complete_of_run {n : ℕ}
    (h : (outcome (unary (perform env n) .complete v) s).1.toOption = some w) :
    Gives env (fun again => unary again .complete v) s w
      (outcome (unary (perform env n) .complete v) s).2 := by
  have hdefinite : Definite env (fun _ => []) (fun again => unary again .complete v) s :=
    (made_unary .complete v.avoids_none).definite_of_made
  refine hdefinite n _ _ ?_ (by simp)
  rw [observed_silent]
  rcases hrun : outcome (unary (perform env n) .complete v) s with ⟨e | u, s₁⟩
  · rw [hrun] at h
    cases h
  · rw [hrun] at h
    cases h
    rfl

/-- **What has been completed is completed**, and nothing runs. -/
theorem ends_throughout_of_completed (h : ∀ r, w = .record r → s.Completed r)
    (tell : Event → List Value) : Ends env tell (throughout w) s (.ok w) s := by
  by_cases hw : ∃ r, w = .record r
  · obtain ⟨r, rfl⟩ := hw
    have hr := h r rfl
    exact ends_throughout_record_iff.mpr ⟨hr.index_lt, .ok .null, hr.ends_rest tell, rfl⟩
  · exact ends_throughout_of_not_record fun r hr => hw ⟨r, hr⟩

/-- What has been forced answers the same from then on. -/
theorem ends_force_again {s₁ : Store}
    (hforce : Gives env (fun again => again (.force [] v)) s w s₁)
    (hs' : Matures s₁.thunks s'.thunks) (tell : Event → List Value) :
    Ends env tell (fun again => again (.force [] v)) s' (.ok w) s' := by
  cases hv : v.isDeferred with
  | false =>
    cases (Ends.unique hforce (ends_force_of_not_isDeferred hv [])).1
    exact ends_force_of_not_isDeferred hv []
  | true =>
    obtain ⟨t, rfl⟩ := Value.eq_thunk_of_isDeferred hv
    exact ((Store.ComesTo.of_force hforce).mono hs').ends_force

end Throughout

/-! ### What is met -/

/-- The points that are met when a value is forced throughout. -/
def Meets (env : Env) (s : Store) (v : Value) (p : Point) : Prop :=
  ∃ r s₁, Gives env (fun again => again (.force [] v)) s (.record r) s₁ ∧
    r.index < s₁.records.size ∧
    Relation.ReflTransGen (Point.Steps env fun _ => []) (.begin s₁ r []) p

/-- Whether all computations that are met when a value is forced throughout keep the records. -/
structure Orderly (env : Env) (s : Store) (v : Value) : Prop where
  first : ∀ res s₁, Ends env (fun _ => []) (fun again => again (.force [] v)) s res s₁ → s.Keeps s₁
  later : ∀ p, Meets env s v p → p.Keeps env

/-- Whether all computations that are met return, and the records that are met are in the store. -/
structure AllReturn (env : Env) (s : Store) (v : Value) : Prop where
  first : ∃ w s₁, Gives env (fun again => again (.force [] v)) s w s₁ ∧
    ∀ r, w = .record r → r.index < s₁.records.size
  later : ∀ p, Meets env s v p → ∀ t, p.Asks t →
    ∃ w s₁, Gives env (fun again => again (.force [] (.thunk t))) p.store w s₁
  queue : ∀ p, Meets env s v p → ∀ q ∈ p.queue, q.index < p.store.records.size

/-- Whether a computation that is met fails, and leaves this store. -/
def SomeFails (env : Env) (s : Store) (v : Value) (e : Stop) (s' : Store) : Prop :=
  Ends env (fun _ => []) (fun again => again (.force [] v)) s (.error e) s' ∨
    ∃ p, Meets env s v p ∧ ∃ t, p.Asks t ∧
      Ends env (fun _ => []) (fun again => again (.force [] (.thunk t))) p.store (.error e) s'

/-- Whether an entry of one record comes to the other when a value is forced throughout. -/
def Leads (env : Env) (s : Store) (v : Value) (r q : RecordRef) : Prop :=
  ∃ p, Meets env s v p ∧ p.record = r ∧ p.Queues env (fun _ => []) q

theorem wellFounded_of_finite {α : Type} {R : α → α → Prop} (hfinite : {b | ∃ a, R a b}.Finite)
    (hacyclic : ∀ a, ¬ Relation.TransGen R a a) : WellFounded (Function.swap R) := by
  have hstrict : IsStrictOrder α (Relation.TransGen (Function.swap R)) :=
    { irrefl := fun a ha => hacyclic a (Relation.transGen_swap.mp ha)
      trans := fun _ _ _ => Relation.TransGen.trans }
  refine ⟨fun a => (Set.WellFoundedOn.acc_iff_wellFoundedOn.out 0 2).mpr ?_⟩
  have hsubset : {b | Relation.TransGen (Function.swap R) b a} ⊆ {b | ∃ a, R a b} := by
    intro b hb
    obtain ⟨c, hc, -⟩ := Relation.TransGen.head'_iff.mp hb
    exact ⟨c, hc⟩
  have hclosure : {b | Relation.TransGen (Function.swap R) b a}.WellFoundedOn
      (Relation.TransGen (Function.swap R)) := (hfinite.subset hsubset).wellFoundedOn
  exact hclosure.mono' fun _ _ _ _ => Relation.TransGen.single

namespace Orderly

variable {env : Env} {s s' s₁ : Store} {v w : Value} {p p' : Point} {r : RecordRef} {e : Stop}
  {res : Except Stop Value}

theorem evolves (h : Orderly env s v)
    (hforce : Ends env (fun _ => []) (fun again => again (.force [] v)) s res s₁) :
    s.Evolves s₁ := (h.first res s₁ hforce).evolves hforce

theorem tame_begin (h : Orderly env s v)
    (hforce : Gives env (fun again => again (.force [] v)) s (.record r) s₁)
    (hr : r.index < s₁.records.size) : (Point.begin s₁ r []).Tame env :=
  fun p hp => h.later p ⟨r, s₁, hforce, hr, hp⟩

/-- Every point that is met is sound, and records have evolved. -/
theorem met (h : Orderly env s v) (hp : Meets env s v p) : p.Sound ∧ s.Evolves p.store := by
  obtain ⟨r, s₁, hforce, hr, hsteps⟩ := hp
  obtain ⟨hsound, hevolves⟩ := (Point.sound_begin hr).steps (h.tame_begin hforce hr) hsteps
  exact ⟨hsound, (h.evolves hforce).trans hevolves⟩

/-- The points that are met lead to the last one. -/
theorem evolves_last (h : Orderly env s v) (hp : Meets env s v p) (hp' : Meets env s v p')
    (hlast : ∀ q, ¬ p'.Steps env (fun _ => []) q) : p.store.Evolves p'.store := by
  obtain ⟨r, s₁, hforce, hr, hsteps⟩ := id hp
  obtain ⟨r', s₁', hforce', -, hsteps'⟩ := hp'
  obtain ⟨hsame, rfl⟩ := Ends.unique hforce hforce'
  cases hsame
  have hreach := Point.reaches_last hlast hsteps' hsteps
  exact ((h.met hp).1.steps
    (fun q hq => h.later q ⟨r, s₁, hforce, hr, hsteps.trans hq⟩) hreach).2

/-- A point that is met is the last one, or the work goes on. -/
theorem step (h : Orderly env s v) (hreturn : AllReturn env s v) (hp : Meets env s v p) :
    p.IsDone ∨ ∃ p', p.Steps env (fun _ => []) p' ∧ Meets env s v p' := by
  suffices hgoes : p.IsDone ∨ ∃ p', p.Steps env (fun _ => []) p' by
    obtain ⟨r, s₁, hforce, hr, hsteps⟩ := hp
    exact hgoes.imp_right fun ⟨p', hstep⟩ => ⟨p', hstep, r, s₁, hforce, hr, hsteps.tail hstep⟩
  have hsound := (h.met hp).1
  have hsize := hsound.size
  have hexists := hreturn.later p hp
  have hqueue := hreturn.queue p hp
  obtain ⟨s₁, r, size, places, queue⟩ := p
  cases places with
  | nil =>
    cases queue with
    | nil => exact .inl ⟨rfl, rfl, hsize⟩
    | cons q queue => exact .inr ⟨_, .record hsize (hqueue q List.mem_cons_self)⟩
  | cons i places =>
    obtain ⟨key, u, hget⟩ := hsound.exists_entry rfl
    cases hu : u.isDeferred with
    | false => exact .inr ⟨_, .entry hsize (ends_settleEntry_of_not_isDeferred hget hu)⟩
    | true =>
      obtain ⟨t, rfl⟩ := Value.eq_thunk_of_isDeferred hu
      obtain ⟨w, s₂, hforce⟩ := hexists t ⟨i, places, key, rfl, hget⟩
      exact .inr ⟨_, .entry hsize
        ((ends_settleEntry_thunk_iff hget).mpr (.inl ⟨w, s₂, hforce, rfl, rfl⟩))⟩

/-- **There is an end** when the computations that are met return, and the records that entries come
to are finitely many and do not come around. -/
theorem exists_done (h : Orderly env s v) (hreturn : AllReturn env s v)
    (hfinite : {q | ∃ r, Leads env s v r q}.Finite)
    (hacyclic : ∀ r, ¬ Relation.TransGen (Leads env s v) r r) (hp : Meets env s v p) :
    ∃ p', Relation.ReflTransGen (Point.Steps env fun _ => []) p p' ∧ p'.IsDone := by
  obtain ⟨p', hsteps, -, hdone⟩ := Point.exists_done (wellFounded_of_finite hfinite hacyclic)
    (fun p hp => h.step hreturn hp) (fun p q hp hq => ⟨p, hp, rfl, hq⟩) hp
  exact ⟨p', hsteps, hdone⟩

/-- What forcing throughout comes to. -/
theorem ends_complete_iff (h : Orderly env s v) :
    Ends env (fun _ => []) (fun again => unary again .complete v) s res s' ↔
      (∃ w, Gives env (fun again => again (.force [] v)) s w s' ∧ (∀ r, w ≠ .record r) ∧
        res = .ok w) ∨
      (∃ r s₁ p', Gives env (fun again => again (.force [] v)) s (.record r) s₁ ∧
        r.index < s₁.records.size ∧
        Relation.ReflTransGen (Point.Steps env fun _ => []) (.begin s₁ r []) p' ∧ p'.IsDone ∧
        s' = p'.store ∧ res = .ok (.record r)) ∨
      ∃ e, SomeFails env s v e s' ∧ res = .error e := by
  simp only [unary_complete]
  constructor
  · intro hends
    rcases hends.bind_cases definite_again with ⟨w, s₁, hforce, hrest⟩ | ⟨e, rfl, hforce⟩
    · by_cases hw : ∃ r, w = .record r
      · obtain ⟨r, rfl⟩ := hw
        obtain ⟨hr, q, ⟨hq, n, hn⟩, rfl⟩ := ends_throughout_record_iff.mp hrest
        obtain ⟨p', hsteps, hcloses⟩ := Point.exists_course (hn n (Nat.le_refl n)) hq
        rcases hcloses with ⟨hdone, rfl, rfl⟩ | ⟨e, rfl, hstops⟩
        · exact .inr (.inl ⟨r, s₁, p', hforce, hr, hsteps, hdone, rfl, rfl⟩)
        · have hp' : Meets env s v p' := ⟨r, s₁, hforce, hr, hsteps⟩
          exact .inr (.inr ⟨e, .inr ⟨p', hp', (h.met hp').1.stops_iff.mp hstops⟩, rfl⟩)
      · have hne : ∀ r, w ≠ .record r := fun r hr => hw ⟨r, hr⟩
        obtain ⟨rfl, rfl⟩ := hrest.unique (ends_throughout_of_not_record hne)
        exact .inl ⟨w, hforce, hne, rfl⟩
    · exact .inr (.inr ⟨e, .inl hforce, rfl⟩)
  · rintro (⟨w, hforce, hw, rfl⟩ | ⟨r, s₁, p', hforce, hr, hsteps, hdone, rfl, rfl⟩ |
      ⟨e, hfails, rfl⟩)
    · exact hforce.bind (ends_throughout_of_not_record hw)
    · exact hforce.bind (ends_throughout_record_iff.mpr
        ⟨hr, .ok .null, Point.ends_of_steps hsteps hdone.ends, rfl⟩)
    · rcases hfails with hforce | ⟨p', hp', hfails⟩
      · exact hforce.bind_error
      · have hstops := (h.met hp').1.stops_iff.mpr hfails
        obtain ⟨r, s₁, hforce, hr, hsteps⟩ := hp'
        exact Ends.bind hforce (ends_throughout_record_iff.mpr
          ⟨hr, .error e, Point.ends_of_steps hsteps hstops.ends, rfl⟩)

/-- When forcing throughout returns, records have evolved and the answer is completed. -/
theorem completed (h : Orderly env s v)
    (hends : Gives env (fun again => unary again .complete v) s w s') :
    ∃ s₁, Gives env (fun again => again (.force [] v)) s w s₁ ∧ s₁.Evolves s' ∧
      (∀ p, Meets env s v p → p.store.Evolves s') ∧ ∀ r, w = .record r → s'.Completed r := by
  rcases h.ends_complete_iff.mp hends with
    ⟨w, hforce, hw, heq⟩ | ⟨r, s₁, p', hforce, hr, hsteps, hdone, rfl, heq⟩ | ⟨e, -, heq⟩
  · cases heq
    refine ⟨s', hforce, .refl s', ?_, fun r hr => absurd hr (hw r)⟩
    rintro p ⟨r, s₁, hrecord, -⟩
    cases (Ends.unique hrecord hforce).1
    exact absurd rfl (hw r)
  · cases heq
    have htame := h.tame_begin hforce hr
    have hp' : Meets env s v p' := ⟨r, s₁, hforce, hr, hsteps⟩
    refine ⟨s₁, hforce, ((Point.sound_begin hr).steps htame hsteps).2,
      fun p hp => h.evolves_last hp hp' fun q => hdone.not_steps, fun r' hr' => ?_⟩
    cases hr'
    exact Point.completed_of_begin hr htame hsteps hdone
  · cases heq

/-- When a computation fails, records have evolved all the same. -/
theorem evolves_of_fails (h : Orderly env s v) (hfails : SomeFails env s v e s') :
    s.Evolves s' ∧ ∀ p, Meets env s v p → p.store.Evolves s' := by
  rcases hfails with hforce | ⟨p', hp', t, hasks, hforce⟩
  · refine ⟨h.evolves hforce, ?_⟩
    rintro p ⟨r, s₁, hrecord, -⟩
    cases (Ends.unique hrecord hforce).1
  · have hstops := (h.met hp').1.stops_iff.mpr ⟨t, hasks, hforce⟩
    have hlast : p'.store.Evolves s' := (h.later p' hp' t hasks _ s' hforce).evolves hforce
    exact ⟨(h.met hp').2.trans hlast,
      fun p hp => (h.evolves_last hp hp' fun q => hstops.not_steps).trans hlast⟩

end Orderly

/-! ### What constructors have built -/

/-- Whether every deferred value is a record that a constructor has made. -/
def Store.Built (s : Store) : Prop :=
  ∀ t : ThunkRef, t.index < s.thunks.size → ∃ r, s.Defers t r

namespace Store.Built

variable {env : Env} {s s' : Store} {t : ThunkRef} {v : Value} {p p' : Point}
  {res : Except Stop Value}

/-- Forcing a deferred value gives its record, and no entry changes. -/
theorem force (h : s.Built) (ht : t.index < s.thunks.size) :
    ∃ r : RecordRef, Gives env (fun again => again (.force [] (.thunk t))) s (.record r)
        (s.setCell t (.resolved (.record r))) ∧
      (s.setCell t (.resolved (.record r))).Built := by
  obtain ⟨r, hdefers⟩ := h t ht
  have hresolve : Gives env (fun again => again (.resolve t)) s (.record r)
      (s.setCell t (.resolved (.record r))) :=
    .step (gives_iff.mpr ⟨0, fun m _ => outcome_resolve_of_defers hdefers _⟩)
  refine ⟨r, gives_force (by simp) hresolve (gives_force_record [t] r), fun u hu => ?_⟩
  obtain ⟨q, hdefers'⟩ := h u (by simpa [Store.setCell] using hu)
  exact ⟨q, (Store.changes_resolved (P := fun _ => True) hdefers trivial).defers u q hdefers'⟩

theorem forced (h : s.Built)
    (hends : Ends env (fun _ => []) (fun again => again (.force [] v)) s res s') :
    s.Keeps s' ∧ s'.Built := by
  cases hdeferred : v.isDeferred with
  | false =>
    obtain ⟨rfl, rfl⟩ := hends.unique (ends_force_of_not_isDeferred hdeferred [])
    exact ⟨.refl _, h⟩
  | true =>
    obtain ⟨t, rfl⟩ := Value.eq_thunk_of_isDeferred hdeferred
    by_cases ht : t.index < s.thunks.size
    · obtain ⟨r, hforce, hbuilt⟩ := h.force ht
      obtain ⟨rfl, rfl⟩ := hends.unique hforce
      exact ⟨fun q _ => List.forall₂_same.mpr fun e _ => .refl _ e, hbuilt⟩
    · have hcell := Store.cell_of_size_le (Nat.le_of_not_lt ht)
      obtain ⟨rfl, rfl⟩ := hends.unique (ends_force_of_running (by simp) hcell)
      exact ⟨.refl _, h⟩

theorem keeps (h : p.store.Built) : p.Keeps env := fun _ _ _ _ hends => (h.forced hends).1

theorem step (h : p.store.Built) (hsound : p.Sound) (hstep : p.Steps env (fun _ => []) p') :
    p'.store.Built := by
  cases hstep with
  | @entry s s' r size i v places queue hsize hends =>
    obtain ⟨key, u, hget⟩ := hsound.exists_entry rfl
    cases hu : u.isDeferred with
    | false =>
      obtain ⟨-, rfl⟩ := hends.unique (ends_settleEntry_of_not_isDeferred hget hu)
      exact h
    | true =>
      obtain ⟨t, rfl⟩ := Value.eq_thunk_of_isDeferred hu
      rcases (ends_settleEntry_thunk_iff hget).mp hends with ⟨w, s₁, hforce, -, rfl⟩ | ⟨e, -, he⟩
      · exact (h.forced hforce).2
      · cases he
  | record => exact h

/-- What constructors have built can be completed without harm. -/
theorem orderly (h : s.Built) (v : Value) : Orderly env s v where
  first := fun _ _ hends => (h.forced hends).1
  later := by
    rintro p ⟨r, s₁, hforce, hr, hsteps⟩
    suffices hall : p.Sound ∧ p.store.Built from hall.2.keeps
    induction hsteps with
    | refl => exact ⟨Point.sound_begin hr, (h.forced hforce).2⟩
    | tail _ hstep ih => exact ⟨(ih.1.step ih.2.keeps hstep).1, ih.2.step ih.1 hstep⟩

end Store.Built

/-! ### Completion -/

/-- What it means that forcing a value throughout has completed it: the answer is what forcing the
value gives; records keep their keys in order, and their entries but for deferred ones, which give
way to what they have come to; nothing is deferred in the records that can be reached from the
answer; and to force the value or the answer throughout once more changes nothing and runs
nothing. -/
structure IsCompletion (env : Env) (s : Store) (v w : Value) (s' : Store) : Prop where
  forced : ∃ s₁, Gives env (fun again => again (.force [] v)) s w s₁
  evolves : s.Evolves s'
  met : ∀ p, Meets env s v p → p.store.Evolves s'
  not_isDeferred : w.isDeferred = false
  settled : ∀ r q, w = .record r → Relation.ReflTransGen s'.Contains r q →
    ∀ e ∈ s'.entries q, e.2.isDeferred = false
  again : ∀ tell, Ends env tell (fun again => unary again .complete v) s' (.ok w) s' ∧
    Ends env tell (fun again => unary again .complete w) s' (.ok w) s'

/-- **Forcing a value throughout completes it and does no harm**, as long as the computations that
are met keep the records. It returns when these return and the records that are met are finitely
many and do not come around. It fails when one of them fails, and then every entry is what it was or
what its deferred value has come to. -/
theorem completion {env : Env} {s : Store} {v : Value} (h : Orderly env s v) :
    (∀ w s', Gives env (fun again => unary again .complete v) s w s' →
      IsCompletion env s v w s') ∧
    (AllReturn env s v → {q | ∃ r, Leads env s v r q}.Finite →
      (∀ r, ¬ Relation.TransGen (Leads env s v) r r) →
      ∃ w s', Gives env (fun again => unary again .complete v) s w s') ∧
    ∀ e s', (Ends env (fun _ => []) (fun again => unary again .complete v) s (.error e) s' ↔
        SomeFails env s v e s') ∧
      (SomeFails env s v e s' → s.Evolves s' ∧ ∀ p, Meets env s v p → p.store.Evolves s') := by
  refine ⟨fun w s' hends => ?_, fun hreturn hfinite hacyclic => ?_, fun e s' => ⟨?_, ?_⟩⟩
  · obtain ⟨s₁, hforce, hevolves, hmet, hcompleted⟩ := h.completed hends
    have hw : w.isDeferred = false := Ends.not_isDeferred hforce
    have hself : ∀ tell, Ends env tell (throughout w) s' (.ok w) s' :=
      ends_throughout_of_completed hcompleted
    exact
      { forced := ⟨s₁, hforce⟩
        evolves := (h.evolves hforce).trans hevolves
        met := hmet
        not_isDeferred := hw
        settled := fun r q hr hq => ((hcompleted r hr).reachable hq).not_isDeferred
        again := fun tell => ⟨(ends_force_again hforce hevolves.matures tell).bind (hself tell),
          (ends_force_of_not_isDeferred hw []).bind (hself tell)⟩ }
  · obtain ⟨w, s₁, hforce, hthere⟩ := hreturn.first
    by_cases hw : ∃ r, w = .record r
    · obtain ⟨r, rfl⟩ := hw
      have hr := hthere r rfl
      obtain ⟨p', hsteps, hdone⟩ :=
        h.exists_done hreturn hfinite hacyclic ⟨r, s₁, hforce, hr, .refl⟩
      exact ⟨_, _, h.ends_complete_iff.mpr
        (.inr (.inl ⟨r, s₁, p', hforce, hr, hsteps, hdone, rfl, rfl⟩))⟩
    · exact ⟨w, s₁, h.ends_complete_iff.mpr (.inl ⟨w, hforce, fun r hr => hw ⟨r, hr⟩, rfl⟩)⟩
  · rw [h.ends_complete_iff]
    constructor
    · rintro (⟨_, -, -, heq⟩ | ⟨_, _, _, -, -, -, -, -, heq⟩ | ⟨_, hfails, heq⟩)
      · cases heq
      · cases heq
      · cases heq
        exact hfails
    · exact fun hfails => .inr (.inr ⟨e, hfails, rfl⟩)
  · exact h.evolves_of_fails

/-- A record that holds one deferred value twice, and another record. -/
def sharedStore : Store where
  records := #[
    [(.text "left", .thunk ⟨0⟩), (.text "right", .thunk ⟨0⟩), (.text "rest", .record ⟨1⟩)],
    [(.text "last", .thunk ⟨1⟩)],
    [(.text "", .text "Nil")]]
  thunks := #[.pending (.constant ⟨2⟩), .pending (.variant ⟨2⟩)]

theorem built_sharedStore : sharedStore.Built := by
  rintro ⟨_ | _ | t⟩ ht
  · exact ⟨⟨2⟩, .inl rfl⟩
  · exact ⟨⟨2⟩, .inr (.inl rfl)⟩
  · exact absurd ht (by simp [sharedStore])

theorem completion_sharedStore :
    Orderly {} sharedStore (.record ⟨0⟩) ∧
      ∃ s', Gives {} (fun again => unary again .complete (.record ⟨0⟩)) sharedStore
          (.record ⟨0⟩) s' ∧
        IsCompletion {} sharedStore (.record ⟨0⟩) (.record ⟨0⟩) s' := by
  have horderly : Orderly {} sharedStore (.record ⟨0⟩) := built_sharedStore.orderly _
  have hrun : (outcome (unary (perform {} 10) .complete (.record ⟨0⟩)) sharedStore).1.toOption =
      some (.record ⟨0⟩) := by decide +kernel
  have hgives := gives_complete_of_run hrun
  exact ⟨horderly, _, hgives, (completion horderly).1 _ _ hgives⟩

/-- A datatype that can be changed: one of its members is deferred, and writes to another. -/
def meddlingStore : Store where
  records := #[[(.text "a", .thunk ⟨0⟩), (.text "b", .int 1)]]
  thunks := #[.pending (.expr none [("assign", .operation 0 .assign ⟨0⟩)]
    (.call (.var "assign") [.constant (.text "b"), .constant (.int 2)]))]
  datatypes := #[⟨0⟩]

/-- Without order an entry that is not deferred may change. -/
theorem complete_meddlingStore :
    (meddlingStore.entries ⟨0⟩).get? (.text "b") = some (.int 1) ∧
      ∃ s', Gives {} (fun again => unary again .complete (.record ⟨0⟩)) meddlingStore
          (.record ⟨0⟩) s' ∧
        (s'.entries ⟨0⟩).get? (.text "b") = some (.int 2) := by
  have hrun : (outcome (unary (perform {} 10) .complete (.record ⟨0⟩)) meddlingStore).1.toOption =
      some (.record ⟨0⟩) := by decide +kernel
  exact ⟨by decide +kernel, _, gives_complete_of_run hrun, by decide +kernel⟩

end LazyMatch
