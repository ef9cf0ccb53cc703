import LazyMatch.Proofs.Evolution
import Mathlib.Logic.Hydra

/-!
# The course of forcing a structure throughout

Forcing a value throughout takes records off a queue, forces their entries in place and queues the
records among these. Nothing marks the records that have been visited, so that a record which is
held twice is visited twice, and the records that computations make join the queue in their turn.

The work proceeds from point to point (`Point.Steps`): the next entry of the record at hand, or the
next record. What is proved of one step is carried along all of them.

* `Point.exists_course`: what the evaluator does goes from point to point;
* `Point.ends_of_steps`: and the evaluator comes to where the points lead;
* `Point.exists_done`: there is an end when records lead to one another in a well-founded way, since
  then the records at hand, as a multiset, decrease with every record that is taken.
-/

namespace LazyMatch

/-! ### Points -/

/-- How far the work has come: the store, the record at hand, the number of entries that it had when
it was taken, the places in it that are still to come, and the queue. -/
structure Point where
  store : Store
  record : RecordRef
  size : ℕ
  places : List ℕ
  queue : List RecordRef

namespace Point

/-- A record is taken off the queue. -/
def begin (s : Store) (r : RecordRef) (queue : List RecordRef) : Point :=
  ⟨s, r, (s.entries r).length, List.range (s.entries r).length, queue⟩

/-- One entry is forced in place, or the next record is taken, if it is in the store. -/
inductive Steps (env : Env) (tell : Event → List Value) : Point → Point → Prop where
  | entry {s s' : Store} {r : RecordRef} {size i : ℕ} {v : Value} {places : List ℕ}
      {queue : List RecordRef} (hsize : (s.entries r).length = size)
      (h : Ends env tell (fun again => settleEntry again r i) s (.ok v) s') :
      Steps env tell ⟨s, r, size, i :: places, queue⟩ ⟨s', r, size, places, queue ++ v.queued⟩
  | record {s : Store} {r q : RecordRef} {size : ℕ} {queue : List RecordRef}
      (hsize : (s.entries r).length = size) (hq : q.index < s.records.size) :
      Steps env tell ⟨s, r, size, [], q :: queue⟩ (begin s q queue)

/-- There is nothing left to do. -/
def IsDone (p : Point) : Prop :=
  p.places = [] ∧ p.queue = [] ∧ (p.store.entries p.record).length = p.size

/-- The work stops for a reason: an entry cannot be forced, or the record has changed its size. -/
def Stops (env : Env) (tell : Event → List Value) (p : Point) (e : Stop) (s' : Store) : Prop :=
  (∃ i places, p.places = i :: places ∧ (p.store.entries p.record).length = p.size ∧
    Ends env tell (fun again => settleEntry again p.record i) p.store (.error e) s') ∨
  ((p.store.entries p.record).length ≠ p.size ∧ e = .fault .disturbed ∧ s' = p.store)

/-- What is left to do with a record and a queue. -/
def work (r : RecordRef) (size : ℕ) (places : List ℕ) (queue : List RecordRef)
    (again : Evaluator) : Run Value :=
  settleEntries again r size places >>= fun found => again (.settle (queue ++ found))

/-- What is left to do. -/
def rest (p : Point) : Evaluator → Run Value := work p.record p.size p.places p.queue

section Evaluator

variable {env : Env} {tell : Event → List Value} {s s' : Store} {r : RecordRef} {size i : ℕ}
  {places : List ℕ} {queue : List RecordRef} {res : Except Stop Value}

theorem outcome_settle_cons (hr : r.index < s.records.size) (n : ℕ) :
    outcome (observed env tell (n + 1) (.settle (r :: queue))) s =
      outcome ((begin s r queue).rest (observed env tell n)) s := by
  rw [observed_quiet fun _ => rfl, step, settle, outcome_get_bind, Store.getElem?_records hr]
  rfl

/-- With a record that is not in the store the work does not come to an end. -/
theorem outcome_settle_missing (hr : ¬ r.index < s.records.size) (n : ℕ) :
    outcome (observed env tell n (.settle (r :: queue))) s = (.error .exhausted, s) := by
  cases n with
  | zero => rfl
  | succ n =>
    rw [observed_quiet fun _ => rfl, step, settle, outcome_get_bind,
      Array.getElem?_eq_none (Nat.le_of_not_lt hr)]
    rfl

theorem ends_settle_cons_iff :
    Ends env tell (fun again => again (.settle (r :: queue))) s res s' ↔
      r.index < s.records.size ∧ Ends env tell (begin s r queue).rest s res s' := by
  by_cases hr : r.index < s.records.size
  · rw [ends_again_iff (outcome_settle_cons hr), and_iff_right hr]
  · refine iff_of_false ?_ fun h => hr h.1
    rintro ⟨hres, n, hn⟩
    have hrun := (hn n (Nat.le_refl n)).symm.trans (outcome_settle_missing hr n)
    exact hres (congrArg Prod.fst hrun)

theorem outcome_work_nil (hsize : (s.entries r).length = size) (again : Evaluator) :
    outcome (work r size [] queue again) s = outcome (again (.settle queue)) s := by
  have hentries : outcome (settleEntries again r size []) s = (.ok [], s) := by
    rw [settleEntries, outcome_bind_ok (outcome_requireSize hsize), outcome_pure]
  rw [work, outcome_bind_ok hentries, List.append_nil]

theorem outcome_work_cons (hsize : (s.entries r).length = size) (again : Evaluator) :
    outcome (work r size (i :: places) queue again) s =
      outcome (settleEntry again r i >>= fun v =>
        work r size places (queue ++ v.queued) again) s := by
  rw [work, settleEntries_cons, bind_assoc, outcome_bind_ok (outcome_requireSize hsize)]
  simp only [work, bind_assoc, pure_bind, List.append_assoc]

theorem ends_work_cons_iff (hsize : (s.entries r).length = size) :
    Ends env tell (work r size (i :: places) queue) s res s' ↔
      Ends env tell (fun again => settleEntry again r i >>= fun v =>
        work r size places (queue ++ v.queued) again) s res s' :=
  ends_congr (outcome_work_cons hsize)

theorem outcome_requireSize_ne (hsize : (s.entries r).length ≠ size) :
    outcome (requireSize r size) s = (.error (.fault .disturbed), s) := by
  rw [requireSize, outcome_get_bind, if_pos hsize]
  rfl

theorem outcome_work_disturbed (hsize : (s.entries r).length ≠ size) (again : Evaluator) :
    outcome (work r size places queue again) s = (.error (.fault .disturbed), s) := by
  have hrequire := outcome_requireSize_ne hsize
  refine outcome_bind_error ?_ _
  cases places with
  | nil =>
    rw [settleEntries]
    exact outcome_bind_error hrequire _
  | cons i places =>
    rw [settleEntries]
    exact outcome_bind_error hrequire _

/-- What is left comes to what is left after a step. -/
theorem Steps.ends {p p' : Point} (h : p.Steps env tell p')
    (hends : Ends env tell p'.rest p'.store res s') : Ends env tell p.rest p.store res s' := by
  cases h with
  | @entry s s₁ r size i v places queue hsize h =>
    exact (ends_work_cons_iff hsize).mpr
      (h.bind (f := fun v : Value => work r size places (queue ++ v.queued)) hends)
  | @record s r q size queue hsize hq =>
    exact (ends_congr (y := fun again => again (.settle (q :: queue)))
      (outcome_work_nil hsize)).mpr (ends_settle_cons_iff.mpr ⟨hq, hends⟩)

theorem ends_of_steps {p p' : Point} (h : Relation.ReflTransGen (Steps env tell) p p')
    (hends : Ends env tell p'.rest p'.store res s') : Ends env tell p.rest p.store res s' := by
  induction h using Relation.ReflTransGen.head_induction_on with
  | refl => exact hends
  | head hstep _ ih => exact hstep.ends ih

theorem IsDone.ends {p : Point} (h : p.IsDone) :
    Ends env tell p.rest p.store (.ok .null) p.store := by
  obtain ⟨s, r, size, places, queue⟩ := p
  obtain ⟨rfl, rfl, hsize⟩ := h
  refine (ends_congr (outcome_work_nil hsize)).mpr ⟨by simp, 1, fun m hm => ?_⟩
  obtain ⟨k, rfl⟩ : ∃ k, m = k + 1 := ⟨m - 1, by omega⟩
  show outcome (observed env tell (k + 1) (.settle [])) s = _
  rw [observed_quiet fun _ => rfl]
  rfl

theorem Stops.ends {p : Point} {e : Stop} (h : p.Stops env tell e s') :
    Ends env tell p.rest p.store (.error e) s' := by
  obtain ⟨s, r, size, places, queue⟩ := p
  rcases h with ⟨i, places, rfl, hsize, h⟩ | ⟨hsize, rfl, rfl⟩
  · exact (ends_work_cons_iff hsize).mpr
      (h.bind_error (f := fun v : Value => work r size places (queue ++ v.queued)))
  · exact ⟨by simp, 0, fun _ _ => outcome_work_disturbed hsize _⟩

/-- The work has come to this end. -/
def Closes (env : Env) (tell : Event → List Value) (p : Point) (res : Except Stop Value)
    (s' : Store) : Prop :=
  (p.IsDone ∧ res = .ok .null ∧ s' = p.store) ∨ ∃ e, res = .error e ∧ p.Stops env tell e s'

/-- Entry by entry, up to the end of the record. -/
theorem exists_course_of_record (n : ℕ) (hres : res ≠ .error .exhausted)
    (hrecord : ∀ s queue, (s.entries r).length = size →
      outcome (observed env tell n (.settle queue)) s = (res, s') →
      ∃ p', Relation.ReflTransGen (Steps env tell) ⟨s, r, size, [], queue⟩ p' ∧
        p'.Closes env tell res s')
    (h : outcome (work r size places queue (observed env tell n)) s = (res, s')) :
    ∃ p', Relation.ReflTransGen (Steps env tell) ⟨s, r, size, places, queue⟩ p' ∧
      p'.Closes env tell res s' := by
  induction places generalizing s queue with
  | nil =>
    by_cases hsize : (s.entries r).length = size
    · rw [outcome_work_nil hsize] at h
      exact hrecord s queue hsize h
    · rw [outcome_work_disturbed hsize] at h
      cases h
      exact ⟨_, .refl, .inr ⟨_, rfl, .inr ⟨hsize, rfl, rfl⟩⟩⟩
  | cons i places ih =>
    by_cases hsize : (s.entries r).length = size
    · rw [outcome_work_cons hsize] at h
      have hdefinite : Definite env tell (fun again => settleEntry again r i) s :=
        (made_settleEntry r i).definite_of_made
      rcases hentry : outcome (settleEntry (observed env tell n) r i) s with ⟨e | v, s₁⟩
      · rw [outcome_bind_error hentry] at h
        cases h
        exact ⟨_, .refl, .inr ⟨e, rfl,
          .inl ⟨i, places, rfl, hsize, hdefinite n _ _ hentry (by simpa using hres)⟩⟩⟩
      · rw [outcome_bind_ok hentry] at h
        obtain ⟨p', hsteps, hcloses⟩ := ih (s := s₁) h
        exact ⟨p', .head (.entry hsize (hdefinite n _ _ hentry (by simp))) hsteps, hcloses⟩
    · rw [outcome_work_disturbed hsize] at h
      cases h
      exact ⟨_, .refl, .inr ⟨_, rfl, .inr ⟨hsize, rfl, rfl⟩⟩⟩

/-- **What the evaluator does goes from point to point**, to the end or to a reason to stop. -/
theorem exists_course {n : ℕ} {p : Point}
    (h : outcome (p.rest (observed env tell n)) p.store = (res, s'))
    (hres : res ≠ .error .exhausted) :
    ∃ p', Relation.ReflTransGen (Steps env tell) p p' ∧ p'.Closes env tell res s' := by
  -- Only to take the next record costs fuel.
  induction n generalizing p with
  | zero =>
    refine exists_course_of_record 0 hres (fun s queue _ hsettle => ?_) h
    cases hsettle
    exact absurd rfl hres
  | succ n ih =>
    refine exists_course_of_record (n + 1) hres (fun s queue hsize hsettle => ?_) h
    cases queue with
    | nil =>
      rw [observed_quiet fun _ => rfl] at hsettle
      cases hsettle
      exact ⟨_, .refl, .inl ⟨⟨rfl, rfl, hsize⟩, rfl, rfl⟩⟩
    | cons q queue =>
      by_cases hq : q.index < s.records.size
      · rw [outcome_settle_cons hq] at hsettle
        obtain ⟨p', hsteps, hcloses⟩ := ih hsettle
        exact ⟨p', .head (.record hsize hq) hsteps, hcloses⟩
      · rw [outcome_settle_missing hq] at hsettle
        cases hsettle
        exact absurd rfl hres

theorem Steps.unique {p q q' : Point} (h : p.Steps env tell q) (h' : p.Steps env tell q') :
    q = q' := by
  cases h with
  | entry hsize h =>
    cases h' with
    | entry hsize' h' =>
      obtain ⟨hv, rfl⟩ := h.unique h'
      cases hv
      rfl
  | record hsize =>
    cases h' with
    | record hsize' => rfl

theorem IsDone.not_steps {p q : Point} (h : p.IsDone) : ¬ p.Steps env tell q := by
  rintro (⟨_, _⟩ | _)
  · cases h.1
  · cases h.2.1

theorem Stops.not_steps {p q : Point} {e : Stop} (h : p.Stops env tell e s') :
    ¬ p.Steps env tell q := by
  rintro (⟨hsize, hends⟩ | hsize)
  · rcases h with ⟨_, _, hplaces, -, hends'⟩ | ⟨hsize', -⟩
    · cases hplaces
      cases (hends.unique hends').1
    · exact hsize' hsize
  · rcases h with ⟨_, _, hplaces, -⟩ | ⟨hsize', -⟩
    · cases hplaces
    · exact hsize' hsize

/-- Every point on the way leads to the last one. -/
theorem reaches_last {p q p' : Point} (hlast : ∀ q, ¬ p'.Steps env tell q)
    (hp' : Relation.ReflTransGen (Steps env tell) p p')
    (hq : Relation.ReflTransGen (Steps env tell) p q) :
    Relation.ReflTransGen (Steps env tell) q p' := by
  have hunique : Relator.RightUnique (Steps env tell) := fun _ _ _ h h' => h.unique h'
  rcases Relation.ReflTransGen.total_of_right_unique hunique hq hp' with hreach | hback
  · exact hreach
  · rcases Relation.ReflTransGen.cases_head hback with rfl | ⟨_, hstep, -⟩
    · exact .refl
    · exact absurd hstep (hlast _)

end Evaluator

/-! ### There is an end -/

section Termination

variable {env : Env} {tell : Event → List Value} {M : Point → Prop}
  {below : RecordRef → RecordRef → Prop}

/-- The next entry comes to this record. -/
def Queues (env : Env) (tell : Event → List Value) (p : Point) (q : RecordRef) : Prop :=
  ∃ i places s', p.places = i :: places ∧
    Ends env tell (fun again => settleEntry again p.record i) p.store (.ok (.record q)) s'

/-- Through the entries of the record at hand. -/
theorem exists_end_of_record (hstep : ∀ p, M p → p.IsDone ∨ ∃ p', p.Steps env tell p' ∧ M p')
    (hbelow : ∀ p q, M p → p.Queues env tell q → below q p.record) {p : Point} (hp : M p) :
    ∃ p' found, Relation.ReflTransGen (Steps env tell) p p' ∧ M p' ∧ p'.places = [] ∧
      p'.queue = p.queue ++ found ∧ ∀ q ∈ found, below q p.record := by
  obtain ⟨s, r, size, places, queue⟩ := p
  induction places generalizing s queue with
  | nil => exact ⟨_, [], .refl, hp, rfl, (List.append_nil _).symm, by simp⟩
  | cons i places ih =>
    rcases hstep _ hp with hdone | ⟨p', hfirst, hp'⟩
    · cases hdone.1
    · cases hfirst with
      | @entry _ s₁ _ _ _ v _ _ hsize h =>
        obtain ⟨p', found, hsteps, hM, hplaces, hqueue, hfound⟩ := ih s₁ (queue ++ v.queued) hp'
        refine ⟨p', v.queued ++ found, .head (.entry hsize h) hsteps, hM, hplaces, ?_, ?_⟩
        · rw [hqueue, List.append_assoc]
        · intro q hq
          rcases List.mem_append.mp hq with hq | hq
          · cases Value.mem_queued.mp hq
            exact hbelow _ q hp ⟨i, places, s₁, rfl, h⟩
          · exact hfound q hq

/-- **There is an end**, when the work does not stop and the records that entries come to are below
the records that hold them. -/
theorem exists_done (hwf : WellFounded below)
    (hstep : ∀ p, M p → p.IsDone ∨ ∃ p', p.Steps env tell p' ∧ M p')
    (hbelow : ∀ p q, M p → p.Queues env tell q → below q p.record) {p : Point} (hp : M p) :
    ∃ p', Relation.ReflTransGen (Steps env tell) p p' ∧ M p' ∧ p'.IsDone := by
  -- The record at hand gives way to records below it.
  generalize hrecords : p.record ::ₘ (p.queue : Multiset RecordRef) = records
  induction records using hwf.cutExpand.induction generalizing p with
  | _ records ih =>
    obtain ⟨p₁, found, hsteps, hM, hplaces, hqueue, hfound⟩ :=
      exists_end_of_record hstep hbelow hp
    rcases hstep p₁ hM with hdone | ⟨p₂, hnext, hM₂⟩
    · exact ⟨p₁, hsteps, hM, hdone⟩
    · cases hnext with
      | entry => cases hplaces
      | @record s r q size queue hsize hq =>
        have hcut : Relation.CutExpand below (q ::ₘ (queue : Multiset RecordRef)) records := by
          have hqueue' : q :: queue = p.queue ++ found := hqueue
          refine ⟨found, p.record, hfound, ?_⟩
          rw [← hrecords, Multiset.cons_coe, hqueue', ← Multiset.coe_add, ← Multiset.singleton_add]
          exact (add_comm _ _).trans (add_assoc _ _ _).symm
        obtain ⟨p', hrest, hM', hdone⟩ := ih _ hcut hM₂ rfl
        exact ⟨p', hsteps.trans (.head (.record hsize hq) hrest), hM', hdone⟩

end Termination

end Point

end LazyMatch

