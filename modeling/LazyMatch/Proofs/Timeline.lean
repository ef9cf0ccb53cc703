import LazyMatch.Proofs.TaskAnatomy

/-!
# The course of an evaluation

Evaluation goes through moments: a task begins, with other tasks under way below it, or a task ends.
`watched` is the evaluator with a note-taker who may add something to the log at every moment.
Taking notes changes nothing else, so that the moments of a run are what every note-taker would see.

`Span` says what can happen between two points of a run, in terms of tasks and of the states of
deferred values: nothing, a new deferred value, or a task with all that happens within it. Resolving
a deferred value gives the state away that it finds, and leaves a state behind.

* `watched_silent`: without notes, the watched evaluator is the evaluator;
* `timed_watched`: every run has a timeline, which is the same for every note-taker, and its moments
  make a `Span`.
-/

namespace LazyMatch

variable {α β : Type}

/-! ### Moments -/

/-- The state of a deferred value among those of all. -/
def cellAt (cells : Array Cell) (t : ThunkRef) : Cell := cells[t.index]?.getD default

/-- The states of all deferred values after one has changed. -/
def putCell (cells : Array Cell) (t : ThunkRef) (c : Cell) : Array Cell :=
  cells.setIfInBounds t.index c

/-- A moment of an evaluation, with the tasks under way below the one that begins or ends, and with
the states of all deferred values. -/
inductive Moment where
  | begins (task : Task) (below : List Task) (cells : Array Cell)
  /-- A task ends, which began with the states that were `before`. -/
  | ends (task : Task) (below : List Task) (before cells : Array Cell) (result : Except Stop Value)

/-- The tasks under way below the one that begins or ends. -/
def Moment.below : Moment → List Task
  | .begins _ below _ | .ends _ below _ _ _ => below

/-- The states of all deferred values. -/
def Moment.cells : Moment → Array Cell
  | .begins _ _ cells | .ends _ _ _ cells _ => cells

/-- What a note-taker writes down at each moment. -/
abbrev Notes := Moment → List Value

/-- Write down what there is to note about a moment. -/
def jot (note : Notes) (m : Moment) : Run Unit := modify fun s => s.withLog (s.log ++ note m)

/-- Do a task while a note-taker watches. -/
def watched (env : Env) (note : Notes) : ℕ → List Task → Evaluator
  | 0, _, _ => throw .exhausted
  | fuel + 1, below, task => do
    let before := (← get).thunks
    jot note (.begins task below before)
    let v ← tryCatch (step env (watched env note fuel (task :: below)) task) fun stop => do
      jot note (.ends task below before (← get).thunks (.error stop))
      throw stop
    jot note (.ends task below before (← get).thunks (.ok v))
    return v

/-- A watched task has the outcome that it would have anyway, between two notes. -/
theorem outcome_watched (env : Env) (note : Notes) (fuel : ℕ) (below : List Task) (task : Task)
    {s s' : Store} {r : Except Stop Value}
    (h : outcome (step env (watched env note fuel (task :: below)) task)
      (s.withLog (s.log ++ note (.begins task below s.thunks))) = (r, s')) :
    outcome (watched env note (fuel + 1) below task) s =
      (r, s'.withLog (s'.log ++ note (.ends task below s.thunks s'.thunks r))) := by
  simp only [watched, outcome_get_bind, jot, outcome_modify_bind]
  rw [outcome_bind, outcome_tryCatch, h]
  cases r with
  | ok v => rfl
  | error e => rfl

theorem Store.withLog_append_nil (s : Store) : s.withLog (s.log ++ ([] : List Value)) = s := by
  simp [Store.withLog]

/-- To a note-taker who takes no notice of the tasks under way below, they make no difference. -/
theorem watched_below {env : Env} {note : Notes}
    (hbegins : ∀ task below below' cells,
      note (.begins task below cells) = note (.begins task below' cells))
    (hends : ∀ task below below' before cells r,
      note (.ends task below before cells r) = note (.ends task below' before cells r))
    (fuel : ℕ) (below below' : List Task) (task : Task) :
    watched env note fuel below task = watched env note fuel below' task := by
  induction fuel generalizing below below' task with
  | zero => rfl
  | succ fuel ih =>
    have hagain : watched env note fuel (task :: below) = watched env note fuel (task :: below') :=
      funext fun task' => ih _ _ task'
    refine outcome_ext fun s => ?_
    rcases hstep : outcome (step env (watched env note fuel (task :: below)) task)
      (s.withLog (s.log ++ note (.begins task below s.thunks))) with ⟨r, s'⟩
    rw [outcome_watched env note fuel below task hstep]
    rw [hagain, hbegins task below below'] at hstep
    rw [outcome_watched env note fuel below' task hstep, hends task below below']

theorem watched_silent (env : Env) (fuel : ℕ) (below : List Task) (task : Task) :
    watched env (fun _ => []) fuel below task = perform env fuel task := by
  induction fuel generalizing below task with
  | zero => rfl
  | succ fuel ih =>
    have hagain : watched env (fun _ => []) fuel (task :: below) = perform env fuel :=
      funext fun task' => ih _ task'
    refine outcome_ext fun s => ?_
    rcases hstep : outcome (step env (perform env fuel) task) s with ⟨r, s'⟩
    rw [← hagain, ← s.withLog_append_nil] at hstep
    rw [outcome_watched env _ fuel below task hstep, Store.withLog_append_nil, perform, ← hagain,
      ← hstep, Store.withLog_append_nil]

/-! ### Timelines -/

/-- What there is on a timeline: a moment, or something that the program itself has logged. -/
inductive Entry where
  | logged (v : Value)
  | moment (m : Moment)

/-- The moment that an entry is. -/
def Entry.moment? : Entry → Option Moment
  | .logged _ => none
  | .moment m => some m

/-- What comes into the log for an entry. -/
def Entry.jotted (note : Notes) : Entry → List Value
  | .logged v => [v]
  | .moment m => note m

/-- The moments of a timeline. -/
def momentsOf (timeline : List Entry) : List Moment := timeline.filterMap Entry.moment?

/-- What a note-taker makes of a timeline. -/
def transcript (note : Notes) (timeline : List Entry) : List Value :=
  timeline.flatMap (Entry.jotted note)

theorem momentsOf_append (tl tl' : List Entry) :
    momentsOf (tl ++ tl') = momentsOf tl ++ momentsOf tl' := List.filterMap_append

theorem transcript_append (note : Notes) (tl tl' : List Entry) :
    transcript note (tl ++ tl') = transcript note tl ++ transcript note tl' := List.flatMap_append

/-- What can happen between two points of a run with some tasks under way: how the states of
deferred values change, and the moments in between. -/
inductive Span : List Task → Array Cell → List Moment → Array Cell → Prop where
  | nothing {below : List Task} {a : Array Cell} : Span below a [] a
  /-- A new deferred value. -/
  | delay {below : List Task} {a : Array Cell} (c : Computation) :
      Span below a [] (a.push (.pending c))
  | append {below : List Task} {a b c : Array Cell} {ms ms' : List Moment}
      (first : Span below a ms b) (second : Span below b ms' c) : Span below a (ms ++ ms') c
  /-- Any task but resolving a deferred value. -/
  | task {below : List Task} {a b : Array Cell} {ms : List Moment} {task : Task}
      (hresolve : ∀ t, task ≠ .resolve t) (inner : Span (task :: below) a ms b)
      (r : Except Stop Value) :
      Span below a (.begins task below a :: ms ++ [.ends task below a b r]) b
  /-- A deferred value that is resolved already. -/
  | known {below : List Task} {a : Array Cell} {t : ThunkRef} {v : Value}
      (hcell : cellAt a t = .resolved v) :
      Span below a [.begins (.resolve t) below a, .ends (.resolve t) below a a (.ok v)] a
  /-- A deferred value whose computation is under way. -/
  | circular {below : List Task} {a : Array Cell} {t : ThunkRef} {c : Computation}
      (hcell : cellAt a t = .running c) :
      Span below a [.begins (.resolve t) below a,
        .ends (.resolve t) below a a (.error (circularStop c))] a
  /-- A deferred value whose computation runs. -/
  | attempt {below : List Task} {a b : Array Cell} {ms : List Moment} {t : ThunkRef}
      {c : Computation} {r : Except Stop Value} (hcell : cellAt a t = .pending c)
      (inner : Span (.resolve t :: below) (putCell a t (.running c)) ms b)
      (hself : r ≠ .ok (.thunk t)) :
      Span below a (.begins (.resolve t) below a :: ms ++
        [.ends (.resolve t) below a (putCell b t (c.outlasts r)) r]) (putCell b t (c.outlasts r))

@[simp] theorem size_putCell (cells : Array Cell) (t : ThunkRef) (c : Cell) :
    (putCell cells t c).size = cells.size := Array.size_setIfInBounds

/-- Deferred values are never lost. -/
theorem Span.size_le {below : List Task} {a b : Array Cell} {ms : List Moment}
    (h : Span below a ms b) : a.size ≤ b.size := by
  induction h with
  | nothing => exact Nat.le_refl _
  | delay c => simp
  | append first second ih₁ ih₂ => exact Nat.le_trans ih₁ ih₂
  | task hresolve inner r ih => exact ih
  | known hcell => exact Nat.le_refl _
  | circular hcell => exact Nat.le_refl _
  | attempt hcell inner hself ih => simpa using ih

/-- Whether a computation has a timeline when it starts in a store, the same for every note-taker,
and what it answers is as it should be. -/
def Timed (below : List Task) (P : α → Prop) (x : Notes → Run α) (s : Store) : Prop :=
  ∃ (r : Except Stop α) (s' : Store) (timeline : List Entry),
    (∀ note log, outcome (x note) (s.withLog log) =
      (r, s'.withLog (log ++ transcript note timeline))) ∧
    (∀ a, r = .ok a → P a) ∧ Span below s.thunks (momentsOf timeline) s'.thunks

section Timed

variable {below : List Task} {P : α → Prop} {Q : β → Prop} {s : Store}

theorem Timed.answer {a : α} (h : P a) : Timed below P (fun _ => pure a) s := by
  refine ⟨.ok a, s, [], fun note log => ?_, fun _ ha => ?_, .nothing⟩
  · simp [transcript]
  · cases ha
    exact h

theorem Timed.stop (e : Stop) : Timed below P (fun _ => throw e) s := by
  refine ⟨.error e, s, [], fun note log => ?_, fun _ ha => ?_, .nothing⟩
  · simp [transcript]
  · cases ha

theorem append_transcript (log : Array Value) (note : Notes) (tl tl' : List Entry) :
    log ++ transcript note (tl ++ tl') = log ++ transcript note tl ++ transcript note tl' := by
  rw [transcript_append, ← Array.toList_inj]
  simp

theorem Timed.chain {x : Notes → Run α} {f : α → Notes → Run β} (hx : Timed below P x s)
    (hf : ∀ a s', P a → Timed below Q (f a) s') :
    Timed below Q (fun note => x note >>= fun a => f a note) s := by
  obtain ⟨r, s₁, tl₁, hrun₁, hP, hspan₁⟩ := hx
  cases r with
  | error e =>
    refine ⟨.error e, s₁, tl₁, fun note log => ?_, fun _ ha => ?_, hspan₁⟩
    · exact outcome_bind_error (hrun₁ note log) _
    · cases ha
  | ok a =>
    obtain ⟨r, s₂, tl₂, hrun₂, hQ, hspan₂⟩ := hf a s₁ (hP a rfl)
    refine ⟨r, s₂, tl₁ ++ tl₂, fun note log => ?_, hQ, ?_⟩
    · rw [outcome_bind_ok (hrun₁ note log), hrun₂, append_transcript]
    · rw [momentsOf_append]
      exact hspan₁.append hspan₂

/-- A computation that is put together from the steps of evaluation has a timeline when the tasks
that it leads to do. -/
theorem Made.timed {x : Evaluator → Run α} (h : Made (fun _ => False) P x)
    {again : Notes → Evaluator}
    (hagain : ∀ task s, Timed below (fun _ => True) (fun note => again note task) s) (s : Store) :
    Timed below P (fun note => x (again note)) s := by
  induction h generalizing s with
  | answer h => exact .answer h
  | stop e => exact .stop e
  | look same made ih =>
    obtain ⟨r, s', tl, hrun, hP, hspan⟩ := ih s s.avoids_none s
    refine ⟨r, s', tl, fun note log => ?_, hP, hspan⟩
    rw [outcome_get_bind, ← hrun note log]
    exact congrArg (fun f => outcome (f (again note)) (s.withLog log))
      (same s s.thunks log s.avoids_none (.refl _ _))
  | @alter _ _ f same _ made =>
    have hthunks : (f s).2.thunks = s.thunks :=
      congrArg (fun x => x.2.thunks) (same s s.thunks s.log)
    refine ⟨.ok (f s).1, (f s).2, [], fun note log => ?_, fun _ ha => ?_, ?_⟩
    · have hf : f (s.withLog log) = ((f s).1, (f s).2.recast s.thunks log) := same s s.thunks log
      rw [outcome_modifyGet, hf, ← hthunks]
      rfl
    · cases ha
      exact (made s s.avoids_none).1
    · rw [hthunks]
      exact .nothing
  | log v =>
    refine ⟨.ok ⟨⟩, s, [.logged v], fun note log => ?_, fun _ _ => trivial, .nothing⟩
    simp [transcript, Entry.jotted, Store.withLog]
  | delay hc =>
    rename_i c
    exact ⟨.ok ⟨s.thunks.size⟩, { s with thunks := s.thunks.push (.pending c) }, [],
      fun note log => rfl, fun _ _ => id, .delay c⟩
  | again h =>
    obtain ⟨r, s', tl, hrun, -, hspan⟩ := hagain _ s
    exact ⟨r, s', tl, hrun, fun v _ => v.avoids_none, hspan⟩
  | chain first rest ih₁ ih₂ => exact .chain (ih₁ s) fun a s' ha => ih₂ a ha s'

/-- Resolving a deferred value has a timeline when its computation does. -/
theorem timed_resolve {t : ThunkRef} {again : Notes → Evaluator}
    (hagain : ∀ task s, Timed (.resolve t :: below) (fun _ => True) (fun note => again note task) s)
    (s : Store) : ∃ (r : Except Stop Value) (s' : Store) (timeline : List Entry),
      (∀ note log, outcome (resolve (again note) t) (s.withLog log) =
        (r, s'.withLog (log ++ transcript note timeline))) ∧
      Span below s.thunks (.begins (.resolve t) below s.thunks :: momentsOf timeline ++
        [.ends (.resolve t) below s.thunks s'.thunks r]) s'.thunks := by
  rcases hcell : s.cell t with c | c | v
  · obtain ⟨r, s', tl, hrun, -, hspan⟩ :=
      (made_compute c.avoids_none).timed hagain (s.setCell t (.running c))
    have hpending : ∀ log, (s.withLog log).cell t = .pending c := fun _ => hcell
    by_cases hself : r = .ok (.thunk t)
    · subst hself
      have ht : t.index < s'.thunks.size := by
        have hsize := hspan.size_le
        rw [Store.setCell, Array.size_setIfInBounds] at hsize
        exact Nat.lt_of_lt_of_le (Store.lt_of_cell_pending hcell) hsize
      refine ⟨.error (circularStop c), s'.setCell t (.pending c), tl, fun note log => ?_, ?_⟩
      · exact outcome_resolve_self (hpending log) (hrun note log) ht
      · exact .attempt (r := .error (circularStop c)) hcell hspan (by simp)
    · refine ⟨r, s'.setCell t (c.outlasts r), tl, fun note log => ?_, ?_⟩
      · exact outcome_resolve_pending (hpending log) (hrun note log) hself
      · exact .attempt hcell hspan hself
  · refine ⟨.error (circularStop c), s, [], fun note log => ?_, .circular hcell⟩
    have hrunning : (s.withLog log).cell t = .running c := hcell
    rw [outcome_resolve_running hrunning]
    simp [transcript]
  · refine ⟨.ok v, s, [], fun note log => ?_, .known hcell⟩
    have hresolved : (s.withLog log).cell t = .resolved v := hcell
    rw [outcome_resolve_resolved hresolved]
    simp [transcript]

/-- Every run has a timeline. -/
theorem timed_watched (env : Env) (fuel : ℕ) (below : List Task) (task : Task) (s : Store) :
    Timed below (fun _ => True) (fun note => watched env note fuel below task) s := by
  induction fuel generalizing below task s with
  | zero => exact .stop _
  | succ fuel ih =>
    have hframe : ∃ (r : Except Stop Value) (s' : Store) (timeline : List Entry),
        (∀ note log, outcome (step env (watched env note fuel (task :: below)) task)
          (s.withLog log) = (r, s'.withLog (log ++ transcript note timeline))) ∧
        Span below s.thunks (.begins task below s.thunks :: momentsOf timeline ++
          [.ends task below s.thunks s'.thunks r]) s'.thunks := by
      by_cases hresolve : ∃ t, task = .resolve t
      · obtain ⟨t, rfl⟩ := hresolve
        exact timed_resolve (fun task s => ih _ task s) s
      · obtain ⟨r, s', tl, hrun, -, hspan⟩ :=
          (made_step env.avoids_none task.avoids_none fun t ht => hresolve ⟨t, ht⟩).timed
            (fun task' s => ih (task :: below) task' s) s
        exact ⟨r, s', tl, hrun, .task (fun t ht => hresolve ⟨t, ht⟩) hspan r⟩
    obtain ⟨r, s', tl, hrun, hspan⟩ := hframe
    refine ⟨r, s', .moment (.begins task below s.thunks) :: tl ++
      [.moment (.ends task below s.thunks s'.thunks r)], fun note log => ?_, fun _ _ => trivial, ?_⟩
    · have hstep : outcome (step env (watched env note fuel (task :: below)) task)
          ((s.withLog log).withLog (log ++ note (.begins task below s.thunks))) = _ := hrun note _
      refine (outcome_watched env note fuel below task hstep).trans ?_
      refine congrArg (fun l => (r, s'.withLog l)) ?_
      rw [← Array.toList_inj]
      simp [transcript, Entry.jotted, Store.withLog]
    · simpa [momentsOf, Entry.moment?] using hspan

end Timed

end LazyMatch
