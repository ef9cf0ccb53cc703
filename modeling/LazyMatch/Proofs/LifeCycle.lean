import LazyMatch.Proofs.Timeline
import Mathlib.Data.List.Chain

/-!
# The life of a deferred value

A deferred value is pending until its computation has answered, and resolved from then on; while the
computation runs it is marked. Whatever happens in a run, as `Span` describes it, keeps to that.

* `Span.stable`: what is resolved or running stays so, but for the end of the computation itself;
* `Span.matures`: a state only ever gives way to a later one (`Matures`);
* `Span.marked`: the running computations are those on the stack of tasks (`Marked`);
* `LifeCycle` puts it all together for the moments of a run, and `Span.lifeCycle` proves it.
-/

namespace LazyMatch

/-! ### States -/

theorem cellAt_of_getElem? {cells : Array Cell} {t : ThunkRef} {c : Cell}
    (h : cells[t.index]? = some c) : cellAt cells t = c := by
  rw [cellAt, h, Option.getD_some]

theorem getElem?_putCell_self {cells : Array Cell} {t : ThunkRef} (h : t.index < cells.size)
    (c : Cell) : (putCell cells t c)[t.index]? = some c := by
  simp [putCell, h]

theorem getElem?_putCell_of_ne {cells : Array Cell} {t t' : ThunkRef} (h : t' ≠ t) (c : Cell) :
    (putCell cells t c)[t'.index]? = cells[t'.index]? := by
  have hindex : t.index ≠ t'.index := fun he => h (by cases t; cases t'; simp_all)
  simp [putCell, hindex]

theorem cellAt_putCell_self {cells : Array Cell} {t : ThunkRef} (h : t.index < cells.size)
    (c : Cell) : cellAt (putCell cells t c) t = c := cellAt_of_getElem? (getElem?_putCell_self h c)

theorem cellAt_putCell_of_ne {cells : Array Cell} {t t' : ThunkRef} (h : t' ≠ t) (c : Cell) :
    cellAt (putCell cells t c) t' = cellAt cells t' := by
  rw [cellAt, getElem?_putCell_of_ne h, cellAt]

theorem cellAt_push_of_lt {cells : Array Cell} {t : ThunkRef} (h : t.index < cells.size)
    (c : Cell) : cellAt (cells.push c) t = cellAt cells t := by
  simp [cellAt, Array.getElem?_push, Nat.ne_of_lt h]

theorem lt_of_cellAt_pending {cells : Array Cell} {t : ThunkRef} {c : Computation}
    (h : cellAt cells t = .pending c) : t.index < cells.size := by
  by_contra hlt
  rw [cellAt, Array.getElem?_eq_none (Nat.le_of_not_lt hlt)] at h
  cases h

/-- Whether a state can give way to another: a computation stays the same until it has answered, and
what it answered stays for good. -/
def Cell.Matures : Cell → Cell → Prop
  | .resolved v, c' => c' = .resolved v
  | .pending c, c' | .running c, c' => c' = .pending c ∨ c' = .running c ∨ ∃ v, c' = .resolved v

theorem Cell.Matures.refl (c : Cell) : c.Matures c := by
  cases c with
  | pending c => exact .inl rfl
  | running c => exact .inr (.inl rfl)
  | resolved v => rfl

theorem Cell.Matures.trans {a b c : Cell} (hab : a.Matures b) (hbc : b.Matures c) :
    a.Matures c := by
  cases a with
  | resolved v =>
    cases hab
    exact hbc
  | pending d =>
    rcases hab with rfl | rfl | ⟨v, rfl⟩
    · exact hbc
    · exact hbc
    · exact .inr (.inr ⟨v, hbc⟩)
  | running d =>
    rcases hab with rfl | rfl | ⟨v, rfl⟩
    · exact hbc
    · exact hbc
    · exact .inr (.inr ⟨v, hbc⟩)

/-- Whether all deferred values that there are have given way to later states. -/
def Matures (a b : Array Cell) : Prop :=
  a.size ≤ b.size ∧ ∀ t : ThunkRef, t.index < a.size → (cellAt a t).Matures (cellAt b t)

theorem Matures.refl (a : Array Cell) : Matures a a := ⟨Nat.le_refl _, fun _ _ => .refl _⟩

theorem Matures.trans {a b c : Array Cell} (hab : Matures a b) (hbc : Matures b c) :
    Matures a c :=
  ⟨Nat.le_trans hab.1 hbc.1, fun t ht =>
    (hab.2 t ht).trans (hbc.2 t (Nat.lt_of_lt_of_le ht hab.1))⟩

theorem matures_putCell {a : Array Cell} {t : ThunkRef} {c : Cell} (h : (cellAt a t).Matures c) :
    Matures a (putCell a t c) := by
  refine ⟨by simp, fun t' ht' => ?_⟩
  by_cases ht : t' = t
  · subst ht
    rw [cellAt_putCell_self ht']
    exact h
  · rw [cellAt_putCell_of_ne ht]
    exact .refl _

/-- The states with which the task of a moment began. -/
def Moment.before : Moment → Array Cell
  | .begins _ _ cells => cells
  | .ends _ _ before _ _ => before

/-- The task that begins or ends. -/
def Moment.task : Moment → Task
  | .begins task _ _ | .ends task _ _ _ _ => task

/-- How resolving a deferred value ends, which depends on the state that it finds: the value that is
known is answered, a computation under way is not entered again, and one that is pending leaves its
answer, or itself when it stopped. -/
def Settles (t : ThunkRef) (before cells : Array Cell) (r : Except Stop Value) : Cell → Prop
  | .resolved v => r = .ok v ∧ cells = before
  | .running c => r = .error (circularStop c) ∧ cells = before
  | .pending c => cellAt cells t = c.outlasts r ∧ r ≠ .ok (.thunk t)

/-- The deferred values that tasks are to resolve. -/
def resolving (tasks : List Task) : List ThunkRef :=
  tasks.filterMap fun
    | .resolve t => some t
    | _ => none

theorem mem_resolving {tasks : List Task} {t : ThunkRef} :
    t ∈ resolving tasks ↔ .resolve t ∈ tasks := by
  constructor
  · intro h
    obtain ⟨task, htask, ht⟩ := List.mem_filterMap.mp h
    split at ht
    · cases ht
      exact htask
    · cases ht
  · exact fun h => List.mem_filterMap.mpr ⟨_, h, rfl⟩

theorem resolving_cons_of_ne {task : Task} (h : ∀ t, task ≠ .resolve t) (below : List Task) :
    resolving (task :: below) = resolving below := by
  refine List.filterMap_cons_none ?_
  split
  · exact absurd rfl (h _)
  · rfl

/-- The deferred values that are marked as running are those that the tasks under way resolve, each
of them once. -/
def Marked (below : List Task) (cells : Array Cell) : Prop :=
  (resolving below).Nodup ∧
    ∀ t : ThunkRef, (∃ c, cells[t.index]? = some (.running c)) ↔ .resolve t ∈ below

theorem marked_cons_of_ne {task : Task} (h : ∀ t, task ≠ .resolve t) {below : List Task}
    {cells : Array Cell} : Marked (task :: below) cells ↔ Marked below cells := by
  simp [Marked, resolving_cons_of_ne h, (h _).symm]

theorem Marked.push {below : List Task} {a : Array Cell} (h : Marked below a) (c : Computation) :
    Marked below (a.push (.pending c)) := by
  refine ⟨h.1, fun t => ?_⟩
  rw [← h.2 t]
  by_cases ht : t.index = a.size
  · simp [ht]
  · simp [Array.getElem?_push, ht]

theorem Marked.mark {below : List Task} {a : Array Cell} {t : ThunkRef} {c : Computation}
    (h : Marked below a) (hcell : cellAt a t = .pending c) :
    Marked (.resolve t :: below) (putCell a t (.running c)) := by
  have ht : .resolve t ∉ below := fun hmem => by
    obtain ⟨c', hc'⟩ := (h.2 t).mpr hmem
    cases hcell.symm.trans (cellAt_of_getElem? hc')
  refine ⟨List.nodup_cons.mpr ⟨fun hmem => ht (mem_resolving.mp hmem), h.1⟩, fun t' => ?_⟩
  by_cases heq : t' = t
  · subst heq
    simp [getElem?_putCell_self (lt_of_cellAt_pending hcell)]
  · rw [getElem?_putCell_of_ne heq, h.2 t']
    simp [heq]

theorem Marked.unmark {below : List Task} {b : Array Cell} {t : ThunkRef}
    (h : Marked (.resolve t :: below) b) (ht : t.index < b.size) (c : Computation)
    (r : Except Stop Value) : Marked below (putCell b t (c.outlasts r)) := by
  obtain ⟨hnot, hnodup⟩ : t ∉ resolving below ∧ (resolving below).Nodup := List.nodup_cons.mp h.1
  refine ⟨hnodup, fun t' => ?_⟩
  by_cases heq : t' = t
  · subst heq
    rw [getElem?_putCell_self ht]
    refine ⟨fun hc => ?_, fun hmem => absurd (mem_resolving.mpr hmem) hnot⟩
    cases r <;> simp [Computation.outlasts] at hc
  · rw [getElem?_putCell_of_ne heq, h.2 t']
    simp [heq]

/-- The deferred values that there are in the one case and not in the other are pending. -/
def NewPending (a b : Array Cell) : Prop :=
  ∀ t : ThunkRef, a.size ≤ t.index → t.index < b.size → ∃ c, cellAt b t = .pending c

/-- Nothing happens but that there may be new deferred values. -/
structure Extends (a b : Array Cell) : Prop where
  size_le : a.size ≤ b.size
  same : ∀ t : ThunkRef, t.index < a.size → cellAt b t = cellAt a t
  fresh : NewPending a b

theorem Extends.refl (a : Array Cell) : Extends a a :=
  ⟨Nat.le_refl _, fun _ _ => rfl, fun _ h h' => absurd h (Nat.not_le_of_lt h')⟩

theorem Extends.trans {a b c : Array Cell} (hab : Extends a b) (hbc : Extends b c) :
    Extends a c where
  size_le := Nat.le_trans hab.size_le hbc.size_le
  same t ht := (hbc.same t (Nat.lt_of_lt_of_le ht hab.size_le)).trans (hab.same t ht)
  fresh t ht ht' := by
    by_cases htb : t.index < b.size
    · rw [hbc.same t htb]
      exact hab.fresh t ht htb
    · exact hbc.fresh t (Nat.le_of_not_lt htb) ht'

theorem extends_push (a : Array Cell) (c : Computation) : Extends a (a.push (.pending c)) where
  size_le := by simp
  same _ ht := cellAt_push_of_lt ht _
  fresh t ht ht' := by
    have hindex : t.index = a.size := by
      rw [Array.size_push] at ht'
      omega
    exact ⟨c, by simp [cellAt, hindex]⟩

theorem NewPending.putCell {a b : Array Cell} (h : NewPending a b) {t : ThunkRef}
    (ht : t.index < a.size) (c : Cell) : NewPending a (putCell b t c) := by
  intro t' hle hlt
  have hne : t' ≠ t := by
    rintro rfl
    exact absurd ht (Nat.not_lt_of_le hle)
  rw [cellAt_putCell_of_ne hne]
  exact h t' hle (by simpa using hlt)

theorem NewPending.of_size_eq {a a' b : Array Cell} (h : NewPending a' b)
    (hsize : a'.size = a.size) : NewPending a b := fun t hle hlt => h t (hsize ▸ hle) hlt

section Span

variable {below : List Task} {a b : Array Cell} {ms : List Moment}

/-- What holds of all moments of a task: those between its beginning and its end, and these two. -/
theorem forall_mem_task {P : Moment → Prop} {first last : Moment} :
    (∀ m ∈ first :: ms ++ [last], P m) ↔ P first ∧ (∀ m ∈ ms, P m) ∧ P last := by
  rw [List.forall_mem_append, List.forall_mem_cons, List.forall_mem_singleton, and_assoc]

/-- What is not pending stays as it is: a resolved value for good, and a running computation as long
as it does not end. -/
theorem Span.stable (h : Span below a ms b) {t : ThunkRef} (ht : t.index < a.size)
    (hcell : ∀ c, cellAt a t ≠ .pending c) :
    cellAt b t = cellAt a t ∧
      ∀ m ∈ ms, cellAt m.before t = cellAt a t ∧ cellAt m.cells t = cellAt a t := by
  induction h with
  | nothing => exact ⟨rfl, by simp⟩
  | delay c => exact ⟨cellAt_push_of_lt ht _, by simp⟩
  | append first second ih₁ ih₂ =>
    obtain ⟨hb, hms⟩ := ih₁ ht hcell
    obtain ⟨hc, hms'⟩ := ih₂ (Nat.lt_of_lt_of_le ht first.size_le) (hb ▸ hcell)
    rw [hb] at hc hms'
    exact ⟨hc, List.forall_mem_append.mpr ⟨hms, hms'⟩⟩
  | task hresolve inner r ih =>
    obtain ⟨hb, hms⟩ := ih ht hcell
    exact ⟨hb, forall_mem_task.mpr ⟨⟨rfl, rfl⟩, hms, rfl, hb⟩⟩
  | known hv => exact ⟨rfl, by simp [Moment.before, Moment.cells]⟩
  | circular hc => exact ⟨rfl, by simp [Moment.before, Moment.cells]⟩
  | attempt hpending inner hself ih =>
    rename_i t' c r
    have hne : t ≠ t' := by
      rintro rfl
      exact hcell _ hpending
    rw [size_putCell, cellAt_putCell_of_ne hne] at ih
    obtain ⟨hb, hms⟩ := ih ht hcell
    have hlast := (cellAt_putCell_of_ne hne (c.outlasts r)).trans hb
    exact ⟨hlast, forall_mem_task.mpr ⟨⟨rfl, rfl⟩, hms, rfl, hlast⟩⟩

/-- A computation that runs is still running when all that it leads to has ended. -/
theorem Span.running {t : ThunkRef} {c : Computation}
    (h : Span below (putCell a t (.running c)) ms b) (hcell : cellAt a t = .pending c) :
    t.index < b.size ∧ cellAt b t = .running c ∧ ∀ m ∈ ms, cellAt m.cells t = .running c := by
  have ht := lt_of_cellAt_pending hcell
  have hself := cellAt_putCell_self ht (.running c)
  have hsize := h.size_le
  rw [size_putCell] at hsize
  obtain ⟨hb, hms⟩ := h.stable (by simpa using ht) (by simp [hself])
  rw [hself] at hb hms
  exact ⟨Nat.lt_of_lt_of_le ht hsize, hb, fun m hm => (hms m hm).2⟩

theorem matures_outlasts {t : ThunkRef} {c : Computation} (h : cellAt b t = .running c)
    (r : Except Stop Value) : Matures b (putCell b t (c.outlasts r)) := by
  refine matures_putCell ?_
  rw [h]
  cases r with
  | ok v => exact .inr (.inr ⟨v, rfl⟩)
  | error e => exact .inl rfl

/-- States give way only to later ones. -/
theorem Span.matures (h : Span below a ms b) :
    Matures a b ∧ ∀ m ∈ ms, Matures a m.cells ∧ Matures m.before m.cells ∧ Matures m.cells b := by
  induction h with
  | nothing => exact ⟨.refl _, by simp⟩
  | delay c =>
    refine ⟨⟨by simp, fun t ht => ?_⟩, by simp⟩
    rw [cellAt_push_of_lt ht]
    exact .refl _
  | append first second ih₁ ih₂ =>
    refine ⟨ih₁.1.trans ih₂.1, List.forall_mem_append.mpr ⟨fun m hm => ?_, fun m hm => ?_⟩⟩
    · obtain ⟨hstart, hself, hend⟩ := ih₁.2 m hm
      exact ⟨hstart, hself, hend.trans ih₂.1⟩
    · obtain ⟨hstart, hself, hend⟩ := ih₂.2 m hm
      exact ⟨ih₁.1.trans hstart, hself, hend⟩
  | task hresolve inner r ih =>
    exact ⟨ih.1, forall_mem_task.mpr ⟨⟨.refl _, .refl _, ih.1⟩, ih.2, ih.1, ih.1, .refl _⟩⟩
  | known hv => exact ⟨.refl _, by simp [Moment.before, Moment.cells, Matures.refl]⟩
  | circular hc => exact ⟨.refl _, by simp [Moment.before, Moment.cells, Matures.refl]⟩
  | attempt hcell inner hself ih =>
    rename_i t c r
    have hstart : Matures _ (putCell _ t (.running c)) :=
      matures_putCell (by rw [hcell]; exact .inr (.inl rfl))
    have hend := matures_outlasts (inner.running hcell).2.1 r
    have hall := hstart.trans (ih.1.trans hend)
    refine ⟨hall, forall_mem_task.mpr
      ⟨⟨.refl _, .refl _, hall⟩, fun m hm => ?_, hall, hall, .refl _⟩⟩
    obtain ⟨ha, hself, hb⟩ := ih.2 m hm
    exact ⟨hstart.trans ha, hself, hb.trans hend⟩

/-- The running computations are those on the stack of tasks, at every moment. -/
theorem Span.marked (h : Span below a ms b) (hmarked : Marked below a) :
    Marked below b ∧ ∀ m ∈ ms, Marked m.below m.before ∧ Marked m.below m.cells := by
  induction h with
  | nothing => exact ⟨hmarked, by simp⟩
  | delay c => exact ⟨hmarked.push c, by simp⟩
  | append first second ih₁ ih₂ =>
    obtain ⟨hb, hms⟩ := ih₁ hmarked
    obtain ⟨hc, hms'⟩ := ih₂ hb
    exact ⟨hc, List.forall_mem_append.mpr ⟨hms, hms'⟩⟩
  | task hresolve inner r ih =>
    obtain ⟨hb, hms⟩ := ih ((marked_cons_of_ne hresolve).mpr hmarked)
    rw [marked_cons_of_ne hresolve] at hb
    exact ⟨hb, forall_mem_task.mpr ⟨⟨hmarked, hmarked⟩, hms, hmarked, hb⟩⟩
  | known hv => exact ⟨hmarked, by simp [Moment.cells, Moment.below, Moment.before, hmarked]⟩
  | circular hc => exact ⟨hmarked, by simp [Moment.cells, Moment.below, Moment.before, hmarked]⟩
  | attempt hcell inner hself ih =>
    rename_i t c r
    obtain ⟨hb, hms⟩ := ih (hmarked.mark hcell)
    have hend := hb.unmark (inner.running hcell).1 c r
    exact ⟨hend, forall_mem_task.mpr ⟨⟨hmarked, hmarked⟩, hms, hmarked, hend⟩⟩

/-- How every attempt to resolve a deferred value ends. -/
theorem Span.settles (h : Span below a ms b) {t : ThunkRef} {under : List Task}
    {before cells : Array Cell} {r : Except Stop Value}
    (hm : .ends (.resolve t) under before cells r ∈ ms) {found : Cell}
    (hfound : cellAt before t = found) : Settles t before cells r found := by
  subst hfound
  induction h with
  | nothing => cases hm
  | delay c => cases hm
  | append first second ih₁ ih₂ => exact (List.mem_append.mp hm).elim ih₁ ih₂
  | task hresolve inner r ih =>
    simp only [List.cons_append, List.mem_cons, List.mem_append, reduceCtorEq, false_or,
      Moment.ends.injEq] at hm
    rcases hm with hm | ⟨hm, -⟩ | hm
    · exact ih hm
    · exact absurd hm.symm (hresolve t)
    · cases hm
  | known hv =>
    simp only [List.mem_cons, reduceCtorEq, false_or, Moment.ends.injEq, Task.resolve.injEq,
      List.not_mem_nil, or_false] at hm
    obtain ⟨rfl, -, rfl, rfl, rfl⟩ := hm
    rw [hv]
    exact ⟨rfl, rfl⟩
  | circular hc =>
    simp only [List.mem_cons, reduceCtorEq, false_or, Moment.ends.injEq, Task.resolve.injEq,
      List.not_mem_nil, or_false] at hm
    obtain ⟨rfl, -, rfl, rfl, rfl⟩ := hm
    rw [hc]
    exact ⟨rfl, rfl⟩
  | attempt hcell inner hself ih =>
    simp only [List.cons_append, List.mem_cons, List.mem_append, reduceCtorEq, false_or,
      Moment.ends.injEq, Task.resolve.injEq, List.not_mem_nil, or_false] at hm
    rcases hm with hm | ⟨rfl, -, rfl, rfl, rfl⟩
    · exact ih hm
    · rw [hcell]
      exact ⟨cellAt_putCell_self (inner.running hcell).1 _, hself⟩

/-- Whether every task that begins comes to an end, with nothing in between but what is on top of it
on the stack. -/
def Nested (ms : List Moment) : Prop :=
  ∀ pre task below cells post, ms = pre ++ .begins task below cells :: post →
    ∃ inner cells' r rest, post = inner ++ .ends task below cells cells' r :: rest ∧
      ∀ m ∈ inner, task :: below <:+ m.below

theorem Nested.append {ms' : List Moment} (h : Nested ms) (h' : Nested ms') :
    Nested (ms ++ ms') := by
  intro pre task below cells post heq
  rcases List.append_eq_append_iff.mp heq with ⟨between, rfl, hms'⟩ | ⟨between, hms, hpost⟩
  · exact h' between task below cells post hms'
  · rcases between with _ | ⟨m, between⟩
    · rw [List.append_nil] at hms
      exact h' [] task below cells post hpost.symm
    · obtain ⟨rfl, rfl⟩ := List.cons.inj hpost
      obtain ⟨inner, cells', r, rest, rfl, hinner⟩ := h pre task below cells between hms
      exact ⟨inner, cells', r, rest ++ ms', by simp, hinner⟩

theorem Nested.task {task : Task} {cells cells' : Array Cell} {r : Except Stop Value}
    (h : Nested ms) (habove : ∀ m ∈ ms, task :: below <:+ m.below) :
    Nested (.begins task below cells :: ms ++ [.ends task below cells cells' r]) := by
  intro pre task₁ below₁ cells₁ post heq
  rcases pre with _ | ⟨m, pre⟩
  · cases heq
    exact ⟨ms, cells', r, [], rfl, habove⟩
  · obtain ⟨-, htail⟩ := List.cons.inj heq
    refine Nested.append h ?_ pre task₁ below₁ cells₁ post htail
    rintro (_ | ⟨m, pre⟩) task₂ below₂ cells₂ post₂ heq₂
    · cases heq₂
    · simp at heq₂

/-- Every moment has the tasks under way at the bottom of its stack. -/
theorem Span.above (h : Span below a ms b) : ∀ m ∈ ms, below <:+ m.below := by
  induction h with
  | nothing => simp
  | delay c => simp
  | append first second ih₁ ih₂ => exact List.forall_mem_append.mpr ⟨ih₁, ih₂⟩
  | task hresolve inner r ih =>
    refine forall_mem_task.mpr ⟨List.suffix_rfl, fun m hm => ?_, List.suffix_rfl⟩
    exact (List.suffix_cons _ _).trans (ih m hm)
  | known hv => simp [Moment.below]
  | circular hc => simp [Moment.below]
  | attempt hcell inner hself ih =>
    refine forall_mem_task.mpr ⟨List.suffix_rfl, fun m hm => ?_, List.suffix_rfl⟩
    exact (List.suffix_cons _ _).trans (ih m hm)

theorem Span.nested (h : Span below a ms b) : Nested ms := by
  have hnone : Nested [] := by
    intro pre task below cells post heq
    simp at heq
  induction h with
  | nothing => exact hnone
  | delay c => exact hnone
  | append first second ih₁ ih₂ => exact ih₁.append ih₂
  | task hresolve inner r ih => exact ih.task inner.above
  | known hv => exact hnone.task (by simp)
  | circular hc => exact hnone.task (by simp)
  | attempt hcell inner hself ih => exact ih.task inner.above

/-- What is resolved is found so when it is asked for later. -/
structure Later (m m' : Moment) : Prop where
  matures : Matures m.cells m'.cells
  resolved : ∀ t v, t.index < m.cells.size → cellAt m.cells t = .resolved v → m'.task = .resolve t →
    cellAt m'.before t = .resolved v

theorem Span.resolved (h : Span below a ms b) {t : ThunkRef} {v : Value} (ht : t.index < a.size)
    (hv : cellAt a t = .resolved v) {m : Moment} (hm : m ∈ ms) :
    cellAt m.before t = .resolved v := by
  rw [((h.stable ht (by simp [hv])).2 m hm).1, hv]

theorem Matures.resolved {t : ThunkRef} {v : Value} (h : Matures a b) (ht : t.index < a.size)
    (hv : cellAt a t = .resolved v) : cellAt b t = .resolved v := by
  have hcell := h.2 t ht
  rwa [hv] at hcell

theorem pairwise_task {R : Moment → Moment → Prop} {first last : Moment} :
    (first :: ms ++ [last]).Pairwise R ↔
      (∀ m ∈ ms, R first m) ∧ R first last ∧ ms.Pairwise R ∧ ∀ m ∈ ms, R m last := by
  rw [List.cons_append, List.pairwise_cons, List.forall_mem_append, List.forall_mem_singleton,
    List.pairwise_append, and_assoc]
  simp

theorem Span.later (h : Span below a ms b) : ms.Pairwise Later := by
  induction h with
  | nothing => exact .nil
  | delay c => exact .nil
  | append first second ih₁ ih₂ =>
    refine List.pairwise_append.mpr ⟨ih₁, ih₂, fun m hm m' hm' => ?_⟩
    have hb := (first.matures.2 m hm).2.2
    refine ⟨hb.trans (second.matures.2 m' hm').1, fun t v ht hv _ => ?_⟩
    exact second.resolved (Nat.lt_of_lt_of_le ht hb.1) (hb.resolved ht hv) hm'
  | task hresolve inner r ih =>
    refine pairwise_task.mpr ⟨fun m hm => ?_, ?_, ih, fun m hm => ?_⟩
    · exact ⟨(inner.matures.2 m hm).1, fun t v ht hv _ => inner.resolved ht hv hm⟩
    · exact ⟨inner.matures.1, fun t v _ hv _ => hv⟩
    · exact ⟨(inner.matures.2 m hm).2.2, fun t v _ _ htask => absurd htask (hresolve t)⟩
  | known hv => exact List.pairwise_pair.mpr ⟨.refl _, fun t v _ hv _ => hv⟩
  | circular hc => exact List.pairwise_pair.mpr ⟨.refl _, fun t v _ hv _ => hv⟩
  | attempt hcell inner hself ih =>
    rename_i t c r
    have hall := Span.matures (.attempt hcell inner hself)
    obtain ⟨-, hms, -⟩ := forall_mem_task.mp hall.2
    refine pairwise_task.mpr ⟨fun m hm => ?_, ?_, ih, fun m hm => ?_⟩
    · refine ⟨(hms m hm).1, fun t' v ht' hv _ => inner.resolved ?_ ?_ hm⟩
      · rw [size_putCell]
        exact ht'
      · have hne : t' ≠ t := by
          rintro rfl
          cases hcell.symm.trans hv
        exact (cellAt_putCell_of_ne hne _).trans hv
    · exact ⟨hall.1, fun t' v _ hv _ => hv⟩
    · refine ⟨(hms m hm).2.2, fun t' v _ hv htask => ?_⟩
      cases htask
      cases ((inner.running hcell).2.2 m hm).symm.trans hv

/-- What is new is pending, from one moment to the next, and nothing else happens before the first
moment or after the last one. -/
structure Grows (a : Array Cell) (ms : List Moment) (b : Array Cell) : Prop where
  none : ms = [] → Extends a b
  first : ∀ m ∈ ms.head?, Extends a m.cells
  last : ∀ m ∈ ms.getLast?, Extends m.cells b
  chain : ms.IsChain fun m m' => NewPending m.cells m'.cells

theorem Grows.nothing : Grows a [] a := ⟨fun _ => .refl _, by simp, by simp, .nil⟩

theorem Grows.append {ms' : List Moment} {c : Array Cell} (h : Grows a ms b) (h' : Grows b ms' c) :
    Grows a (ms ++ ms') c where
  none hnil := by
    obtain ⟨hms, hms'⟩ := List.append_eq_nil_iff.mp hnil
    exact (h.none hms).trans (h'.none hms')
  first m hm := by
    rcases ms with _ | ⟨m₁, ms⟩
    · exact (h.none rfl).trans (h'.first m hm)
    · exact h.first m hm
  last m hm := by
    rcases ms'.eq_nil_or_concat with rfl | ⟨ms', m₁, rfl⟩
    · rw [List.append_nil] at hm
      exact (h.last m hm).trans (h'.none rfl)
    · rw [List.getLast?_append_of_ne_nil _ (by simp)] at hm
      exact h'.last m hm
  chain := List.isChain_append.mpr ⟨h.chain, h'.chain, fun m hm m' hm' =>
    ((h.last m hm).trans (h'.first m' hm')).fresh⟩

/-- All moments of a task, which may do something to a deferred value that there is when it begins
and when it ends. -/
theorem Grows.task {a' b' : Array Cell} {first last : Moment} (h : Grows a' ms b')
    (hsize : a'.size = a.size) (hle : ∀ m ∈ ms, a.size ≤ m.cells.size)
    (hend : ∀ cells, a.size ≤ cells.size → NewPending cells b' → NewPending cells b)
    (hfirst : first.cells = a) (hlast : last.cells = b) : Grows a (first :: ms ++ [last]) b where
  none hnil := by cases hnil
  first m hm := by
    cases hm
    exact hfirst ▸ .refl _
  last m hm := by
    rw [List.getLast?_append_of_ne_nil _ (by simp)] at hm
    cases hm
    exact hlast ▸ .refl _
  chain := by
    refine List.isChain_cons.mpr ⟨fun m hm => ?_, List.isChain_append.mpr
      ⟨h.chain, .singleton _, fun m hm m' hm' => ?_⟩⟩
    · rw [hfirst]
      rcases ms with _ | ⟨m₁, ms⟩
      · cases hm
        rw [hlast]
        exact hend a (Nat.le_refl _) ((h.none rfl).fresh.of_size_eq hsize)
      · exact (h.first m hm).fresh.of_size_eq hsize
    · cases hm'
      rw [hlast]
      exact hend _ (hle m (List.mem_of_getLast? hm)) (h.last m hm).fresh

theorem Span.grows (h : Span below a ms b) : Grows a ms b := by
  induction h with
  | nothing => exact .nothing
  | delay c => exact ⟨fun _ => extends_push _ c, by simp, by simp, .nil⟩
  | append first second ih₁ ih₂ => exact ih₁.append ih₂
  | task hresolve inner r ih =>
    exact ih.task rfl (fun m hm => (inner.matures.2 m hm).1.1) (fun _ _ h => h) rfl rfl
  | known hv => exact Grows.nothing.task rfl (by simp) (fun _ _ h => h) rfl rfl
  | circular hc => exact Grows.nothing.task rfl (by simp) (fun _ _ h => h) rfl rfl
  | attempt hcell inner hself ih =>
    refine ih.task (size_putCell _ _ _) (fun m hm => ?_) (fun cells hle h => ?_) rfl rfl
    · rw [← size_putCell]
      exact (inner.matures.2 m hm).1.1
    · exact h.putCell (Nat.lt_of_lt_of_le (lt_of_cellAt_pending hcell) hle) _

theorem Grows.isChain (h : Grows a ms b) :
    (a :: ms.map Moment.cells ++ [b]).IsChain NewPending := by
  refine List.isChain_cons.mpr ⟨fun cells hcells => ?_, List.isChain_append.mpr
    ⟨(List.isChain_map _).mpr h.chain, .singleton _, fun cells hcells cells' hcells' => ?_⟩⟩
  · rcases ms with _ | ⟨m, ms⟩
    · cases hcells
      exact (h.none rfl).fresh
    · cases hcells
      exact (h.first m rfl).fresh
  · cases hcells'
    rw [List.getLast?_map] at hcells
    obtain ⟨m, hm, rfl⟩ := Option.map_eq_some_iff.mp hcells
    exact (h.last m hm).fresh

end Span

/-! ### Histories -/

/-- Whether a moment is the end of a computation that answers. -/
def Moment.Completes (m : Moment) (t : ThunkRef) : Prop :=
  ∃ below before cells v c, m = .ends (.resolve t) below before cells (.ok v) ∧
    cellAt before t = .pending c

/-- The life of deferred values through the moments of a history, and to the states in the end. -/
structure LifeCycle (moments : List Moment) (final : Array Cell) : Prop where
  /-- Every task that begins comes to an end. -/
  nested : Nested moments
  /-- What is new is pending. -/
  newPending : (#[] :: moments.map Moment.cells ++ [final]).IsChain NewPending
  /-- What is pending can become resolved, and what is resolved stays as it is. -/
  matures : (moments.map Moment.cells ++ [final]).Pairwise Matures
  /-- What is marked as running are the computations on the stack, and these are all different. -/
  marked : ∀ m ∈ moments, Marked m.below m.cells
  /-- In the end nothing is marked as running. -/
  unmarked : ∀ c, .running c ∉ final
  /-- A deferred value whose computation is on the stack cannot be resolved, which changes
  nothing. -/
  circular : ∀ t below before cells r, .ends (.resolve t) below before cells r ∈ moments →
    .resolve t ∈ below →
    ∃ c, cellAt before t = .running c ∧ r = .error (circularStop c) ∧ cells = before
  /-- Once a deferred value is resolved its computation is not on the stack again, and whoever
  resolves it is answered the same. -/
  resolved : moments.Pairwise fun m m' => ∀ t v, t.index < m.cells.size →
    cellAt m.cells t = .resolved v → .resolve t ∉ m'.below ∧
      ∀ below before cells r, m' = .ends (.resolve t) below before cells r →
        r = .ok v ∧ cells = before
  /-- A computation that answers does so once. -/
  once : moments.Pairwise fun m m' => ∀ t, m.Completes t → ¬ m'.Completes t
  /-- A computation that answers something leaves its deferred value resolved to it. -/
  completed : ∀ t below before cells v c, .ends (.resolve t) below before cells (.ok v) ∈ moments →
    cellAt before t = .pending c → v ≠ .thunk t ∧ cellAt cells t = .resolved v
  /-- A computation that stops leaves its deferred value pending. -/
  stopped : ∀ t below before cells e c, .ends (.resolve t) below before cells (.error e) ∈ moments →
    cellAt before t = .pending c → cellAt cells t = .pending c

theorem marked_nil : Marked [] #[] := by
  refine ⟨List.nodup_nil, fun t => ?_⟩
  simp

/-- What happens from the beginning on is the life of deferred values. -/
theorem Span.lifeCycle {ms : List Moment} {b : Array Cell} (h : Span [] #[] ms b) :
    LifeCycle ms b := by
  obtain ⟨hfinal, hmarked⟩ := h.marked marked_nil
  have hresolved : ms.Pairwise fun m m' => ∀ t v, t.index < m.cells.size →
      cellAt m.cells t = .resolved v → .resolve t ∉ m'.below ∧
        ∀ below before cells r, m' = .ends (.resolve t) below before cells r →
          r = .ok v ∧ cells = before := by
    refine h.later.imp_of_mem fun {m m'} hm hm' hlater t v ht hv => ⟨fun hbelow => ?_, ?_⟩
    · obtain ⟨c, hc⟩ := ((hmarked m' hm').2.2 t).mpr hbelow
      cases (cellAt_of_getElem? hc).symm.trans (hlater.matures.resolved ht hv)
    · rintro below before cells r rfl
      exact h.settles hm' (hlater.resolved t v ht hv rfl)
  exact {
    nested := h.nested
    newPending := h.grows.isChain
    matures := List.pairwise_append.mpr
      ⟨List.pairwise_map.mpr (h.later.imp fun hlater => hlater.matures),
      List.pairwise_singleton _ _, by
        simpa using fun m hm => (h.matures.2 m hm).2.2⟩
    marked := fun m hm => (hmarked m hm).2
    unmarked := fun c hc => by
      obtain ⟨i, hi⟩ := Array.getElem?_of_mem hc
      simpa using (hfinal.2 ⟨i⟩).mp ⟨c, hi⟩
    circular := fun t below before cells r hm hbelow => by
      obtain ⟨c, hc⟩ := ((hmarked _ hm).1.2 t).mpr hbelow
      have hc := cellAt_of_getElem? hc
      exact ⟨c, hc, h.settles hm hc⟩
    resolved := hresolved
    once := by
      refine hresolved.imp_of_mem fun {m m'} hm hm' hres t hcompletes hcompletes' => ?_
      obtain ⟨below, before, cells, v, c, rfl, hc⟩ := hcompletes
      obtain ⟨below', before', cells', v', c', rfl, hc'⟩ := hcompletes'
      have hsize := (h.matures.2 _ hm).2.1.1
      have ht : t.index < cells.size := Nat.lt_of_lt_of_le (lt_of_cellAt_pending hc) hsize
      obtain ⟨-, rfl⟩ := (hres t v ht (h.settles hm hc).1).2 _ _ _ _ rfl
      cases hc'.symm.trans (h.settles hm' hc').1
    completed := fun t below before cells v c hm hc =>
      ⟨fun hv => (h.settles hm hc).2 (hv ▸ rfl), (h.settles hm hc).1⟩
    stopped := fun t below before cells e c hm hc => (h.settles hm hc).1 }

end LazyMatch
