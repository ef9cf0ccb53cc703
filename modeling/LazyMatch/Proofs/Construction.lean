import LazyMatch.Proofs.Ending
import LazyMatch.Proofs.Form
import LazyMatch.Proofs.Term

/-!
# Constructing values of forms

A form is spelled as an expression: variables stand for values that are assigned to them, constants
for the value that each of them has, and factories are called on what their parts are spelled as.
Around whatever is headed by a lazy constructor there may be any number of layers of delay, each
either around the expression, which then is evaluated when the layer is forced, or around the value
of the expression.

Evaluation only adds to the store, so what it makes for a part of the form lies in an interval of
the deferred values, and the intervals of different parts do not overlap. `Setting.Stands` says that
a value stands for a form and lies in an interval.

* `Setting.Spells`: an expression spells a form;
* `Setting.Stands`, `Setting.Stands.frame`: a value stands for a form, as long as nothing in its
  interval changes;
* `Setting.exists_gives`: what spells a form evaluates to what stands for it.
-/

namespace LazyMatch

/-! ### What evaluations give -/

section Gives

variable {α β : Type} {env : Env} {s s' s'' : Store}

/-- What an evaluation gives, and the store that it leaves, when there is fuel enough. -/
def Gives (env : Env) (x : Evaluator → Run α) (s : Store) (a : α) (s' : Store) : Prop :=
  Ends env (fun _ => []) x s (.ok a) s'

theorem gives_iff {x : Evaluator → Run α} {a : α} :
    Gives env x s a s' ↔ ∃ n, ∀ m ≥ n, outcome (x (perform env m)) s = (.ok a, s') := by
  simp only [Gives, Ends, observed_silent, ne_eq, reduceCtorEq, not_false_eq_true, true_and]

theorem gives_of_outcome {x : Run α} {a : α} (h : outcome x s = (.ok a, s')) :
    Gives env (fun _ => x) s a s' :=
  gives_iff.mpr ⟨0, fun _ _ => h⟩

theorem Gives.bind {x : Evaluator → Run α} {f : α → Evaluator → Run β} {a : α} {b : β}
    (hx : Gives env x s a s') (hf : Gives env (f a) s' b s'') :
    Gives env (fun again => x again >>= fun a => f a again) s b s'' :=
  Ends.bind hx hf

/-- Expressions are evaluated from left to right. -/
theorem Gives.evals {scope : Scope} {e : Expr} {es : List Expr} {v : Value} {vs : List Value}
    (he : Gives env (fun again => again (.eval scope e)) s v s')
    (hes : Gives env (fun again => es.mapM fun e => again (.eval scope e)) s' vs s'') :
    Gives env (fun again => (e :: es).mapM fun e => again (.eval scope e)) s (v :: vs) s'' := by
  simp only [List.mapM_cons]
  exact he.bind (f := fun v again => (es.mapM fun e => again (.eval scope e)) >>= fun vs =>
    pure (v :: vs)) (hes.bind (f := fun vs _ => pure (v :: vs)) (gives_of_outcome rfl))

/-- A task gives what its step gives. -/
theorem Gives.step {task : Task} {v : Value}
    (h : Gives env (fun again => step env again task) s v s') :
    Gives env (fun again => again task) s v s' := by
  refine (ends_again_iff fun n => ?_).mpr h
  rw [observed_silent, observed_silent]
  rfl

end Gives

/-! ### Changes of the store -/

/-- Whether a store has grown into another: records, closures and what lazy constructors have
deferred stay as they are. -/
structure Store.Grows (s s' : Store) : Prop where
  records : ∃ more, s'.records = s.records ++ more
  closures : ∃ more, s'.closures = s.closures ++ more
  functions : s'.functions = s.functions
  datatypes : s'.datatypes = s.datatypes
  thunks : s.thunks.size ≤ s'.thunks.size
  defers : ∀ t r, s.Defers t r → s'.Defers t r

/-- Whether a store has grown into another, and of its deferred values only some have changed. -/
structure Store.Changes (P : ThunkRef → Prop) (s s' : Store) : Prop extends s.Grows s' where
  kept : ∀ t : ThunkRef, t.index < s.thunks.size → ¬ P t → s'.cell t = s.cell t

/-- A store with one more closure. -/
def Store.withClosure (s : Store) (c : Closure) : Store := { s with closures := s.closures.push c }

section Changes

variable {P Q : ThunkRef → Prop} {s s' s'' : Store}

theorem Store.Grows.refl (s : Store) : s.Grows s where
  records := ⟨#[], by simp⟩
  closures := ⟨#[], by simp⟩
  functions := rfl
  datatypes := rfl
  thunks := Nat.le_refl _
  defers := fun _ _ h => h

theorem Store.Grows.trans (h : s.Grows s') (h' : s'.Grows s'') : s.Grows s'' where
  records := by
    obtain ⟨more, hmore⟩ := h.records
    obtain ⟨more', hmore'⟩ := h'.records
    exact ⟨more ++ more', by rw [hmore', hmore, Array.append_assoc]⟩
  closures := by
    obtain ⟨more, hmore⟩ := h.closures
    obtain ⟨more', hmore'⟩ := h'.closures
    exact ⟨more ++ more', by rw [hmore', hmore, Array.append_assoc]⟩
  functions := h'.functions.trans h.functions
  datatypes := h'.datatypes.trans h.datatypes
  thunks := Nat.le_trans h.thunks h'.thunks
  defers := fun t r ht => h'.defers t r (h.defers t r ht)

theorem Store.Grows.widens (h : s.Grows s') : s.Widens s' where
  records := by
    obtain ⟨more, hmore⟩ := h.records
    intro i e he
    rw [hmore, Array.getElem?_append_left (Array.getElem?_eq_some_iff.mp he).1, he]
  datatypes := fun i r hr => by rw [h.datatypes, hr]
  defers := h.defers

theorem Store.Grows.lt_records (h : s.Grows s') {r : RecordRef} (hr : r.index < s.records.size) :
    r.index < s'.records.size := by
  obtain ⟨more, hmore⟩ := h.records
  rw [hmore, Array.size_append]
  omega

theorem Store.Grows.entries (h : s.Grows s') {r : RecordRef} (hr : r.index < s.records.size) :
    s'.entries r = s.entries r := by
  obtain ⟨more, hmore⟩ := h.records
  rw [Store.entries, hmore, Array.getElem?_append_left hr, Store.entries]

theorem Store.Grows.closure (h : s.Grows s') {c : ClosureRef} (hc : c.index < s.closures.size) :
    s'.closure c = s.closure c := by
  obtain ⟨more, hmore⟩ := h.closures
  rw [Store.closure, hmore, Array.getElem?_append_left hc, Store.closure]

theorem Store.Changes.refl (P : ThunkRef → Prop) (s : Store) : s.Changes P s where
  toGrows := .refl s
  kept := fun _ _ _ => rfl

/-- Of what is new after the first change, the second may change anything. -/
theorem Store.Changes.trans (h : s.Changes P s') (h' : s'.Changes Q s'')
    (hQ : ∀ t : ThunkRef, t.index < s.thunks.size → Q t → P t) : s.Changes P s'' where
  toGrows := h.toGrows.trans h'.toGrows
  kept := by
    intro t ht hP
    rw [h'.kept t (Nat.lt_of_lt_of_le ht h.thunks) (fun hq => hP (hQ t ht hq)), h.kept t ht hP]

theorem Store.Changes.mono (h : s.Changes P s')
    (hPQ : ∀ t : ThunkRef, t.index < s.thunks.size → P t → Q t) : s.Changes Q s' where
  toGrows := h.toGrows
  kept := fun t ht hq => h.kept t ht fun hp => hq (hPQ t ht hp)

theorem Store.Grows.changes (h : s.Grows s') (hthunks : s'.thunks = s.thunks)
    (P : ThunkRef → Prop) : s.Changes P s' where
  toGrows := h
  kept := fun _ _ _ => by rw [Store.cell, hthunks, Store.cell]

theorem Store.changes_withRecord (P : ThunkRef → Prop) (s : Store) (e : Entries) :
    s.Changes P (s.withRecord e) where
  toGrows := { Store.Grows.refl s with records := ⟨#[e], rfl⟩, defers := fun _ _ h => h }
  kept := fun _ _ _ => rfl

theorem Store.changes_withClosure (P : ThunkRef → Prop) (s : Store) (c : Closure) :
    s.Changes P (s.withClosure c) where
  toGrows := { Store.Grows.refl s with closures := ⟨#[c], rfl⟩, defers := fun _ _ h => h }
  kept := fun _ _ _ => rfl

theorem Store.cell_withThunk_of_lt {t : ThunkRef} (ht : t.index < s.thunks.size)
    (c : Computation) : (s.withThunk c).cell t = s.cell t := by
  simp [Store.cell, Store.withThunk, Array.getElem?_push, Nat.ne_of_lt ht]

theorem Store.changes_withThunk (P : ThunkRef → Prop) (s : Store) (c : Computation) :
    s.Changes P (s.withThunk c) where
  toGrows := {
    Store.Grows.refl s with
    thunks := by simp [Store.withThunk]
    defers := (advances_withThunk s c).defers }
  kept := fun _ ht _ => Store.cell_withThunk_of_lt ht c

/-- What defers nothing that a constructor has made may change. -/
theorem Store.changes_setCell {t : ThunkRef} (ht : ∀ r, ¬ s.Defers t r) (hP : P t) (c : Cell) :
    s.Changes P (s.setCell t c) where
  toGrows := {
    Store.Grows.refl s with
    thunks := by simp [Store.setCell]
    defers := by
      intro u r hu
      have hne : u ≠ t := by
        rintro rfl
        exact ht r hu
      simpa only [Store.Defers, Store.cell_setCell_of_ne hne] using hu }
  kept := by
    intro u _ hu
    refine Store.cell_setCell_of_ne ?_ c
    rintro rfl
    exact hu hP

end Changes

/-! ### Spelling -/

/-- What a form is spelled in: an environment, a scope and a store, with the values that are
assigned to variables and those of constants. Declarations give such a setting
(`exists_setting_of_declarations`). -/
structure Setting where
  env : Env
  scope : Scope
  store : Store
  assigned : String → Value
  constants : Constructor → Option Value
  isConstant : ∀ c v, constants c = some v → c.isConstant = true
  holds : ∀ c v, constants c = some v → store.HoldsConstant c v

/-- A parameter without a fallback. -/
def plainParam {α : Type} (y : String) : Param α := ⟨y, .plain, none⟩

/-- An expression with layers of delay around it, so many of them. A layer is put around the
expression, or around its value. -/
inductive Layered (P : Expr → Prop) : ℕ → Expr → Prop
  | bare {e : Expr} : P e → Layered P 0 e
  | late {k : ℕ} {e : Expr} (label : Option String) :
    Layered P k e → Layered P (k + 1) (.delay label e)
  | early {k : ℕ} {e : Expr} (label : Option String) {y : String}
    (hy : (plainParam y : Param Datum).isName = true) :
    Layered P k e →
    Layered P (k + 1) (.call (.action (.lambda [plainParam y] (.delay label (.var y)))) [e])

namespace Setting

variable (S : Setting)

/-- Whether an expression refers to a value: it evaluates to that value in every later store, where
it defers nothing and changes nothing that is there. -/
def Yields (e : Expr) (v : Value) : Prop :=
  ∀ s, S.store.Grows s → ∃ s', Gives S.env (fun again => again (.eval S.scope e)) s v s' ∧
    s.Grows s' ∧ s'.thunks = s.thunks

/-- Whether an expression refers to a constant, or calls a factory on arguments. -/
def Applies (c : Constructor) (args : List Expr → Prop) (e : Expr) : Prop :=
  if c.isConstant then ∃ v, S.constants c = some v ∧ S.Yields e v
  else ∃ callee es, e = .call callee es ∧ S.Yields callee (.constructor c) ∧ args es

mutual

/-- Whether an expression spells a form. -/
def Spells : Form → Expr → Prop
  | .slot x, e => S.Yields e (S.assigned x)
  | .node c parts, e =>
    ∃ k, (c.lazy = false → k = 0) ∧ Layered (S.Applies c (SpellsAll parts)) k e

/-- Whether expressions spell forms, one by one. -/
def SpellsAll : List Form → List Expr → Prop
  | [], es => es = []
  | f :: forms, es => ∃ e rest, es = e :: rest ∧ Spells f e ∧ SpellsAll forms rest

end

end Setting

/-! ### Standing for a form -/

/-- Whether a record is what a constructor makes of arguments. -/
def Store.Holds (s : Store) (c : Constructor) (P : List Value → Prop) (r : RecordRef) : Prop :=
  r.index < s.records.size ∧
    ∃ args, s.entries r = c.entries args ∧ args.length = c.fields.length ∧ P args

/-- Whether a deferred value leads to a record through so many layers, and lies in an interval with
all that it leads through. What constants defer lies elsewhere. -/
inductive Setting.Leads (S : Setting) (s : Store) (c : Constructor) (code : ℕ → Expr → Prop)
    (made : ℕ → ℕ → RecordRef → Prop) : ℕ → ℕ → ℕ → ThunkRef → Prop
  | bare {lo mid hi : ℕ} {t : ThunkRef} {r : RecordRef} (hmid : mid ≤ hi) (hr : s.Defers t r)
    (hmade : made lo mid r)
    (ht : (mid ≤ t.index ∧ t.index < hi) ∨ S.constants c = some (.thunk t)) :
    Leads S s c code made 0 lo hi t
  | late {k lo hi : ℕ} {t : ThunkRef} {label : Option String} {e : Expr} (hlo : lo ≤ t.index)
    (hhi : t.index < hi) (ht : s.cell t = .pending (.expr label S.scope e)) (he : code k e) :
    Leads S s c code made (k + 1) lo hi t
  | early {k lo hi : ℕ} {t u : ThunkRef} {label : Option String} {y : String} {scope : Scope}
    (hlo : lo ≤ t.index) (hhi : t.index < hi)
    (ht : s.cell t = .pending (.expr label ((y, .thunk u) :: scope) (.var y)))
    (hu : Leads S s c code made k lo t.index u) : Leads S s c code made (k + 1) lo hi t

namespace Setting

variable (S : Setting)

mutual

/-- Whether a value stands for a form, and lies in an interval. -/
def Stands (s : Store) : Form → ℕ → ℕ → Value → Prop
  | .slot x, _, _, v => v = S.assigned x
  | .node c parts, lo, hi, v =>
    if c.lazy then
      ∃ k t, v = .thunk t ∧ S.Leads s c (Layered (S.Applies c (S.SpellsAll parts)))
        (fun lo hi => s.Holds c (StandAll s parts lo hi)) k lo hi t
    else ∃ r, v = .record r ∧ s.Holds c (StandAll s parts lo hi) r

/-- Whether values stand for forms, one by one, and lie in intervals one after another. -/
def StandAll (s : Store) : List Form → ℕ → ℕ → List Value → Prop
  | [], lo, hi, vs => lo ≤ hi ∧ vs = []
  | f :: forms, lo, hi, vs => ∃ v rest mid, vs = v :: rest ∧ lo ≤ mid ∧ Stands s f lo mid v ∧
      StandAll s forms mid hi rest

end

/-- Whether a deferred value leads to what a lazy constructor makes of parts. -/
def LeadsTo (s : Store) (c : Constructor) (parts : List Form) (k lo hi : ℕ) (t : ThunkRef) : Prop :=
  S.Leads s c (Layered (S.Applies c (S.SpellsAll parts)))
    (fun lo hi => s.Holds c (S.StandAll s parts lo hi)) k lo hi t

variable {S} {s s' : Store} {c : Constructor} {parts : List Form} {k lo hi : ℕ} {t : ThunkRef}

theorem lt_of_constants (h : S.constants c = some (.thunk t)) :
    t.index < S.store.thunks.size := by
  obtain ⟨r, _, _, hv⟩ := S.holds c _ h
  split at hv
  · obtain ⟨t', ht', hdefers⟩ := hv
    cases ht'
    exact hdefers.lt
  · cases hv

theorem le_of_standAll {forms : List Form} {vs : List Value} (h : S.StandAll s forms lo hi vs) :
    lo ≤ hi := by
  induction forms generalizing lo vs with
  | nil => exact h.1
  | cons f forms ih =>
    obtain ⟨v, rest, mid, _, hmid, _, hrest⟩ := h
    exact Nat.le_trans hmid (ih hrest)

theorem length_of_standAll {forms : List Form} {vs : List Value}
    (h : S.StandAll s forms lo hi vs) : vs.length = forms.length := by
  induction forms generalizing lo vs with
  | nil =>
    obtain ⟨_, rfl⟩ := h
    rfl
  | cons f forms ih =>
    obtain ⟨v, rest, mid, rfl, _, _, hrest⟩ := h
    rw [List.length_cons, List.length_cons, ih hrest]

/-- What leads to a record lies in its interval, or a constant defers it. -/
theorem LeadsTo.located (h : S.LeadsTo s c parts k lo hi t) :
    (lo ≤ t.index ∧ t.index < hi) ∨ S.constants c = some (.thunk t) := by
  cases h with
  | bare hmid hr hmade ht =>
    obtain ⟨_, args, _, _, hargs⟩ := hmade
    exact ht.imp_left fun ht => ⟨Nat.le_trans (le_of_standAll hargs) ht.1, ht.2⟩
  | late hlo hhi => exact .inl ⟨hlo, hhi⟩
  | early hlo hhi => exact .inl ⟨hlo, hhi⟩

end Setting

/-! ### Frames -/

theorem Store.Holds.imp {s s' : Store} {c : Constructor} {P Q : List Value → Prop} {r : RecordRef}
    (h : s.Holds c P r) (hs : s.Grows s') (hPQ : ∀ args, P args → Q args) : s'.Holds c Q r := by
  obtain ⟨hr, args, hentries, hlength, hargs⟩ := h
  exact ⟨hs.lt_records hr, args, (hs.entries hr).trans hentries, hlength, hPQ args hargs⟩

section Frame

variable {S : Setting} {P : ThunkRef → Prop} {s s' : Store}

theorem Setting.Leads.imp {c : Constructor} {code : ℕ → Expr → Prop}
    {made made' : ℕ → ℕ → RecordRef → Prop} {k lo hi : ℕ} {t : ThunkRef}
    (h : S.Leads s c code made k lo hi t) (hs : s.Changes P s') :
    hi ≤ s.thunks.size → (∀ u : ThunkRef, lo ≤ u.index → u.index < hi → ¬ P u) →
    (∀ mid r, mid ≤ hi → made lo mid r → made' lo mid r) →
    S.Leads s' c code made' k lo hi t := by
  induction h with
  | bare hmid hr hmade ht =>
    intro _ _ himp
    exact .bare hmid (hs.defers _ _ hr) (himp _ _ hmid hmade) ht
  | @late k lo hi t label e hlo hhi ht he =>
    intro hsize hP _
    have hcell := hs.kept t (Nat.lt_of_lt_of_le hhi hsize) (hP t hlo hhi)
    exact .late hlo hhi (hcell.trans ht) he
  | @early k lo hi t u label y scope hlo hhi ht _ ih =>
    intro hsize hP himp
    have hcell := hs.kept t (Nat.lt_of_lt_of_le hhi hsize) (hP t hlo hhi)
    refine .early hlo hhi (hcell.trans ht) (ih (by omega) ?_ ?_)
    · exact fun u hu hut => hP u hu (Nat.lt_trans hut hhi)
    · exact fun mid r hmid => himp mid r (by omega)

mutual

/-- What changes elsewhere does not matter to what stands for a form. -/
theorem Setting.Stands.frame (hs : s.Changes P s') :
    ∀ (f : Form) {lo hi : ℕ} {v : Value}, hi ≤ s.thunks.size →
      (∀ u : ThunkRef, lo ≤ u.index → u.index < hi → ¬ P u) →
      S.Stands s f lo hi v → S.Stands s' f lo hi v
  | .slot _, _, _, _, _, _, h => h
  | .node c parts, lo, hi, v, hsize, hP, h => by
    have hmade : ∀ mid r, mid ≤ hi → s.Holds c (S.StandAll s parts lo mid) r →
        s'.Holds c (S.StandAll s' parts lo mid) r := fun mid r hmid hr =>
      hr.imp hs.toGrows fun args => Setting.StandAll.frame hs parts (by omega)
        fun u hu hum => hP u hu (by omega)
    rw [Setting.Stands] at h ⊢
    split at h
    · rename_i hlazy
      obtain ⟨k, t, rfl, ht⟩ := h
      rw [if_pos hlazy]
      exact ⟨k, t, rfl, ht.imp hs hsize hP hmade⟩
    · rename_i hlazy
      obtain ⟨r, rfl, hr⟩ := h
      rw [if_neg hlazy]
      exact ⟨r, rfl, hmade hi r (Nat.le_refl hi) hr⟩

theorem Setting.StandAll.frame (hs : s.Changes P s') :
    ∀ (forms : List Form) {lo hi : ℕ} {vs : List Value}, hi ≤ s.thunks.size →
      (∀ u : ThunkRef, lo ≤ u.index → u.index < hi → ¬ P u) →
      S.StandAll s forms lo hi vs → S.StandAll s' forms lo hi vs
  | [], _, _, _, _, _, h => h
  | f :: forms, lo, hi, vs, hsize, hP, ⟨v, rest, mid, hvs, hmid, hv, hrest⟩ => by
    have hle := Setting.le_of_standAll hrest
    exact ⟨v, rest, mid, hvs, hmid,
      Setting.Stands.frame hs f (by omega) (fun u hu hum => hP u hu (by omega)) hv,
      Setting.StandAll.frame hs forms hsize (fun u hu huh => hP u (by omega) huh) hrest⟩

end

theorem Setting.LeadsTo.frame {c : Constructor} {parts : List Form} {k lo hi : ℕ} {t : ThunkRef}
    (h : S.LeadsTo s c parts k lo hi t) (hs : s.Changes P s') (hsize : hi ≤ s.thunks.size)
    (hP : ∀ u : ThunkRef, lo ≤ u.index → u.index < hi → ¬ P u) :
    S.LeadsTo s' c parts k lo hi t :=
  h.imp hs hsize hP fun _ _ hmid hr => hr.imp hs.toGrows fun _ =>
    Setting.StandAll.frame hs parts (by omega) fun u hu hum => hP u hu (by omega)

end Frame

/-! ### Evaluating what spells a form -/

section Steps

variable {s : Store}

theorem outcome_build_of_lazy {c : Constructor} (hlazy : c.lazy = true) {args : List Value}
    (hlength : args.length = c.fields.length) :
    outcome (c.build args) s = (.ok (.thunk ⟨s.thunks.size⟩),
      (s.withRecord (c.entries args)).withThunk (.variant ⟨s.records.size⟩)) := by
  rw [Constructor.build_eq_wrap hlength]
  exact c.outcome_wrap_of_lazy hlazy _ _ s

theorem outcome_build_of_strict {c : Constructor} (hlazy : c.lazy = false) {args : List Value}
    (hlength : args.length = c.fields.length) :
    outcome (c.build args) s =
      (.ok (.record ⟨s.records.size⟩), s.withRecord (c.entries args)) := by
  rw [Constructor.build_eq_wrap hlength]
  exact c.outcome_wrap_of_strict hlazy _ _ s

variable {env : Env} {scope : Scope} {s' : Store}

theorem gives_var {name : String} {v : Value} (h : Table.get? scope name = some v) :
    Gives env (fun again => again (.eval scope (.var name))) s v s := by
  refine .step (gives_of_outcome ?_)
  simp only [h, Option.some_or]
  rfl

/-- To delay an expression is to put a deferred value into the store. -/
theorem gives_delay (label : Option String) (e : Expr) :
    Gives env (fun again => again (.eval scope (.delay label e))) s (.thunk ⟨s.thunks.size⟩)
      (s.withThunk (.expr label scope e)) :=
  .step (gives_of_outcome rfl)

theorem wellFormed_plainParam {α : Type} {y : String}
    (hy : (plainParam y : Param α).isName = true) :
    Param.wellFormed [(plainParam y : Param α)] = true := by
  simp only [plainParam] at hy
  simp [Param.wellFormed, hy, plainParam, Param.fallbacksLast]

theorem gives_lambda {y : String} (hy : (plainParam y : Param Datum).isName = true) (body : Expr) :
    Gives env (fun again => again (.eval scope (.action (.lambda [plainParam y] body)))) s
      (.closure ⟨s.closures.size⟩) (s.withClosure ⟨[plainParam y], body, scope⟩) := by
  have hwell : Param.wellFormed [(plainParam y : Param Value)] = true := wellFormed_plainParam hy
  refine .step (.step (gives_iff.mpr ⟨0, fun m _ => ?_⟩))
  have hparams : outcome ([(plainParam y : Param Datum)].mapM fun p => do
      let fallback ← p.fallback.mapM Datum.make
      return { name := p.name, kind := p.kind, fallback }) s = (.ok [plainParam y], s) := rfl
  show outcome (makeAction (perform env m) scope (.lambda [plainParam y] body)) s = _
  rw [makeAction, outcome_bind_ok hparams]
  simp only [hwell]
  rfl

/-- To call a closure of one parameter is to evaluate its body where the parameter is bound. -/
theorem gives_call_closure {c : ClosureRef} {y : String} {body : Expr} {v w : Value}
    (hc : s.closure c = ⟨[plainParam y], body, scope⟩)
    (h : Gives env (fun again => again (.eval ((y, v) :: scope) body)) s w s') :
    Gives env (fun again => again (.call (.closure c) [v])) s w s' := by
  obtain ⟨n, hn⟩ := gives_iff.mp h
  refine .step (gives_iff.mpr ⟨n, fun m hm => ?_⟩)
  show outcome (enter (perform env m) c [v] []) s = _
  rw [enter, outcome_get_bind, hc, ← hn m hm]
  rfl

end Steps

namespace Setting

variable {S : Setting} {s : Store} {c : Constructor} {parts : List Form}

/-- What evaluates to a value and leaves every store as it is refers to it. -/
theorem yields_of_gives {e : Expr} {v : Value}
    (h : ∀ s, Gives S.env (fun again => again (.eval S.scope e)) s v s) : S.Yields e v :=
  fun s _ => ⟨s, h s, .refl s, rfl⟩

/-- Whether what spells forms always evaluates to what stands for them, in an interval of its
own. -/
def Evaluates (S : Setting) (parts : List Form) : Prop :=
  ∀ {es : List Expr} {s : Store}, S.SpellsAll parts es → S.store.Grows s →
    ∃ vs s', Gives S.env (fun again => es.mapM fun e => again (.eval S.scope e)) s vs s' ∧
      s.Changes (fun _ => False) s' ∧
      S.StandAll s' parts s.thunks.size s'.thunks.size vs

/-- To call a factory on what spells its parts is to build what stands for them. -/
theorem exists_gives_build (hparts : S.Evaluates parts) (hlength : parts.length = c.fields.length)
    (hk : c.isConstant = false) {e : Expr} (he : S.Applies c (S.SpellsAll parts) e)
    (hs : S.store.Grows s) :
    ∃ args s', s.Changes (fun _ => False) s' ∧ args.length = c.fields.length ∧
      S.StandAll s' parts s.thunks.size s'.thunks.size args ∧
      ∀ {v s''}, outcome (c.build args) s' = (.ok v, s'') →
        Gives S.env (fun again => again (.eval S.scope e)) s v s'' := by
  rw [Applies, if_neg (by simp [hk])] at he
  obtain ⟨callee, es, rfl, hcallee, hes⟩ := he
  obtain ⟨s₁, hgives, hgrows, hthunks⟩ := hcallee s hs
  obtain ⟨args, s', hargs, hchanges, hstand⟩ := hparts hes (hs.trans hgrows)
  rw [hthunks] at hstand
  refine ⟨args, s', (hgrows.changes hthunks _).trans hchanges fun _ _ => id,
    (length_of_standAll hstand).trans hlength, hstand, fun {v s''} hv => ?_⟩
  have hcall : Gives S.env (fun again => again (.call (.constructor c) args)) s' v s'' := by
    refine .step (gives_iff.mpr ⟨0, fun m _ => ?_⟩)
    rw [LazyMatch.step, call, if_neg (by simp [hk]), hv]
  exact .step (hgives.bind (hargs.bind hcall))

/-- What is built of values in the store is a record that holds them. -/
theorem holds_withRecord {args : List Value} {lo hi : ℕ} (hlength : args.length = c.fields.length)
    (hargs : S.StandAll s parts lo hi args) (hhi : hi ≤ s.thunks.size) :
    (s.withRecord (c.entries args)).Holds c
      (S.StandAll (s.withRecord (c.entries args)) parts lo hi) ⟨s.records.size⟩ := by
  refine ⟨by simp [Store.withRecord], args, s.entries_withRecord _, hlength, ?_⟩
  exact StandAll.frame (Store.changes_withRecord (fun _ => False) s _) parts hhi
    (fun _ _ _ => id) hargs

/-- The value of a constant holds nothing. -/
theorem holds_of_constants (hk : c.isConstant = true) (hlength : parts.length = c.fields.length)
    {v : Value} (hv : S.constants c = some v) (hs : S.store.Grows s) (n : ℕ) :
    ∃ r, s.Holds c (S.StandAll s parts n n) r ∧
      if c.lazy then ∃ t, v = .thunk t ∧ s.Defers t r else v = .record r := by
  obtain ⟨r, hr, hentries, hdefers⟩ := (S.holds c v hv).mono hs.widens
  obtain rfl := Constructor.eq_nil_of_isConstant hk hlength
  exact ⟨r, ⟨hr, [], hentries, hlength, Nat.le_refl n, rfl⟩, hdefers⟩

/-- Without layers, what is headed by a strict constructor evaluates to the record itself. -/
theorem exists_gives_of_strict (hparts : S.Evaluates parts)
    (hlength : parts.length = c.fields.length) (hlazy : c.lazy = false) {e : Expr}
    (he : S.Applies c (S.SpellsAll parts) e) (hs : S.store.Grows s) :
    ∃ r s', Gives S.env (fun again => again (.eval S.scope e)) s (.record r) s' ∧
      s.Changes (fun _ => False) s' ∧
      s'.Holds c (S.StandAll s' parts s.thunks.size s'.thunks.size) r := by
  cases hk : c.isConstant with
  | true =>
    rw [Applies, if_pos hk] at he
    obtain ⟨v, hv, hyields⟩ := he
    obtain ⟨s', hgives, hgrows, hthunks⟩ := hyields s hs
    obtain ⟨r, hr, hrecord⟩ := holds_of_constants hk hlength hv (hs.trans hgrows) s.thunks.size
    rw [hlazy] at hrecord
    cases hrecord
    exact ⟨r, s', hgives, hgrows.changes hthunks _, hthunks ▸ hr⟩
  | false =>
    obtain ⟨args, s', hchanges, hargs, hstand, hgives⟩ := exists_gives_build hparts hlength hk he hs
    refine ⟨⟨s'.records.size⟩, _, hgives (outcome_build_of_strict hlazy hargs), ?_,
      holds_withRecord hargs hstand (Nat.le_refl _)⟩
    exact hchanges.trans (Store.changes_withRecord _ s' _) fun _ _ => id

/-- Without layers, what is headed by a lazy constructor evaluates to what defers the record. -/
theorem exists_gives_of_lazy (hparts : S.Evaluates parts)
    (hlength : parts.length = c.fields.length) (hlazy : c.lazy = true) {e : Expr}
    (he : S.Applies c (S.SpellsAll parts) e) (hs : S.store.Grows s) :
    ∃ t s', Gives S.env (fun again => again (.eval S.scope e)) s (.thunk t) s' ∧
      s.Changes (fun _ => False) s' ∧
      S.LeadsTo s' c parts 0 s.thunks.size s'.thunks.size t := by
  cases hk : c.isConstant with
  | true =>
    rw [Applies, if_pos hk] at he
    obtain ⟨v, hv, hyields⟩ := he
    obtain ⟨s', hgives, hgrows, hthunks⟩ := hyields s hs
    obtain ⟨r, hr, hdefers⟩ := holds_of_constants hk hlength hv (hs.trans hgrows) s.thunks.size
    rw [hlazy, if_pos rfl] at hdefers
    obtain ⟨t, rfl, ht⟩ := hdefers
    exact ⟨t, s', hgives, hgrows.changes hthunks _, .bare hgrows.thunks ht hr (.inr hv)⟩
  | false =>
    obtain ⟨args, s', hchanges, hargs, hstand, hgives⟩ := exists_gives_build hparts hlength hk he hs
    have hrecord := Store.changes_withRecord (fun _ => False) s' (c.entries args)
    have hthunk := Store.changes_withThunk (fun _ => False) (s'.withRecord (c.entries args))
      (.variant ⟨s'.records.size⟩)
    refine ⟨⟨s'.thunks.size⟩, _, hgives (outcome_build_of_lazy hlazy hargs),
      (hchanges.trans hrecord fun _ _ => id).trans hthunk fun _ _ => id,
      .bare hthunk.thunks (.inr (.inl (Store.cell_withThunk _ _))) ?_ (.inl ⟨Nat.le_refl _, ?_⟩)⟩
    · exact (holds_withRecord hargs hstand (Nat.le_refl _)).imp hthunk.toGrows fun _ =>
        StandAll.frame hthunk parts (Nat.le_refl _) fun _ _ _ => id
    · simp [Store.withThunk, Store.withRecord]

/-- Layers lead to what is inside. -/
theorem exists_gives_of_layered (hparts : S.Evaluates parts)
    (hlength : parts.length = c.fields.length) (hlazy : c.lazy = true) {k : ℕ} {e : Expr}
    (he : Layered (S.Applies c (S.SpellsAll parts)) k e) {s : Store} (hs : S.store.Grows s) :
    ∃ t s', Gives S.env (fun again => again (.eval S.scope e)) s (.thunk t) s' ∧
      s.Changes (fun _ => False) s' ∧
      S.LeadsTo s' c parts k s.thunks.size s'.thunks.size t := by
  induction he generalizing s with
  | bare he => exact exists_gives_of_lazy hparts hlength hlazy he hs
  | @late k e label he _ =>
    refine ⟨⟨s.thunks.size⟩, _, gives_delay label e, Store.changes_withThunk _ s _,
      .late (Nat.le_refl _) ?_ (Store.cell_withThunk s _) he⟩
    simp [Store.withThunk]
  | @early k e label y hy _ ih =>
    -- The closure is made first and is still there when the expression has been evaluated.
    have hclosure := Store.changes_withClosure (fun _ => False) s
      ⟨[plainParam y], .delay label (.var y), S.scope⟩
    obtain ⟨u, s', hu, hchanges, hleads⟩ := ih (hs.trans hclosure.toGrows)
    have hthunk := Store.changes_withThunk (fun _ => False) s'
      (.expr label ((y, .thunk u) :: S.scope) (.var y))
    have hentered : s'.closure ⟨s.closures.size⟩ =
        ⟨[plainParam y], .delay label (.var y), S.scope⟩ := by
      rw [hchanges.closure (by simp [Store.withClosure])]
      simp [Store.closure, Store.withClosure]
    have hargs : Gives S.env (fun again => [e].mapM fun e => again (.eval S.scope e))
        (s.withClosure ⟨[plainParam y], .delay label (.var y), S.scope⟩) [.thunk u] s' :=
      hu.evals (gives_of_outcome rfl)
    refine ⟨⟨s'.thunks.size⟩, _, .step ((gives_lambda hy _).bind
      (hargs.bind (gives_call_closure hentered (gives_delay label (.var y))))),
      (hclosure.trans hchanges fun _ _ => id).trans hthunk fun _ _ => id,
      .early (hchanges.thunks) ?_ (Store.cell_withThunk s' _) ?_⟩
    · simp [Store.withThunk]
    · exact hleads.frame hthunk (Nat.le_refl _) fun _ _ _ => id

mutual

/-- **What spells a form evaluates to what stands for it**, in an interval of its own, and nothing
that was there changes. -/
theorem exists_gives (S : Setting) :
    ∀ (f : Form), f.Full → ∀ {e : Expr} {s : Store}, S.Spells f e → S.store.Grows s →
      ∃ v s', Gives S.env (fun again => again (.eval S.scope e)) s v s' ∧
        s.Changes (fun _ => False) s' ∧ S.Stands s' f s.thunks.size s'.thunks.size v
  | .slot x, _, e, s, he, hs => by
    obtain ⟨s', hgives, hgrows, hthunks⟩ := he s hs
    exact ⟨S.assigned x, s', hgives, hgrows.changes hthunks _, rfl⟩
  | .node c parts, ⟨_, _, hlength, hfull⟩, e, s, ⟨k, hzero, he⟩, hs => by
    have hparts : S.Evaluates parts := evaluates S parts hfull
    cases hlazy : c.lazy with
    | true =>
      obtain ⟨t, s', hgives, hchanges, hleads⟩ :=
        exists_gives_of_layered hparts hlength hlazy he hs
      refine ⟨.thunk t, s', hgives, hchanges, ?_⟩
      rw [Stands, if_pos hlazy]
      exact ⟨k, t, rfl, hleads⟩
    | false =>
      cases hzero hlazy
      cases he with
      | bare he =>
        obtain ⟨r, s', hgives, hchanges, hholds⟩ :=
          exists_gives_of_strict hparts hlength hlazy he hs
        refine ⟨.record r, s', hgives, hchanges, ?_⟩
        rw [Stands, if_neg (by simp [hlazy])]
        exact ⟨r, rfl, hholds⟩

theorem evaluates (S : Setting) :
    ∀ (forms : List Form), Form.AllFull forms → S.Evaluates forms
  | [], _, es, s, hes, _ => by
    cases hes
    exact ⟨[], s, gives_of_outcome rfl, .refl _ s, Nat.le_refl _, rfl⟩
  | f :: forms, ⟨hf, hforms⟩, es, s, hes, hs => by
    obtain ⟨e, rest, rfl, he, hrest⟩ := hes
    obtain ⟨v, s₁, hv, hs₁, hstands⟩ := exists_gives S f hf he hs
    obtain ⟨vs, s₂, hvs, hs₂, hall⟩ :=
      evaluates S forms hforms hrest (hs.trans hs₁.toGrows)
    exact ⟨v :: vs, s₂, hv.evals hvs, hs₁.trans hs₂ fun _ _ => id, v, vs, s₁.thunks.size, rfl,
      hs₁.thunks, hstands.frame hs₂ f (Nat.le_refl _) (fun _ _ _ => id), hall⟩

end

end Setting

end LazyMatch
