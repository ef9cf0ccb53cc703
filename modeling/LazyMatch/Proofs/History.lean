import LazyMatch.CommandLine
import LazyMatch.Proofs.LifeCycle

/-!
# Histories of sessions

A session works through commands one after another, whatever comes of each. All that it evaluates
goes through its evaluator, and nothing that it does depends on the log, so that a note-taker may
watch a whole session: its history is what every note-taker would see.
-/

namespace LazyMatch

variable {α β : Type}

/-! ### What does not depend on the log -/

namespace Store

mutual

theorem viewWith_congr {s s' : Store} (hwritten : s'.written = s.written)
    (hshown : s'.shown = s.shown) (hooks : View.Hooks) : ∀ (outer : List Mark) (v : Value),
      s'.viewWith hooks outer v = s.viewWith hooks outer v
  | outer, .list stamp items | outer, .tuple stamp items => by
    have hitems := fun outer => viewAllWith_congr hwritten hshown hooks outer items
    simp only [viewWith, hitems]
  | outer, .phrase p => by simp only [viewWith, hshown]
  | outer, .null | outer, .bool _ | outer, .int _ | outer, .float _ _ | outer, .text _
  | outer, .record _ | outer, .thunk _ | outer, .closure _ => by simp only [viewWith]
  | outer, .constructor _ | outer, .function _ | outer, .datatype _ | outer, .operation _ _ _
  | outer, .visit _ | outer, .kind _ | outer, .noted _ _ | outer, .rebuilder _ | outer, .object _
  | outer, .undecided => by simp only [viewWith, hwritten]

theorem viewAllWith_congr {s s' : Store} (hwritten : s'.written = s.written)
    (hshown : s'.shown = s.shown) (hooks : View.Hooks) : ∀ (outer : List Mark) (vs : List Value),
      s'.viewAllWith hooks outer vs = s.viewAllWith hooks outer vs
  | outer, [] => rfl
  | outer, v :: rest => by
    simp only [viewAllWith, viewWith_congr hwritten hshown hooks outer v,
      viewAllWith_congr hwritten hshown hooks outer rest]

end

variable (s : Store) (log : Array Value)

@[simp] theorem written_withLog : (s.withLog log).written = s.written :=
  Store.written_recast s.avoids_none (.refl _ _) log

@[simp] theorem shown_withLog : (s.withLog log).shown = s.shown :=
  funext fun v => Store.shown_recast s.avoids_none (.refl _ _) log v.avoids_none

@[simp] theorem noMatch_withLog (function : String) (values : List Value) :
    (s.withLog log).noMatch function values = s.noMatch function values :=
  Store.noMatch_recast s.avoids_none (.refl _ _) log _ fun v _ => v.avoids_none

theorem viewTo_withLog (depth : ℕ) : (s.withLog log).viewTo depth = s.viewTo depth := by
  have hcongr := fun hooks => funext fun outer => funext fun v =>
    viewWith_congr (written_withLog s log) (shown_withLog s log) hooks outer v
  have hcell : (s.withLog log).cell = s.cell := rfl
  have hentries : (s.withLog log).entries = s.entries := rfl
  induction depth with
  | zero => exact hcongr _
  | succ depth ih =>
    simp only [viewTo, ih, hcell, hentries]
    exact hcongr _

@[simp] theorem view_withLog : (s.withLog log).view = s.view :=
  funext fun v => congrFun (congrFun (viewTo_withLog s log _) []) v

@[simp] theorem spelling_withLog : (s.withLog log).spelling = s.spelling := by
  have hname : (s.withLog log).ownName? = s.ownName? := by
    funext v
    cases v <;> rfl
  simp only [spelling, spellingWith, written_withLog, hname]

@[simp] theorem spelled_withLog : (s.withLog log).spelled = s.spelled := by
  funext p
  simp only [spelled, spelling_withLog]

end Store

@[simp] theorem Fault.message?_withLog (s : Store) (log : Array Value) (f : Fault) :
    f.message? (s.withLog log) = f.message? s := by
  cases f <;> simp [Fault.message?]

/-- When nothing is hidden the states are the same. -/
theorem SameOff.eq_of_none {cells cells' : Array Cell} (h : SameOff (fun _ => False) cells cells') :
    cells = cells' := by
  refine Array.ext_getElem? fun i => ?_
  exact (h ⟨i⟩ id).symm

/-- The evaluator of a session that a note-taker watches. -/
def watching (fuel : ℕ) (note : Notes) (env : Env) : Evaluator := watched env note fuel []

theorem watching_silent (fuel : ℕ) :
    watching fuel (fun _ => []) = fun env => perform env fuel :=
  funext fun env => funext fun task => watched_silent env fuel [] task

/-- The session with another log. -/
def Session.withLog (session : Session) (log : Array Value) : Session :=
  { session with store := session.store.withLog log }

/-- What a computation over a session gives when it starts in a session, and the session that it
leaves. -/
def runFrom (y : SessionM α) (session : Session) : Except Stop α × Session :=
  StateT.run (ExceptT.run y) session

theorem runFrom_bind_ok {y : SessionM α} {session session' : Session} {a : α}
    (h : runFrom y session = (.ok a, session')) (f : α → SessionM β) :
    runFrom (y >>= f) session = runFrom (f a) session' := by
  simp only [runFrom, ExceptT.run_bind, StateT.run_bind] at h ⊢
  rw [h]
  rfl

theorem runFrom_bind_error {y : SessionM α} {session session' : Session} {e : Stop}
    (h : runFrom y session = (.error e, session')) (f : α → SessionM β) :
    runFrom (y >>= f) session = (.error e, session') := by
  simp only [runFrom, ExceptT.run_bind, StateT.run_bind] at h ⊢
  rw [h]
  rfl

theorem runFrom_caught {y : SessionM α} {session session' : Session} {r : Except Stop α}
    (h : runFrom y session = (r, session')) :
    runFrom (tryCatch (Except.ok <$> y) (pure ∘ Except.error) : SessionM (Except Stop α)) session =
      (.ok r, session') := by
  rw [map_eq_pure_bind]
  have hcatch : ∀ x : SessionM (Except Stop α),
      runFrom (tryCatch x (pure ∘ Except.error)) session =
        match runFrom x session with
        | (.ok a, session') => (.ok a, session')
        | (.error e, session') => (.ok (.error e), session') := by
    intro x
    show StateT.run (ExceptT.run (ExceptT.tryCatch x _)) session = _
    simp only [ExceptT.tryCatch, ExceptT.run, ExceptT.mk, runFrom, StateT.run_bind]
    rcases StateT.run x session with ⟨_ | a, session'⟩
    · rfl
    · rfl
  rw [hcatch]
  cases r with
  | ok a => rw [runFrom_bind_ok h]; rfl
  | error e => rw [runFrom_bind_error h]

/-- What runs over the store leaves the rest of the session. -/
theorem runFrom_run {x : Env → Run α} {session : Session} {r : Except Stop α} {s' : Store}
    (h : outcome (x session.env) session.store = (r, s')) :
    runFrom (Session.run x) session = (r, { session with store := s' }) := by
  show StateT.run (ExceptT.run
      (MonadExcept.ofExcept (outcome (x session.env) session.store).1 : SessionM α))
    { session with store := (outcome (x session.env) session.store).2 } = _
  rw [h]
  cases r with
  | ok a => rfl
  | error e => rfl

/-- Whether a computation over a session has a timeline wherever it starts, the same for every
note-taker. -/
def Recorded (fuel : ℕ) (y : (Env → Evaluator) → SessionM α) : Prop :=
  ∀ session : Session, ∃ (r : Except Stop α) (session' : Session) (timeline : List Entry),
    (∀ note log, runFrom (y (watching fuel note)) (session.withLog log) =
      (r, session'.withLog (log ++ transcript note timeline))) ∧
    Span [] session.store.thunks (momentsOf timeline) session'.store.thunks

section Recorded

variable {fuel : ℕ}

theorem Recorded.answer (a : α) : Recorded fuel fun _ => pure a := fun session =>
  ⟨.ok a, session, [], fun _ _ => by simp [transcript]; rfl, .nothing⟩

theorem Recorded.stop (e : Stop) : Recorded (α := α) fuel fun _ => throw e := fun session =>
  ⟨.error e, session, [], fun _ _ => by simp [transcript]; rfl, .nothing⟩

theorem Recorded.congr {y y' : (Env → Evaluator) → SessionM α}
    (h : ∀ note, y (watching fuel note) = y' (watching fuel note)) (hy' : Recorded fuel y') :
    Recorded fuel y := by
  intro session
  obtain ⟨r, session', tl, hrun, hspan⟩ := hy' session
  exact ⟨r, session', tl, fun note log => by rw [h, hrun], hspan⟩

theorem Recorded.chain {y : (Env → Evaluator) → SessionM α} {f : α → (Env → Evaluator) → SessionM β}
    (hy : Recorded fuel y) (hf : ∀ a, Recorded fuel (f a)) :
    Recorded fuel fun evaluate => y evaluate >>= fun a => f a evaluate := by
  intro session
  obtain ⟨r, session₁, tl₁, hrun₁, hspan₁⟩ := hy session
  cases r with
  | error e =>
    exact ⟨.error e, session₁, tl₁, fun note log => runFrom_bind_error (hrun₁ note log) _, hspan₁⟩
  | ok a =>
    obtain ⟨r, session₂, tl₂, hrun₂, hspan₂⟩ := hf a session₁
    refine ⟨r, session₂, tl₁ ++ tl₂, fun note log => ?_, ?_⟩
    · rw [runFrom_bind_ok (hrun₁ note log), hrun₂, append_transcript]
    · rw [momentsOf_append]
      exact hspan₁.append hspan₂

/-- What is done may depend on all of the session but its log. -/
theorem Recorded.look {f : Session → (Env → Evaluator) → SessionM α}
    (same : ∀ session log, f (session.withLog log) = f session)
    (h : ∀ session, Recorded fuel (f session)) :
    Recorded fuel fun evaluate => get >>= fun session => f session evaluate := by
  intro session
  obtain ⟨r, session', tl, hrun, hspan⟩ := h session session
  refine ⟨r, session', tl, fun note log => ?_, hspan⟩
  rw [← hrun, ← same session log]
  rfl

/-- What is done to the session may be anything but to its store. -/
theorem Recorded.alter {f : Session → Session}
    (same : ∀ session log, f (session.withLog log) = (f session).withLog log)
    (hstore : ∀ session, (f session).store = session.store) : Recorded fuel fun _ => modify f := by
  intro session
  refine ⟨.ok ⟨⟩, f session, [], fun note log => ?_, hstore session ▸ .nothing⟩
  rw [show log ++ transcript note [] = log by simp [transcript], ← same]
  rfl

/-- What runs over the store, and is put together from the steps of evaluation. -/
theorem Recorded.run {P : α → Prop} (x : Env → Evaluator → Run α)
    (h : ∀ env, Made (fun _ => False) P (x env)) :
    Recorded fuel fun evaluate => Session.run fun env => x env (evaluate env) := by
  intro session
  obtain ⟨r, s', tl, hrun, -, hspan⟩ := (h session.env).timed
    (fun task s => timed_watched session.env fuel [] task s) session.store
  refine ⟨r, { session with store := s' }, tl, fun note log => ?_, hspan⟩
  exact runFrom_run (hrun note log)

/-- What runs over the store without evaluating anything. -/
theorem Recorded.store {P : α → Prop} {x : Run α} (h : Made (fun _ => False) P fun _ => x) :
    Recorded fuel fun _ => Session.run fun _ => x := .run (fun _ _ => x) fun _ => h

/-- A task. -/
theorem Recorded.evaluate (task : Env → Task) :
    Recorded fuel fun evaluate => Session.run fun env => evaluate env (task env) :=
  .run (fun env again => again (task env)) fun _ => .again (Task.avoids_none _)

theorem Recorded.each {f : α → (Env → Evaluator) → SessionM β} (as : List α)
    (h : ∀ a ∈ as, Recorded fuel (f a)) :
    Recorded fuel fun evaluate => as.mapM fun a => f a evaluate := by
  induction as with
  | nil => simpa only [List.mapM_nil] using Recorded.answer _
  | cons a as ih =>
    simp only [List.mapM_cons]
    refine .chain (h a List.mem_cons_self) fun b => ?_
    exact .chain (ih fun x hx => h x (List.mem_cons_of_mem _ hx)) fun bs => .answer _

/-- What is caught leaves the session as it is by then. -/
theorem Recorded.caught {y : (Env → Evaluator) → SessionM α} (h : Recorded fuel y) :
    Recorded fuel fun evaluate => tryCatch (Except.ok <$> y evaluate) (pure ∘ Except.error) := by
  intro session
  obtain ⟨r, session', tl, hrun, hspan⟩ := h session
  refine ⟨.ok r, session', tl, fun note log => ?_, hspan⟩
  exact runFrom_caught (hrun note log)

theorem Recorded.fault (f : Fault) : Recorded (α := α) fuel fun _ => Session.fail f := .stop _

theorem Recorded.ofFault (x : Except Fault α) : Recorded fuel fun _ => Session.orFail x := by
  cases x with
  | ok a => exact .answer a
  | error f => exact .fault f

theorem Recorded.required (x : Option α) : Recorded fuel fun _ => Session.required x := by
  cases x with
  | some a => exact .answer a
  | none => exact .fault _

theorem Recorded.demand (condition : Bool) (f : Fault) :
    Recorded fuel fun _ => Session.demand condition f := by
  cases condition with
  | true => exact .answer _
  | false => exact .fault f

theorem Recorded.fold {f : β → α → (Env → Evaluator) → SessionM β} (as : List α)
    (h : ∀ b, ∀ a ∈ as, Recorded fuel (f b a)) (b : β) :
    Recorded fuel fun evaluate => as.foldlM (fun b a => f b a evaluate) b := by
  induction as generalizing b with
  | nil => exact .answer b
  | cons a as ih =>
    simp only [List.foldlM_cons]
    refine .chain (h b a List.mem_cons_self) fun b' => ?_
    exact ih (fun b x hx => h b x (List.mem_cons_of_mem _ hx)) b'

/-- What is done may depend on all of the store but its log. -/
theorem Recorded.heap {f : Store → (Env → Evaluator) → SessionM α}
    (same : ∀ s log, f (Store.withLog s log) = f s) (h : ∀ s, Recorded fuel (f s)) :
    Recorded fuel fun evaluate => Session.heap >>= fun s => f s evaluate :=
  .look (f := fun session => f session.store) (fun session log => same session.store log)
    fun session => h session.store

/-! ### Showing values -/

/-- Something written that depends on the store. -/
theorem Recorded.writing {x : Store → Except Stop α}
    (same : ∀ s log, x (Store.withLog s log) = x s) : Recorded fuel fun _ => Session.writing x := by
  refine Recorded.run (P := fun _ => True) (fun _ _ => get >>= fun s => orStop (x s)) fun _ => ?_
  refine .look (f := fun s _ => orStop (x s)) (fun s cells log _ hcells => ?_) fun s _ =>
    .ofStop fun _ _ => trivial
  rw [← hcells.eq_of_none]
  exact funext fun _ => congrArg orStop (same s log)

theorem recorded_shown (v : Value) : Recorded fuel fun _ => Session.shown v :=
  .writing fun s log => by rw [Store.shown_withLog]

theorem recorded_written (v : Value) : Recorded fuel fun _ => Session.writing (·.written v) :=
  .writing fun s log => by rw [Store.written_withLog]

theorem recorded_view (v : Value) : Recorded fuel fun _ => Session.view v :=
  .writing fun s log => by rw [Store.view_withLog]

/-! ### Tags -/

theorem recorded_registry : Recorded fuel fun _ => Session.registry :=
  .look (fun _ _ => rfl) fun _ => .answer _

theorem recorded_datatype (name : String) : Recorded fuel fun _ => Session.datatype name :=
  .look (fun _ _ => rfl) fun _ => .required _

theorem recorded_currentName (d : DatatypeRef) : Recorded fuel fun _ => Session.currentName d :=
  .heap (fun _ _ => rfl) fun _ => .chain (.ofFault _) fun v => recorded_view v

theorem recorded_describe (v : Value) : Recorded fuel fun _ => Session.describe v := by
  have hrest : Recorded (α := Description) fuel fun _ =>
      Session.writing (·.written v) >>= fun _ => Session.fail (v.refusal "key") :=
    .chain (recorded_written v) fun _ => .fault _
  cases v with
  | constructor c =>
    exact .chain (recorded_datatype _) fun d => .chain (recorded_currentName d) fun _ => .answer _
  | _ => exact hrest

theorem recorded_describeAll : Recorded fuel fun _ => Session.describeAll := by
  refine .look (fun _ _ => rfl) fun session => .each _ fun (name, d) _ => ?_
  refine .chain (recorded_currentName d) fun _ => ?_
  refine .chain (.store (made_listElements (Value.avoids_none _))) fun constructors => ?_
  exact .chain (.each _ fun v _ => recorded_describe v) fun _ => .answer _

theorem made_ask (d : DatatypeRef) (name : String) :
    Made (fun _ => False) (fun _ => True) fun again => Session.ask again d name :=
  .chain (made_readMember _ _) fun _ _ => .weaken (.again (Task.avoids_none _)) fun _ _ => trivial

theorem made_stranger? (env : Env) (tag : String) :
    Made (fun _ => False) (fun _ => True) fun again => Session.stranger? again env tag := by
  simp only [Session.stranger?]
  split
  · exact .answer trivial
  · split
    · exact .answer trivial
    · refine .chain (made_holdsConstructor _ _) fun held _ => ?_
      split
      · exact .chain (made_ask _ _) fun _ _ => .answer trivial
      · exact .answer trivial

theorem recorded_resolve? (tag : String) :
    Recorded fuel fun evaluate => Session.resolve? evaluate tag := by
  refine .chain recorded_registry fun r => ?_
  split
  · exact .answer _
  · exact .run (fun env again => Session.stranger? again env tag) fun env => made_stranger? env tag

theorem recorded_lookup (tag : String) :
    Recorded fuel fun evaluate => Session.lookup evaluate tag := by
  refine .chain (recorded_resolve? tag) fun v => ?_
  cases v with
  | some v => exact .answer _
  | none => exact .fault _

/-- What a tag stands for in the patterns of a function does not depend on who watches. -/
theorem recorded_resolver : Recorded fuel fun evaluate => Session.resolver evaluate := by
  intro session
  have hstranger : ∀ tag, ∃ r : Except Stop (Option Value), ∀ note log,
      (outcome (Session.stranger? (watching fuel note session.env) session.env tag)
        (session.store.withLog log)).1 = r := by
    intro tag
    obtain ⟨r, s', tl, hrun, -, -⟩ := (made_stranger? session.env tag).timed
      (fun task s => timed_watched session.env fuel [] task s) session.store
    exact ⟨r, fun note log => congrArg Prod.fst (hrun note log)⟩
  refine ⟨(runFrom (Session.resolver (watching fuel fun _ => [])) session).1, session, [],
    fun note log => Prod.ext (congrArg Except.ok (funext fun tag => ?_)) ?_, .nothing⟩
  · obtain ⟨r, hr⟩ := hstranger tag
    have hsilent : (StateT.run (ExceptT.run (Session.stranger?
        (watching fuel (fun _ => []) session.env) session.env tag)) session.store).1 = r :=
      hr _ session.store.log
    have hnote : (StateT.run (ExceptT.run (Session.stranger?
        (watching fuel note (session.withLog log).env) (session.withLog log).env tag))
        (session.withLog log).store).1 = r := hr note log
    dsimp only
    rw [hsilent, hnote]
    rfl
  · simp [transcript]
    rfl

/-! ### Evaluating -/

theorem recorded_eval (e : Expr) : Recorded fuel fun evaluate => Session.eval evaluate e :=
  .evaluate fun _ => .eval [] e

theorem recorded_pattern (p : PatternExpr) :
    Recorded fuel fun evaluate => Session.pattern evaluate p := .evaluate fun _ => .pattern p

theorem recorded_row (r : RowExpr) : Recorded fuel fun evaluate => Session.row evaluate r :=
  .evaluate fun _ => .row r

theorem recorded_action (a : ActionExpr) :
    Recorded fuel fun evaluate => Session.action evaluate a := .evaluate fun _ => .action [] a

theorem recorded_call (callee : Value) (args : List Value) :
    Recorded fuel fun evaluate => Session.call evaluate callee args :=
  .evaluate fun _ => .call callee args

theorem recorded_phrase (p : PatternExpr) :
    Recorded fuel fun evaluate => Session.phrase evaluate p :=
  .chain (recorded_pattern p) fun v => .store (made_ofValue v.avoids_none)

theorem recorded_ruleRow (r : RowExpr) :
    Recorded fuel fun evaluate => Session.ruleRow evaluate r :=
  .chain (recorded_row r) fun v => .store (made_toRuleRow v.avoids_none)

theorem Recorded.maybe {f : α → (Env → Evaluator) → SessionM β} (h : ∀ a, Recorded fuel (f a))
    (a : Option α) : Recorded fuel fun evaluate => a.mapM fun a => f a evaluate := by
  cases a with
  | none => exact .answer none
  | some a =>
    simp only [Option.mapM_some, map_eq_pure_bind]
    exact .chain (h a) fun b => .answer (some b)

theorem recorded_rules (rules : List RuleExpr) :
    Recorded fuel fun evaluate => Session.rules evaluate rules := by
  refine .chain (.each _ fun rule _ => ?_) fun made => .each _ fun rule _ => ?_
  · refine .chain (.maybe recorded_row _) fun r => ?_
    exact .chain (.each _ fun a _ => recorded_action a) fun _ => .answer _
  · split
    · exact .chain (.store (made_toRuleRow (Value.avoids_none _))) fun _ => .answer _
    · exact .fault _

mutual

theorem recorded_test : ∀ t : TestExpr, Recorded fuel fun evaluate => Session.test evaluate t
  | .wild => .answer _
  | .bind _ => .answer _
  | .equal e => .chain (recorded_eval e) fun _ => .answer _
  | .tag _ => .answer _
  | .fields _ subs => .chain (recorded_testFields subs) fun _ => .answer _
  | .named inner _ => .chain (recorded_test inner) fun _ => .answer _
  | .either options => .chain (recorded_tests options) fun _ => .answer _
  | .strict inner => .chain (recorded_test inner) fun _ => .answer _

theorem recorded_testFields : ∀ subs : List (String × TestExpr),
    Recorded fuel fun evaluate => Session.testFields evaluate subs
  | [] => .answer _
  | (_, c) :: rest =>
    .chain (recorded_test c) fun _ => .chain (recorded_testFields rest) fun _ => .answer _

theorem recorded_tests :
    ∀ ts : List TestExpr, Recorded fuel fun evaluate => Session.tests evaluate ts
  | [] => .answer _
  | c :: rest => .chain (recorded_test c) fun _ => .chain (recorded_tests rest) fun _ => .answer _

end

theorem recorded_testRow (r : TestRowExpr) :
    Recorded fuel fun evaluate => Session.testRow evaluate r := by
  simp only [Session.testRow, map_eq_pure_bind]
  refine .chain (recorded_action _) fun _ => ?_
  split
  · exact .chain (.chain (recorded_tests _) fun _ => .answer _) fun _ => .answer _
  · exact .chain (.chain (.each _ fun _ _ => recorded_tests _) fun _ => .answer _)
      fun _ => .answer _
  · exact .answer _

/-! ### Complaints -/

theorem recorded_complaint (c : Complaint) :
    Recorded fuel fun evaluate => Session.complaint evaluate c := by
  cases c with
  | rules text guilty => exact .chain (.maybe recorded_phrase _) fun _ => .answer _
  | unknownTag tag guilty => exact .chain (.maybe recorded_phrase _) fun _ => .answer _
  | noRules => exact .answer _
  | wrongWidth expected guilty =>
    refine .chain (recorded_phrase guilty) fun p => ?_
    split
    · exact .answer _
    · exact .fault _
  | differentNames guilty names => exact .chain (recorded_phrase guilty) fun _ => .answer _
  | alreadyDefined name => exact .answer _
  | declaration text => exact .answer _
  | noMatch function scrutinees =>
    refine .chain (.each _ fun e _ => recorded_eval e) fun values => ?_
    refine .heap (fun s log => by simp only [Store.noMatch_withLog]) fun s => ?_
    split
    · exact .answer _
    · exact .stop _

theorem recorded_placePhrase (place : Place) :
    Recorded fuel fun evaluate => Session.placePhrase evaluate place := by
  cases place with
  | nowhere => exact .answer _
  | row r => exact .chain (recorded_ruleRow r) fun _ => .answer _
  | cell p => exact .chain (recorded_phrase p) fun _ => .answer _

theorem recorded_locate (f : Fault) (function : Option String) (place : Place) :
    Recorded fuel fun evaluate => Session.locate evaluate f function place := by
  refine .chain (recorded_placePhrase place) fun row => ?_
  split
  · exact .answer _
  · exact .fault _

theorem recorded_issue (i : Issue) : Recorded fuel fun evaluate => Session.issue evaluate i :=
  .chain (recorded_complaint i.complaint) fun f =>
    .fold _ (fun f place _ => recorded_locate f place.1 place.2) f

theorem recorded_issueAnswer (f : Fault) :
    Recorded fuel fun _ => Session.writing (Session.issueAnswer f) :=
  .writing fun s log => by
    simp only [Session.issueAnswer, Fault.message?_withLog, Store.spelling_withLog]

/-! ### Declarations -/

theorem made_makeDatatype (d : Datatype) :
    Made (fun _ => False) (fun _ => True) fun _ => d.make := by
  refine .chain (.each fun c _ => .chain (made_constructor c) fun v _ =>
    .answer (Q := fun _ => True) trivial) fun values _ => ?_
  refine .chain (made_newRecord (.ofTable (Table.avoid_none _))) fun values _ => ?_
  refine .chain (made_newRecord (.ofTable (Table.avoid_none _))) fun constructors _ => ?_
  exact made_newDatatype (Table.avoid_none _)

theorem recorded_declareDatatype (name : String) (specs : List Spec) (mode : Datum) :
    Recorded fuel fun _ => Session.declareDatatype name specs mode := by
  refine .chain recorded_registry fun r => ?_
  split
  · exact .fault _
  · refine .chain (.store (made_makeDatatype _)) fun d => ?_
    exact .chain (.alter (fun _ _ => rfl) fun _ => rfl) fun _ => .answer _

theorem made_newFunction {f : Function} :
    Made (fun _ => False) (fun _ => True) fun _ => newFunction f :=
  .alter (fun _ _ _ => rfl) (fun _ => Nat.le_refl _) fun _ _ => ⟨trivial, Store.avoids_none _⟩

theorem recorded_compile (name : String) (lazy : Bool) (rules : List (Rule Value)) :
    Recorded fuel fun evaluate => Session.compile evaluate name lazy rules := by
  refine .chain recorded_resolver fun resolve => .chain (.ofFault _) fun compiled => ?_
  exact .chain (.store made_newFunction) fun _ => .answer _

theorem recorded_rowTexts (rows : List RowTest) : Recorded fuel fun _ => Session.rowTexts rows :=
  .writing fun s log => by simp only [Store.written_withLog]

theorem recorded_declareFunction (name : String) (ruleExprs : List RuleExpr) (lazy : Bool)
    (global : String) :
    Recorded fuel fun evaluate => Session.declareFunction evaluate name ruleExprs lazy global := by
  refine .chain (recorded_rules _) fun rules =>
    .chain (recorded_compile _ _ _) fun (ref, function) => ?_
  refine .chain (recorded_rowTexts _) fun texts => ?_
  exact .chain (.alter (fun _ _ => rfl) fun _ => rfl) fun _ => .answer _

/-! ### Looking at the passes -/

theorem recorded_arityOf (rules : List (Rule Value)) (arity : Option Int) :
    Recorded fuel fun _ => Session.arityOf rules arity := by
  cases arity with
  | some n => exact .answer n
  | none => exact .chain (.ofFault _) fun _ => .answer _

theorem recorded_withNames (row : PatternRow) : Recorded fuel fun _ => Session.withNames row := by
  simp only [Session.withNames]
  split
  · split
    · exact .answer _
    · exact .fault _
  · exact .answer _

theorem recorded_passes (rules : List (Rule Value)) (arity : Option Int) (unchecked : Bool) :
    Recorded fuel fun evaluate => Session.passes evaluate rules arity unchecked := by
  refine .chain (recorded_arityOf rules arity) fun arity => .chain (.ofFault _) fun _ => ?_
  refine .chain recorded_resolver fun resolve =>
    .chain (.each _ fun _ _ => .ofFault _) fun rows => ?_
  refine .chain (.ofFault _) fun columns => .chain (.ofFault _) fun need => ?_
  refine .chain (.ofFault _) fun plan =>
    .chain (.each _ fun row _ => recorded_withNames row) fun _ => ?_
  exact .chain (recorded_rowTexts _) fun _ => .answer _

theorem recorded_patternReport (p : Phrase) :
    Recorded fuel fun evaluate => Session.patternReport evaluate p := by
  refine .chain recorded_resolver fun resolve => .chain (.ofFault _) fun pattern => ?_
  exact .writing fun s log => by simp only [Store.spelled_withLog, Store.written_withLog]

/-! ### Steps -/

theorem recorded_answer (v : Value) : Recorded fuel fun _ => Session.answer v :=
  .chain (recorded_view v) fun _ => .answer _

theorem recorded_matchRows (name : String) (rows : List (TestRow Handler)) (values : List Value) :
    Recorded fuel fun evaluate => Session.run fun env =>
      matchRows (fun v => evaluate env (.force [] v)) (fun h b => evaluate env (.handle h b))
        name rows values := by
  refine .run (P := Value.Avoids fun _ => False) (fun _ again => matchRows
    (fun v => again (.force [] v)) (fun h b => again (.handle h b)) name rows values) fun _ => ?_
  have hact : ∀ (h : Handler) (b : Bindings), True → Table.Avoid (fun _ => False) b →
      Made (fun _ => False) (Value.Avoids fun _ => False) fun again => again (.handle h b) :=
    fun _ _ _ _ => .again (Task.avoids_none _)
  exact made_matchRows madeForce_again hact name (fun _ _ => trivial) fun v _ => v.avoids_none

/-- Every step has a timeline. -/
theorem recorded_step (step : Step) :
    Recorded fuel fun evaluate => Session.perform evaluate step := by
  cases step with
  | registry => exact .chain recorded_describeAll fun _ => .answer _
  | lookup tag =>
    exact .chain (recorded_lookup tag) fun c => .chain (recorded_describe c) fun _ => .answer _
  | isLazy tag =>
    refine .chain (recorded_lookup tag) fun v => ?_
    split
    · exact .answer _
    · exact .fault _
  | resolve tag =>
    refine .chain (recorded_resolve? tag) fun c => ?_
    exact .chain (.maybe recorded_describe c) fun _ => .answer _
  | constructor name tag =>
    refine .chain (recorded_datatype name) fun d => ?_
    refine .chain (.run (fun _ again => Session.ask again d tag) fun _ => made_ask d tag)
      fun c => ?_
    exact .chain (recorded_describe c) fun _ => .answer _
  | assign name member =>
    refine .chain (recorded_datatype name) fun d => ?_
    exact .chain (.store (made_assignMember _ _ (Value.avoids_none _))) fun _ => .answer _
  | keep name p =>
    refine .chain (recorded_phrase p) fun p =>
      .chain (.alter (fun _ _ => rfl) fun _ => rfl) fun _ => ?_
    exact .chain (recorded_shown _) fun _ => .answer _
  | phrase p =>
    refine .chain (recorded_phrase p) fun p => .chain (recorded_shown _) fun _ => ?_
    exact .chain (recorded_written _) fun _ => .answer _
  | row r =>
    exact .chain (recorded_ruleRow r) fun r => .chain (recorded_shown _) fun _ => .answer _
  | pattern p =>
    exact .chain (recorded_phrase p) fun p => .chain (recorded_patternReport p) fun _ => .answer _
  | passes ruleExprs arity unchecked =>
    exact .chain (recorded_rules _) fun rules => .chain (recorded_passes _ _ _) fun _ => .answer _
  | plan params need => exact .chain (.ofFault _) fun _ => .answer _
  | function name ruleExprs lazy other verbosity =>
    exact .chain (recorded_declareFunction _ _ _ _) fun _ => .answer _
  | define name e =>
    exact .chain (recorded_eval e) fun v =>
      .chain (.alter (fun _ _ => rfl) fun _ => rfl) fun _ => .answer _
  | eval e => exact .chain (recorded_eval e) fun v => recorded_answer v
  | print es =>
    refine .chain (.each _ fun e _ => recorded_eval e) fun values => ?_
    exact .chain (.each _ fun v _ => recorded_shown v) fun _ => .answer _
  | cases values ruleExprs =>
    refine .chain (.each _ fun e _ => recorded_eval e) fun values => ?_
    refine .chain (recorded_rules _) fun rules => .chain (recorded_compile _ _ _) fun (ref, _) => ?_
    exact .chain (recorded_call _ _) fun v => recorded_answer v
  | issue i =>
    exact .chain (recorded_issue i) fun f => .chain (recorded_issueAnswer f) fun _ => .answer _
  | datatype name specs mode verbosity =>
    refine .chain (.demand _ _) fun _ => .chain (recorded_declareDatatype _ _ _) fun _ => .answer _
  | contains tag name =>
    cases name with
    | none => exact .chain (recorded_resolve? tag) fun _ => .answer _
    | some name =>
      refine .chain (recorded_datatype name) fun d => ?_
      exact .chain (.store (made_holdsConstructor _ _)) fun _ => .answer _
  | matchRows name rows values showOnly =>
    refine .chain (.each _ fun r _ => recorded_testRow r) fun rows => ?_
    refine .chain (.each _ fun e _ => recorded_eval e) fun values => ?_
    split
    · exact .chain (recorded_rowTexts _) fun _ => .answer _
    · exact .chain (recorded_matchRows name rows values) fun v => recorded_answer v
  | report verbosity notes issues =>
    refine .chain (.demand _ _) fun _ => ?_
    refine .chain (.each _ fun i _ => recorded_issue i) fun faults => ?_
    exact .chain (.writing fun s log => by simp only [Fault.message?_withLog]) fun _ => .answer _

/-! ### Programs -/

theorem recorded_andThen {t : CommandLine.Transcript} {work : (Env → Evaluator) → SessionM Outcome}
    {next : CommandLine.Transcript → (Env → Evaluator) → SessionM CommandLine.Transcript}
    (hwork : Recorded fuel work) (hnext : ∀ t, Recorded fuel (next t)) :
    Recorded fuel fun evaluate => t.andThen (work evaluate) fun t => next t evaluate := by
  refine .chain (.caught hwork) fun r => ?_
  split
  · exact hnext _
  · rename_i f
    split
    · exact .chain (.writing fun s log => Fault.message?_withLog s log f) fun _ => .answer _
    · exact .stop _
  · exact .stop _

theorem recorded_runSteps (steps : List Step) (t : CommandLine.Transcript) :
    Recorded fuel fun evaluate => CommandLine.runSteps evaluate steps t := by
  induction steps generalizing t with
  | nil => exact .answer t
  | cons step rest ih => exact recorded_andThen (recorded_step step) ih

/-- A program with a session of its own ends the same, whoever watches. -/
theorem recorded_runProgram {given : (Env → Evaluator) → SessionM CommandLine.Transcript}
    (hgiven : Recorded fuel given) (path : String) :
    Recorded fuel fun evaluate => CommandLine.runProgram evaluate (given evaluate) path := by
  simp only [CommandLine.runProgram]
  split
  · exact hgiven
  · split
    · exact .fault _
    · rename_i steps _
      obtain ⟨r, session, tl, hrun, -⟩ := @recorded_runSteps fuel steps {} {}
      have hresult : ∀ note, (StateT.run (ExceptT.run
          (CommandLine.runSteps (watching fuel note) steps {})) {}).1 = r :=
        fun note => congrArg Prod.fst (hrun note #[])
      cases r with
      | ok t => exact .congr (fun note => by rw [hresult note]) (.answer t)
      | error e => exact .congr (fun note => by rw [hresult note]) (.stop e)

theorem recorded_run {given : (Env → Evaluator) → SessionM CommandLine.Transcript}
    (hgiven : Recorded fuel given) (args : List String) :
    Recorded fuel fun evaluate => CommandLine.run evaluate args (given evaluate) := by
  simp only [CommandLine.run]
  split
  · exact .answer _
  · split
    · exact .answer _
    · exact .answer _
    · exact .chain (recorded_runProgram hgiven _) fun _ => .answer _

mutual

theorem recorded_execute : ∀ c : Command, Recorded fuel fun evaluate => Session.execute evaluate c
  | .step s => recorded_step s
  | .main args program =>
    .chain (recorded_run (recorded_executeAll program {}) args) fun _ => .answer _

theorem recorded_executeAll : ∀ (program : List Command) (t : CommandLine.Transcript),
    Recorded fuel fun evaluate => Session.executeAll evaluate program t
  | [], t => .answer t
  | c :: rest, _ => recorded_andThen (recorded_execute c) (recorded_executeAll rest)

end

end Recorded

/-! ### Sessions -/

/-- Work through commands one after another, whatever comes of each, and take what each has logged
out of the session. -/
def Session.course (evaluate : Env → Evaluator) :
    List Command → Session → List (Except Stop Outcome × Array Value) × Session
  | [], session => ([], session)
  | c :: rest, session =>
    let (result, session) := attempt evaluate c session
    let (replies, last) := course evaluate rest (session.withLog #[])
    ((result, session.store.log) :: replies, last)

/-- What came of a command, and its timeline. -/
structure Chapter where
  result : Except Stop Outcome
  timeline : List Entry

/-- What came of a command, and what a note-taker has logged. -/
def Chapter.toldBy (note : Notes) (c : Chapter) : Except Stop Outcome × Array Value :=
  (c.result, (transcript note c.timeline).toArray)

/-- The moments of a history. -/
def historyMoments (history : List Chapter) : List Moment :=
  history.flatMap fun c => momentsOf c.timeline

theorem course_recorded (fuel : ℕ) (commands : List Command) (session : Session) :
    ∃ (history : List Chapter) (final : Session),
      (∀ note, Session.course (watching fuel note) commands session =
        (history.map (Chapter.toldBy note), final)) ∧
      Span [] session.store.thunks (historyMoments history) final.store.thunks := by
  induction commands generalizing session with
  | nil => exact ⟨[], session, fun _ => rfl, .nothing⟩
  | cons c rest ih =>
    obtain ⟨r, session', tl, hrun, hspan⟩ := @recorded_execute fuel c session
    obtain ⟨history, final, hcourse, hspan'⟩ := ih (session'.withLog #[])
    refine ⟨⟨r, tl⟩ :: history, final, fun note => ?_, hspan.append hspan'⟩
    have hattempt : Session.attempt (watching fuel note) c session = _ := hrun note #[]
    rw [Session.course, hattempt]
    show ((r, #[] ++ transcript note tl) ::
        (Session.course (watching fuel note) rest (session'.withLog #[])).1,
      (Session.course (watching fuel note) rest (session'.withLog #[])).2) = _
    rw [hcourse note]
    simp [Chapter.toldBy]

/-- What the life of deferred values is like in every session. -/
theorem deferred_life_cycle (fuel : ℕ) (commands : List Command) :
    (watching fuel fun _ => []) = (fun env => perform env fuel) ∧
    (∃ (history : List Chapter) (final : Session),
      (∀ note, Session.course (watching fuel note) commands {} =
        (history.map (Chapter.toldBy note), final)) ∧
      LifeCycle (historyMoments history) final.store.thunks) ∧
    ∀ (env : Env) (s s' : Store) (t : ThunkRef) (c : Computation) (v : Value),
      s.cell t = .pending c →
      outcome (compute (perform env fuel) c) (s.setCell t (.running c)) = (.ok v, s') →
      v ≠ .thunk t →
      outcome (perform env (fuel + 1) (.resolve t)) s = (.ok v, s'.setCell t (.resolved v)) := by
  refine ⟨watching_silent fuel, ?_, ?_⟩
  · obtain ⟨history, final, hcourse, hspan⟩ := course_recorded fuel commands {}
    exact ⟨history, final, hcourse, hspan.lifeCycle⟩
  · intro env s s' t c v hcell hcompute hv
    exact outcome_resolve_pending hcell hcompute (by simpa using hv)

/-- A deferred value whose computation stops at the first attempt. -/
def secondAttempt : List Command :=
  [.step (.define "t" (.delay none (.cond (.binary .less (.count "n") (.constant (.int 2)))
      (.fail "not yet") (.constant (.int 7))))),
    .step (.eval (.unary .force (.var "t"))), .step (.eval (.unary .force (.var "t"))),
    .step (.eval (.unary .force (.var "t")))]

/-- Note for deferred values that are resolved whether they were pending, and are answered. -/
def resolutions : Notes
  | .ends (.resolve t) _ before _ r =>
    [.bool (cellAt before t matches .pending _), .bool (r matches .ok _)]
  | _ => []

theorem deferred_life_cycle_secondAttempt :
    (Session.course (watching 20 resolutions) secondAttempt {}).1.map (·.2) =
      [#[], #[.bool true, .bool false], #[.bool true, .bool true], #[.bool false, .bool true]] ∧
    ∃ (history : List Chapter) (final : Session),
      (∀ note, Session.course (watching 20 note) secondAttempt {} =
        (history.map (Chapter.toldBy note), final)) ∧
      LifeCycle (historyMoments history) final.store.thunks :=
  ⟨by decide +kernel, (deferred_life_cycle 20 secondAttempt).2.1⟩

end LazyMatch
