import LazyMatch.Proofs.Anatomy

/-!
# What tasks are made of

Each task is done by functions that are made of the steps of evaluation, as long as what they are
given avoids the hidden deferred values. Resolving a deferred value is the exception: it changes the
state of that value, and is looked at where such states matter.

* `made_compute`: the computations of deferred values;
* `MadeForce`, `made_matches`, `made_select`: matching, for any way of forcing that is so made;
* `made_step`: all tasks but resolving.
-/

namespace LazyMatch

section Tasks

variable {hidden : ThunkRef → Prop} {env : Env}

/-! ### Operations on values -/

theorem made_add {a b : Value} (ha : a.Avoids hidden) (hb : b.Avoids hidden) :
    Made hidden (Value.Avoids hidden) fun _ => add a b := by
  unfold add
  split
  · exact .atom rfl
  · refine made_newList fun v hv => ?_
    exact (List.mem_append.mp hv).elim (Value.avoids_list.mp ha v) (Value.avoids_list.mp hb v)
  · exact .answer ha
  · exact .answer hb
  · refine made_newTuple fun v hv => ?_
    exact (List.mem_append.mp hv).elim (Value.avoids_tuple.mp ha v) (Value.avoids_tuple.mp hb v)
  · exact .chain (.ofFault fun _ _ => trivial) fun _ _ => .atom rfl

theorem made_binary (op : BinaryOp) {a b : Value} (ha : a.Avoids hidden) (hb : b.Avoids hidden) :
    Made hidden (Value.Avoids hidden) fun _ => binary op a b := by
  cases op with
  | add => exact made_add ha hb
  | sub => exact .chain (.ofFault fun _ _ => trivial) fun _ _ => .atom rfl
  | mul => exact .chain (.ofFault fun _ _ => trivial) fun _ _ => .atom rfl
  | less => exact .chain (.ofFault fun _ _ => trivial) fun _ _ => .atom rfl
  | same => exact .atom rfl

theorem made_unary (op : UnaryOp) {v : Value} (hv : v.Avoids hidden) :
    Made hidden (Value.Avoids hidden) fun again => unary again op v := by
  cases op with
  | force => exact .again hv
  | forceOnce =>
    cases v with
    | thunk t => exact .again (Value.avoids_thunk.mp hv)
    | _ => exact .fault _
  | complete =>
    refine .chain (.again hv) fun w hw => ?_
    cases w with
    | record r => exact .chain (.forget (.again trivial)) fun _ _ => .answer hw
    | _ => exact .answer hw
  | isDeferred => exact .atom rfl
  | isResolved =>
    cases v with
    | thunk t =>
      refine .look (fun s cells log hs hcells => ?_) fun s hs => ?_
      · rw [Store.cell_recast hcells log (Value.avoids_thunk.mp hv)]
      · split
        · exact .atom rfl
        · exact .atom rfl
    | _ => exact .fault _
  | tag => exact .look (fun _ _ _ _ _ => rfl) fun s hs => .answer (hs.tag v)
  | text =>
    refine .look (fun s cells log hs hcells => ?_) fun s hs => ?_
    · rw [Store.shown_recast hs hcells log hv]
    · exact .chain (.ofStop fun _ _ => trivial) fun _ _ => .atom rfl

theorem made_addPair {entries : Entries} (h : Entries.Avoid hidden entries) {v : Value}
    (hv : v.Avoids hidden) : Made hidden (Entries.Avoid hidden) fun _ => addPair entries v := by
  refine .chain (made_listElements hv) fun items hitems => ?_
  split
  · split
    · rename_i key entry _
      exact .answer (h.put (hitems key (by simp)) (hitems entry (by simp)))
    · exact .fault _
  · exact .fault _

/-! ### Arguments -/

theorem Param.mem_of_mem_arrange {α : Type} {params : List (Param α)} {p : Param α}
    (h : p ∈ Param.arrange params) : p ∈ params := by
  obtain ⟨kind, -, h⟩ := List.mem_flatMap.mp h
  exact List.mem_of_mem_filter h

theorem made_distribute {b extra : Bindings} (hb : Table.Avoid hidden b)
    (hextra : Table.Avoid hidden extra) {params : List (Param Value)}
    (hparams : Param.AllAvoid hidden params) {args : List Value}
    (hargs : ∀ v ∈ args, v.Avoids hidden) :
    Made hidden (Table.Avoid hidden) fun _ => distribute b extra params args := by
  induction params generalizing args with
  | nil =>
    cases args with
    | nil => exact .answer (by simp [Table.Avoid])
    | cons v args => exact .fault _
  | cons p rest ih =>
    have hrest : Param.AllAvoid hidden rest := fun q hq => hparams q (List.mem_cons_of_mem _ hq)
    unfold distribute
    split
    · contradiction
    · contradiction
    · rename_i heq
      cases heq
      refine .chain (made_newTuple hargs) fun v hv => .chain (ih hrest (by simp)) fun scope hs => ?_
      exact .answer (hs.cons _ hv)
    · rename_i heq
      cases heq
      refine .chain (made_newRecord (.ofTable hextra)) fun r _ => ?_
      exact .chain (ih hrest hargs) fun scope hs =>
        .answer (hs.cons _ (Value.avoids_of_mentions_nil rfl))
    · rename_i heq
      cases heq
      obtain ⟨hv, hargs⟩ := List.forall_mem_cons.mp hargs
      exact .chain (ih hrest hargs) fun scope hs => .answer (hs.cons _ hv)
    · rename_i heq
      cases heq
      obtain ⟨hv, hargs⟩ := List.forall_mem_cons.mp hargs
      exact .chain (ih hrest hargs) fun scope hs => .answer (hs.cons _ hv)
    · rename_i heq _ _
      cases heq
      split
      · rename_i v hv
        have hav : v.Avoids hidden := by
          rcases Option.or_eq_some_iff.mp hv with hv | ⟨-, hv⟩
          · split at hv
            · exact hb.get? hv
            · cases hv
          · exact hparams p List.mem_cons_self v hv
        exact .chain (ih hrest hargs) fun scope hs => .answer (hs.cons _ hav)
      · exact .fault _

theorem made_closure_enter {c : Closure} (hc : c.Avoids hidden) {args : List Value}
    (hargs : ∀ v ∈ args, v.Avoids hidden) {b : Bindings} (hb : Table.Avoid hidden b) :
    Made hidden (Table.Avoid hidden) fun _ => c.enter args b := by
  have hrest : Made hidden (Table.Avoid hidden) fun _ => do
      return (← distribute b (b.filter fun e => !wants c.params e.1) c.params args) ++ c.scope :=
    .chain (made_distribute hb (hb.filter _) hc.1 hargs) fun _ h => .answer (h.append hc.2)
  unfold Closure.enter
  dsimp only
  split
  · exact .chain (P := fun _ => True) (.fault _) fun _ _ => hrest
  · exact hrest

theorem Table.Avoid.wanted {params : List (Param Value)} {b : Bindings}
    (hb : Table.Avoid hidden b) : Table.Avoid hidden (wanted params b) := by
  unfold LazyMatch.wanted
  split
  · exact hb
  · exact hb.filter _

theorem Table.Avoid.wantedBy {v : Value} {b : Bindings} (hb : Table.Avoid hidden b) :
    Table.Avoid hidden (wantedBy v b) := by
  unfold LazyMatch.wantedBy
  split
  · split
    · exact hb
    · exact hb.filter _
  · exact hb.filter _

theorem made_argumentsFor (params : List String) {b : Bindings} (hb : Table.Avoid hidden b) :
    Made hidden (fun args => ∀ v ∈ args, v.Avoids hidden) fun _ => argumentsFor params b := by
  have hargs : ∀ args, params.mapM b.get? = some args → ∀ v ∈ args, v.Avoids hidden := by
    induction params with
    | nil => rintro _ (_ | _) v hv; cases hv
    | cons name names ih =>
      intro args h
      rw [List.mapM_cons] at h
      obtain ⟨v, hv, h⟩ := Option.bind_eq_some_iff.mp h
      obtain ⟨vs, hvs, h⟩ := Option.bind_eq_some_iff.mp h
      cases h
      exact List.forall_mem_cons.mpr ⟨hb.get? hv, ih vs hvs⟩
  unfold argumentsFor
  split
  · rename_i args _ h
    exact .answer (hargs args h)
  · exact .fault _

/-! ### Expressions, patterns and rows -/

theorem made_lookup (henv : env.Avoids hidden) {scope : Scope} (hscope : Table.Avoid hidden scope)
    (name : String) : Made hidden (Value.Avoids hidden) fun _ => lookup env scope name := by
  unfold lookup
  split
  · rename_i v hv
    rcases Option.or_eq_some_iff.mp hv with hv | ⟨-, hv⟩
    · exact .answer (hscope.get? hv)
    · exact .answer (henv.globals.get? hv)
  · exact .fault _

theorem made_attribute (datatype name : String) :
    Made hidden (Value.Avoids hidden) fun _ => env.attribute datatype name := by
  unfold Env.attribute
  split
  · exact .fault _
  · exact made_readMember _ name

theorem made_evalExpr (henv : env.Avoids hidden) {scope : Scope}
    (hscope : Table.Avoid hidden scope) (e : Expr) :
    Made hidden (Value.Avoids hidden) fun again => evalExpr env again scope e := by
  have heval : ∀ e, Made hidden (Value.Avoids hidden) fun again => again (.eval scope e) :=
    fun e => .again hscope
  have hall : ∀ es : List Expr, Made hidden (fun vs => ∀ v ∈ vs, v.Avoids hidden)
      fun again => es.mapM fun e => again (.eval scope e) := fun es => .each fun e _ => heval e
  cases e with
  | constant d => exact made_datum d
  | var name => exact made_lookup henv hscope name
  | call callee args =>
    exact .chain (heval callee) fun v hv => .chain (hall args) fun vs hvs => .again ⟨hv, hvs⟩
  | list items => exact .chain (hall items) fun vs hvs => made_newList hvs
  | tuple items => exact .chain (hall items) fun vs hvs => made_newTuple hvs
  | record entries =>
    refine .chain (P := Table.Avoid hidden) (.each fun e _ => ?_) fun t ht => ?_
    · exact .chain (heval e.2) fun v hv => .answer hv
    · exact made_record (.ofTable (.ofList ht))
  | get container key =>
    refine .chain (heval container) fun v hv => .chain (made_datum key) fun k hk => ?_
    exact made_reading (fun _ _ _ => rfl) fun s hs w hw => hs.index hv hk hw
  | sequence steps =>
    refine .chain (hall steps) fun vs hvs => ?_
    split
    · rename_i v hv
      exact .answer (hvs v (List.mem_of_getLast? hv))
    · exact .fault _
  | cond test yes no =>
    refine .chain (heval test) fun v _ => .look (fun _ _ _ _ _ => rfl) fun s _ => ?_
    split
    · exact heval yes
    · exact heval no
  | unary op arg => exact .chain (heval arg) fun v hv => made_unary op hv
  | binary op left right =>
    refine .chain (heval left) fun a ha => .chain (heval right) fun b hb => ?_
    split
    · exact .atom rfl
    · exact made_binary op ha hb
  | log entry => exact .chain (heval entry) fun v _ => .chain (.log v) fun _ _ => .atom rfl
  | count counter =>
    refine .look (fun _ _ _ _ _ => rfl) fun s _ => ?_
    refine .chain (.change (fun _ _ _ => rfl) (fun _ => Nat.le_refl _) fun _ hs =>
      hs.congr rfl rfl rfl rfl) fun _ _ => ?_
    exact .atom rfl
  | fail text => exact .fault _
  | delay label body => exact made_thunk hscope
  | delayCall callee =>
    refine .chain (heval callee) fun v hv => ?_
    split
    · exact made_thunk hv
    · exact .fault _
  | phrase p =>
    exact .chain (.again trivial) fun v hv => .chain (made_ofValue hv) fun p hp => .answer hp
  | action a => exact .again hscope
  | _ => exact made_attribute _ _

theorem made_makePattern (henv : env.Avoids hidden) (p : PatternExpr) :
    Made hidden (Value.Avoids hidden) fun again => makePattern env again p := by
  have hpattern : ∀ p, Made hidden (Value.Avoids hidden) fun again => again (.pattern p) :=
    fun p => .again trivial
  have hall : ∀ ps : List PatternExpr, Made hidden (fun vs => ∀ v ∈ vs, v.Avoids hidden)
      fun again => ps.mapM fun p => again (.pattern p) := fun ps => .each fun p _ => hpattern p
  cases p with
  | datum d => exact made_datum d
  | tuple items => exact .chain (hall items) fun vs hvs => made_newTuple hvs
  | name text => exact .chain .stamp fun _ _ => .atom rfl
  | literal d =>
    exact .chain (made_datum d) fun v hv => .chain .stamp fun _ _ => .answer hv
  | escape content => exact .chain (hpattern content) fun v hv => made_escape hv
  | defer content =>
    exact .chain (hpattern content) fun v hv => .chain .stamp fun _ _ => .answer hv
  | named inner name =>
    refine .chain (hpattern inner) fun v hv => .chain (made_ofValue hv) fun p hp => ?_
    exact .chain .stamp fun _ _ => .chain .stamp fun _ _ => .answer hp
  | either alternatives =>
    refine .chain (hall alternatives) fun vs hvs => .chain (made_ofValues hvs) fun ps hps => ?_
    exact .chain .stamp fun _ _ =>
      .answer (Value.avoids_phrase.mpr (Phrase.avoids_either.mpr hps))
  | value e => exact .again (by simp [Task.Avoids, Table.Avoid])
  | stored name =>
    simp only [makePattern]
    split
    · rename_i p hp
      exact .answer (henv.phrases _ (Table.mem_of_get? hp))
    · exact .fault _
  | row r => exact .again trivial

theorem made_makeRow (r : RowExpr) :
    Made hidden (Value.Avoids hidden) fun again => makeRow again r := by
  have hall : ∀ ps : List PatternExpr, Made hidden (fun vs => ∀ v ∈ vs, v.Avoids hidden)
      fun again => ps.mapM fun p => again (.pattern p) := fun ps => .each fun p _ => .again trivial
  cases r with
  | list cells => exact .chain (hall cells) fun vs hvs => made_newList hvs
  | tuple cells => exact .chain (hall cells) fun vs hvs => made_newTuple hvs
  | row cells =>
    refine .chain (hall cells) fun vs hvs => .chain (made_ofValues hvs) fun ps hps => ?_
    exact .chain .stamp fun _ _ => .answer (Value.avoids_phrase.mpr (Row.avoids_mk.mpr hps))
  | group rows =>
    have hrows : Made hidden (fun vs => ∀ v ∈ vs, v.Avoids hidden)
        fun again => rows.mapM fun r => again (.row r) := .each fun r _ => .again trivial
    refine .chain hrows fun vs hvs => ?_
    exact .chain (.each fun v hv => made_toRuleRow (hvs v hv)) fun rows hrows =>
      made_groupRows hrows
  | otherwise => exact .answer (Value.avoids_phrase.mpr Phrase.avoids_otherwise)
  | pattern p => exact .again trivial
  | datum d => exact made_datum d

theorem made_makeAction {scope : Scope} (hscope : Table.Avoid hidden scope) (a : ActionExpr) :
    Made hidden (Value.Avoids hidden) fun again => makeAction again scope a := by
  cases a with
  | constant d => exact made_datum d
  | value e => exact .again hscope
  | collect => exact .atom rfl
  | escape a => exact .chain (.again hscope) fun v hv => made_escape hv
  | lambda params body =>
    refine .chain (P := Param.AllAvoid hidden) (.each fun p _ => ?_) fun ps hps => ?_
    · refine .chain (P := fun o => ∀ v ∈ o, v.Avoids hidden) ?_ fun o ho => .answer ho
      cases p.fallback with
      | none => exact .answer (by simp)
      | some d => exact .chain (made_datum d) fun v hv => .answer (by simpa using hv)
    · have hclosure : Closure.Avoids hidden ⟨Param.arrange ps, body, scope⟩ :=
        ⟨fun p hp => hps p (Param.mem_of_mem_arrange hp), hscope⟩
      have hrest : Made hidden (Value.Avoids hidden) fun _ => do
          return .closure (← newClosure ⟨Param.arrange ps, body, scope⟩) :=
        .chain (P := fun _ => True)
          (.alter (fun _ _ _ => rfl) (fun _ => Nat.le_refl _) fun _ hs =>
            ⟨trivial, hs.pushClosure hclosure⟩) fun _ _ => .atom rfl
      split
      · exact .chain (P := fun _ => True) (.fault _) fun _ _ => hrest
      · exact hrest

/-! ### Calls -/

theorem made_enter (c : ClosureRef) {args : List Value} (hargs : ∀ v ∈ args, v.Avoids hidden)
    {b : Bindings} (hb : Table.Avoid hidden b) :
    Made hidden (Value.Avoids hidden) fun again => enter again c args b :=
  .look (fun _ _ _ _ _ => rfl) fun _ hs =>
    .chain (made_closure_enter (hs.closure c) hargs hb) fun _ hscope => .again hscope

theorem made_makeRecord {v : Value} (hv : v.Avoids hidden) :
    Made hidden (Value.Avoids hidden) fun again => makeRecord again v := by
  have hempty : Entries.Avoid hidden [] := by simp [Entries.Avoid]
  have hfold : ∀ {v : Value}, v.Avoids hidden → Made hidden (Value.Avoids hidden) fun _ => do
      return .record (← newRecord (← foldElements addPair [] v)) := fun hv =>
    .chain (made_foldElements (fun _ he _ hc => made_addPair he hc) hempty hv) fun _ he =>
      made_record he
  cases v with
  | record r =>
    exact .look (fun _ _ _ _ _ => rfl) fun s hs => made_record (hs.entries r)
  | noted stamp keys => exact .fault _
  | datatype d =>
    refine .look (fun _ _ _ _ _ => rfl) fun s hs => ?_
    split
    · rename_i keys hkeys
      refine .chain (.again ⟨hs.member hkeys, by simp⟩) fun v hv => ?_
      refine .chain (made_listElements hv) fun items _ => ?_
      split
      · exact made_record hempty
      · exact .fault _
    · exact hfold hv
    · exact .fault _
  | _ => exact hfold hv

theorem made_makeObject (k : Kind) {args : List Value} (hargs : ∀ v ∈ args, v.Avoids hidden) :
    Made hidden (Value.Avoids hidden) fun again => makeObject again k args := by
  unfold makeObject
  split
  · exact made_record (by simp [Entries.Avoid])
  · exact made_makeRecord (hargs _ List.mem_cons_self)
  · exact .chain (made_makeUndeclared (hargs _ List.mem_cons_self)) fun _ _ => .atom rfl
  · exact made_create _
  · exact .fault _

theorem made_rebuild (r : Rebuilder) {args : List Value} (hargs : ∀ v ∈ args, v.Avoids hidden) :
    Made hidden (Value.Avoids hidden) fun again => rebuild again r args := by
  have hobject : ∀ k {vs : List Value}, (∀ v ∈ vs, v ∈ args) →
      Made hidden (Value.Avoids hidden) fun again => makeObject again k vs :=
    fun k _ hvs => made_makeObject k fun v hv => hargs v (hvs v hv)
  unfold rebuild
  split
  · exact made_create _
  · exact hobject _ (by simp)
  · exact hobject _ (by simp)
  · exact hobject _ (by simp)
  · exact hobject _ (by simp)
  · exact made_create _
  · exact .fault _

theorem made_call {callee : Value} (hcallee : callee.Avoids hidden) {args : List Value}
    (hargs : ∀ v ∈ args, v.Avoids hidden) :
    Made hidden (Value.Avoids hidden) fun again => call again callee args := by
  cases callee with
  | constructor c =>
    simp only [call]
    split
    · exact .fault _
    · exact made_build c hargs
  | function f =>
    refine .look (fun _ _ _ _ _ => rfl) fun s _ => ?_
    dsimp only
    split
    · split
      · exact made_thunk hargs
      · exact .again hargs
    · exact .fault _
  | closure c => exact made_enter c hargs (by simp [Table.Avoid])
  | operation stamp op d => exact made_operate d op hargs
  | kind k => exact made_makeObject k hargs
  | noted stamp keys => exact made_makeObject _ hargs
  | rebuilder r => exact made_rebuild r hargs
  | _ => exact .fault _

theorem made_handle {h : Handler} (hh : h.action.Avoids hidden) {b : Bindings}
    (hb : Table.Avoid hidden b) :
    Made hidden (Value.Avoids hidden) fun again => handle again h b := by
  have hclosure : ∀ c {b : Bindings}, Table.Avoid hidden b →
      Made hidden (Value.Avoids hidden) fun again => enter again c [] b :=
    fun c _ hb => made_enter c (by simp) hb
  have hrecord := made_record (Entries.Avoid.ofTable hb)
  have hcall : ∀ params {v : Value} {b : Bindings}, v.Avoids hidden → Table.Avoid hidden b →
      Made hidden (Value.Avoids hidden) fun again =>
        argumentsFor params b >>= fun args => again (.call v args) := fun params _ _ hv hb =>
    .chain (made_argumentsFor params hb) fun _ hargs => .again ⟨hv, hargs⟩
  unfold handle
  split
  · exact hclosure _ hb
  · exact .look (fun _ _ _ _ _ => rfl) fun s _ => hclosure _ hb.wanted
  · exact hrecord
  · exact hrecord
  · exact hrecord
  · exact hrecord
  · split
    · exact hcall _ hh hb
    · exact .fault _
  · split
    · exact hcall _ hh hb.wantedBy
    · exact .answer hh
  · exact .chain (.again ⟨hh, hb⟩) fun v hv => .again hv

theorem made_compute {c : Computation} (hc : c.Avoids hidden) :
    Made hidden (Value.Avoids hidden) fun again => compute again c := by
  cases c with
  | expr label scope body => exact .again hc
  | call callee => exact .again ⟨hc, by simp⟩
  | constant r => exact .atom rfl
  | variant r => exact .atom rfl
  | dispatch f args => exact .again hc

/-! ### Forcing -/

theorem made_forceLayers (passed : List ThunkRef) {v : Value} (hv : v.Avoids hidden) :
    Made hidden (Value.Avoids hidden) fun again => forceLayers again passed v := by
  cases v with
  | thunk t =>
    have ht := Value.avoids_thunk.mp hv
    simp only [forceLayers]
    split
    · refine .look (fun s cells log hs hcells => ?_) fun s _ => ?_
      · rw [Store.shown_recast hs hcells log hv]
      · exact .chain (.ofStop fun _ _ => trivial) fun _ _ => .fault _
    · exact .chain (.again ht) fun w hw => .again hw
  | _ => exact .answer hv

theorem made_settleEntry (r : RecordRef) (i : ℕ) :
    Made hidden (Value.Avoids hidden) fun again => settleEntry again r i := by
  refine .look (fun _ _ _ _ _ => rfl) fun s hs => ?_
  split
  · rename_i key t hentry
    obtain ⟨hkey, ht⟩ := hs.entries r _ (List.mem_of_getElem? hentry)
    refine .chain (.again ht) fun v hv => ?_
    refine .chain (.change (fun _ _ _ => rfl) (fun _ => by simp) fun s hs => ?_)
      fun _ _ => .answer hv
    exact hs.setEntries r ((hs.entries r).putAt i hkey hv)
  · rename_i v _ hentry
    exact .answer (hs.entries r _ (List.mem_of_getElem? hentry)).2
  · exact .atom rfl

theorem made_requireSize (r : RecordRef) (size : ℕ) :
    Made hidden (fun _ => True) fun _ => requireSize r size := by
  refine .look (fun _ _ _ _ _ => rfl) fun s _ => ?_
  split
  · exact .fault _
  · exact .answer trivial

theorem made_settleEntries (r : RecordRef) (size : ℕ) (places : List ℕ) :
    Made hidden (fun _ => True) fun again => settleEntries again r size places := by
  induction places with
  | nil => exact .chain (made_requireSize r size) fun _ _ => .answer trivial
  | cons i rest ih =>
    refine .chain (made_requireSize r size) fun _ _ => ?_
    refine .chain (made_settleEntry r i) fun v _ => .chain ih fun found _ => ?_
    split
    · exact .answer trivial
    · exact .answer trivial

theorem made_settle (queue : List RecordRef) :
    Made hidden (Value.Avoids hidden) fun again => settle again queue := by
  cases queue with
  | nil => exact .atom rfl
  | cons r queue =>
    refine .look (fun _ _ _ _ _ => rfl) fun s _ => ?_
    split
    · exact .stop _
    · exact .chain (made_settleEntries r _ _) fun found _ => .again trivial

/-! ### Dispatch -/

section Dispatch

/-- Whether a way to force values is put together from the steps of evaluation. -/
def MadeForce (hidden : ThunkRef → Prop) (force : Evaluator → Value → Run Value) : Prop :=
  ∀ v, v.Avoids hidden → Made hidden (Value.Avoids hidden) fun again => force again v

theorem madeForce_again : MadeForce hidden fun again v => again (.force [] v) :=
  fun _ hv => .again hv

variable {force : Evaluator → Value → Run Value}

mutual

theorem made_matches (hforce : MadeForce hidden force) :
    ∀ (test : Test) {v : Value}, v.Avoids hidden → ∀ {b : Bindings}, Table.Avoid hidden b →
      Made hidden (fun o => ∀ b ∈ o, Table.Avoid hidden b) fun again =>
        test.matches (force again) v b
  | .wild, v, _, b, hb => .answer (by simpa using hb)
  | .bind name, v, hv, b, hb => .answer (by simpa using hb.put name hv)
  | .equal w, v, _, b, hb => by
    refine .look (fun _ _ _ _ _ => by rw [Store.equal?_recast]) fun s hs => ?_
    split
    · exact .answer (by simpa using hb)
    · exact .answer (by simp)
    · exact .stop _
  | .tag key, v, _, b, hb => by
    refine .look (fun _ _ _ _ _ => rfl) fun s hs => ?_
    split
    · exact .answer (by simpa using hb)
    · exact .answer (by simp)
  | .fields key subs, v, hv, b, hb => by
    refine .look (fun _ _ _ _ _ => rfl) fun s hs => ?_
    split
    · exact made_matchFields hforce subs _ hb
    · exact .answer (by simp)
  | .named inner name, v, hv, b, hb => by
    refine .chain (made_matches hforce inner hv hb) fun o ho => .answer ?_
    intro b' hb'
    obtain ⟨b'', hb'', rfl⟩ := Option.map_eq_some_iff.mp hb'
    exact (ho b'' hb'').put name hv
  | .either options, v, hv, b, hb => made_matchFirst hforce options hv hb
  | .strict inner, v, hv, b, hb =>
    .chain (hforce v hv) fun w hw => made_matches hforce inner hw hb

theorem made_matchFields (hforce : MadeForce hidden force) :
    ∀ (subs : List (String × Test)) (r : RecordRef) {b : Bindings}, Table.Avoid hidden b →
      Made hidden (fun o => ∀ b ∈ o, Table.Avoid hidden b) fun again =>
        Test.matchFields (force again) subs r b
  | [], r, b, hb => .answer (by simpa using hb)
  | (name, sub) :: rest, r, b, hb => by
    refine .look (fun _ _ _ _ _ => rfl) fun s hs => ?_
    split
    · exact .fault _
    · rename_i v hv
      refine .chain (made_matches hforce sub (hs.field? hv) hb) fun o ho => ?_
      cases o with
      | none => exact .answer (by simp)
      | some b' => exact made_matchFields hforce rest r (ho b' rfl)

theorem made_matchFirst (hforce : MadeForce hidden force) :
    ∀ (options : List Test) {v : Value}, v.Avoids hidden → ∀ {b : Bindings}, Table.Avoid hidden b →
      Made hidden (fun o => ∀ b ∈ o, Table.Avoid hidden b) fun again =>
        Test.matchFirst (force again) options v b
  | [], v, _, b, _ => .answer (by simp)
  | option :: rest, v, hv, b, hb => by
    refine .chain (made_matches hforce option hv hb) fun o ho => ?_
    cases o with
    | none => exact made_matchFirst hforce rest hv hb
    | some b' => exact .answer (by simpa using ho b' rfl)

end

theorem made_matchVector (hforce : MadeForce hidden force) {tests : List Test} {values : List Value}
    (hvalues : ∀ v ∈ values, v.Avoids hidden) {b : Bindings} (hb : Table.Avoid hidden b) :
    Made hidden (fun o => ∀ b ∈ o, Table.Avoid hidden b) fun again =>
      matchVector (force again) tests values b := by
  induction tests generalizing values b with
  | nil => exact .answer (by simpa using hb)
  | cons test tests ih =>
    cases values with
    | nil => exact .answer (by simpa using hb)
    | cons v values =>
      obtain ⟨hv, hvalues⟩ := List.forall_mem_cons.mp hvalues
      refine .chain (made_matches hforce test hv hb) fun o ho => ?_
      cases o with
      | none => exact .answer (by simp)
      | some b' => exact ih hvalues (ho b' rfl)

theorem made_matchGroup (hforce : MadeForce hidden force) {values : List Value}
    (hvalues : ∀ v ∈ values, v.Avoids hidden) (alternatives : List (List Test)) :
    Made hidden (fun o => ∀ b ∈ o, Table.Avoid hidden b) fun again =>
      matchGroup (force again) values alternatives := by
  induction alternatives with
  | nil => exact .answer (by simp)
  | cons tests rest ih =>
    refine .chain (made_matchVector hforce hvalues (by simp [Table.Avoid])) fun o ho => ?_
    cases o with
    | none => exact ih
    | some b => exact .answer (by simpa using ho b rfl)

theorem made_rowTest (hforce : MadeForce hidden force) {values : List Value}
    (hvalues : ∀ v ∈ values, v.Avoids hidden) (test : RowTest) :
    Made hidden (fun o => ∀ b ∈ o, Table.Avoid hidden b) fun again =>
      test.matches (force again) values := by
  cases test with
  | row tests => exact made_matchVector hforce hvalues (by simp [Table.Avoid])
  | group alternatives => exact made_matchGroup hforce hvalues alternatives
  | otherwise => exact .answer (by simp [Table.Avoid])

theorem made_select (hforce : MadeForce hidden force) {values : List Value}
    (hvalues : ∀ v ∈ values, v.Avoids hidden) {α : Type} {R : α → Prop} (rows : List (TestRow α))
    (hrows : ∀ row ∈ rows, R row.action) :
    Made hidden (fun o => ∀ x ∈ o, R x.1 ∧ Table.Avoid hidden x.2) fun again =>
      select (force again) values rows := by
  induction rows with
  | nil => exact .answer (by simp)
  | cons row rest ih =>
    obtain ⟨hrow, hrest⟩ := List.forall_mem_cons.mp hrows
    refine .chain (made_rowTest hforce hvalues row.test) fun o ho => ?_
    cases o with
    | none => exact ih hrest
    | some b => exact .answer (by simpa using ⟨hrow, ho b rfl⟩)

theorem made_matchRows (hforce : MadeForce hidden force) {α : Type} {R : α → Prop}
    {act : Evaluator → α → Bindings → Run Value}
    (hact : ∀ a b, R a → Table.Avoid hidden b →
      Made hidden (Value.Avoids hidden) fun again => act again a b)
    (name : String) {rows : List (TestRow α)} (hrows : ∀ row ∈ rows, R row.action)
    {values : List Value} (hvalues : ∀ v ∈ values, v.Avoids hidden) :
    Made hidden (Value.Avoids hidden) fun again =>
      matchRows (force again) (act again) name rows values := by
  refine .chain (made_select hforce hvalues rows hrows) fun o ho => ?_
  cases o with
  | some x => exact hact x.1 x.2 (ho x rfl).1 (ho x rfl).2
  | none =>
    refine .look (fun s cells log hs hcells => ?_) fun s _ => .stop _
    rw [Store.noMatch_recast hs hcells log name hvalues]

theorem made_read {frame : Table Value} (hframe : Table.Avoid hidden frame) (name : String) :
    Made hidden (Value.Avoids hidden) fun _ => (Plan.read frame name : Run Value) := by
  unfold Plan.read
  split
  · rename_i v hv
    exact .answer (hframe.get? hv)
  · exact .stop _

theorem made_bindForced (hforce : MadeForce hidden force) (bindings : List (String × String))
    {frame : Table Value} (hframe : Table.Avoid hidden frame) :
    Made hidden (Table.Avoid hidden) fun again =>
      Plan.bindForced (force again) bindings frame := by
  induction bindings generalizing frame with
  | nil => exact .answer hframe
  | cons binding rest ih =>
    refine .chain (made_read hframe binding.2) fun v hv => .chain (hforce v hv) fun w hw => ?_
    exact ih (hframe.put _ hw)

theorem made_runPlan (hforce : MadeForce hidden force) (plan : Plan) {args : List Value}
    (hargs : ∀ v ∈ args, v.Avoids hidden) :
    Made hidden (fun vs => ∀ v ∈ vs, v.Avoids hidden) fun again => plan.run (force again) args := by
  have hframe : Table.Avoid hidden (Table.ofList (plan.params.zip args)) := .ofList (.zip _ hargs)
  exact .chain (made_bindForced hforce plan.bindings hframe) fun frame hframe =>
    .each fun name _ => made_read hframe name

theorem made_dispatch (hforce : MadeForce hidden force)
    {act : Evaluator → Handler → Bindings → Run Value}
    (hact : ∀ h b, h.action.Avoids hidden → Table.Avoid hidden b →
      Made hidden (Value.Avoids hidden) fun again => act again h b)
    {f : Function} (hf : f.Avoids hidden) {args : List Value}
    (hargs : ∀ v ∈ args, v.Avoids hidden) :
    Made hidden (Value.Avoids hidden) fun again => f.dispatch (force again) (act again) args :=
  .chain (made_runPlan hforce f.plan hargs) fun _ hvs => made_matchRows hforce hact f.name hf hvs

end Dispatch

/-- Every task but resolving a deferred value is put together from the steps of evaluation. -/
theorem made_step (henv : env.Avoids hidden) {task : Task} (htask : task.Avoids hidden)
    (hresolve : ∀ t, task ≠ .resolve t) :
    Made hidden (Value.Avoids hidden) fun again => step env again task := by
  cases task with
  | eval scope e => exact made_evalExpr henv htask e
  | pattern p => exact made_makePattern henv p
  | row r => exact made_makeRow r
  | action scope a => exact made_makeAction htask a
  | call callee args => exact made_call htask.1 htask.2
  | dispatch f args =>
    have hact : ∀ h b, h.action.Avoids hidden → Table.Avoid hidden b →
        Made hidden (Value.Avoids hidden) fun again => again (.handle h b) :=
      fun h b hh hb => .again ⟨hh, hb⟩
    exact .look (fun _ _ _ _ _ => rfl) fun s hs =>
      made_dispatch madeForce_again hact (hs.function f) htask
  | handle h b => exact made_handle htask.1 htask.2
  | resolve t => exact absurd rfl (hresolve t)
  | force passed v => exact made_forceLayers passed htask
  | settle queue => exact made_settle queue

end Tasks

end LazyMatch
