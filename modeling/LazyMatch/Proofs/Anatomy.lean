import LazyMatch.Proofs.Mention

/-!
# What evaluation is made of

Tasks are done in steps of a few kinds: to answer, to stop, to look at the store, to alter it, to
defer a computation, and to do another task. `Made hidden Q x` says that `x` is a chain of such
steps in which no deferred value that is `hidden` turns up, and that what it answers fulfils `Q`.
What is proved of the kinds of steps holds of all that is made of them, and so the functions of the
evaluator are looked into only once, here and in the module on tasks.

* `Made.each`, `Made.fold`: the same for every element of a list;
* `made_newList`, `made_newRecord`, … : one lemma for each function, named for it.
-/

namespace LazyMatch

/-- What does the tasks that a task leads to. -/
abbrev Evaluator := Task → Run Value

/-- Whether a computation is put together from steps that evaluation consists of. -/
inductive Made (hidden : ThunkRef → Prop) :
    {α : Type} → (α → Prop) → (Evaluator → Run α) → Prop where
  | answer {α : Type} {Q : α → Prop} {a : α} (h : Q a) : Made hidden Q fun _ => pure a
  | stop {α : Type} {Q : α → Prop} (e : Stop) : Made hidden Q fun _ => throw e
  | look {α : Type} {Q : α → Prop} {f : Store → Evaluator → Run α}
      (same : ∀ s cells log, s.Avoids hidden → SameOff hidden s.thunks cells →
        f (s.recast cells log) = f s)
      (made : ∀ s, s.Avoids hidden → Made hidden Q (f s)) :
      Made hidden Q fun again => get >>= fun s => f s again
  | alter {α : Type} {Q : α → Prop} {f : Store → α × Store}
      (same : ∀ s cells log, f (s.recast cells log) = ((f s).1, (f s).2.recast cells log))
      (grows : ∀ s : Store, s.records.size ≤ (f s).2.records.size)
      (made : ∀ s, s.Avoids hidden → Q (f s).1 ∧ (f s).2.Avoids hidden) :
      Made hidden Q fun _ => modifyGet f
  | log (v : Value) : Made hidden (fun _ => True) fun _ =>
      modify fun s => { s with log := s.log.push v }
  | delay {c : Computation} (h : c.Avoids hidden) :
      Made hidden (fun t => ¬ hidden t) fun _ => newThunk c
  | again {task : Task} (h : task.Avoids hidden) :
      Made hidden (Value.Avoids hidden) fun again => again task
  | chain {α β : Type} {P : α → Prop} {Q : β → Prop} {x : Evaluator → Run α}
      {f : α → Evaluator → Run β} (first : Made hidden P x)
      (rest : ∀ a, P a → Made hidden Q (f a)) :
      Made hidden Q fun again => x again >>= fun a => f a again

section Made

variable {hidden : ThunkRef → Prop} {α β : Type} {P : α → Prop} {Q : β → Prop}

/-! ### Putting computations together -/

theorem Made.weaken {R : α → Prop} {x : Evaluator → Run α} (h : Made hidden P x)
    (hPR : ∀ a, P a → R a) : Made hidden R x := by
  have hchain := Made.chain h fun a ha => Made.answer (hPR a ha)
  simpa only [bind_pure] using hchain

/-- A value without deferred parts. -/
theorem Made.atom {v : Value} (h : v.mentions = []) :
    Made hidden (Value.Avoids hidden) fun _ => pure v := .answer (Value.avoids_of_mentions_nil h)

theorem Made.fault (f : Fault) : Made hidden P fun _ => raise f := .stop _

theorem Made.change {f : Store → Store}
    (same : ∀ s cells log, f (s.recast cells log) = (f s).recast cells log)
    (grows : ∀ s : Store, s.records.size ≤ (f s).records.size)
    (made : ∀ s, s.Avoids hidden → (f s).Avoids hidden) :
    Made hidden (fun _ : PUnit => True) fun _ => modify f :=
  .alter (fun s cells log => by rw [same]) grows fun s hs => ⟨trivial, made s hs⟩

theorem Made.stamped {x : Fresh α} (h : ∀ n, P (x.run n).1) :
    Made hidden P fun _ => withStamps x :=
  .alter (fun _ _ _ => rfl) (fun _ => Nat.le_refl _) fun s hs =>
    ⟨h s.stamps, hs.congr rfl rfl rfl rfl⟩

theorem Made.stamp : Made hidden (fun _ => True) fun _ => withStamps fresh :=
  .stamped fun _ => trivial

theorem Made.ofStop {x : Except Stop α} (h : ∀ a, x = .ok a → P a) :
    Made hidden P fun _ => orStop x := by
  cases x with
  | ok a => exact .answer (h a rfl)
  | error e => exact .stop e

theorem Made.ofFault {x : Except Fault α} (h : ∀ a, x = .ok a → P a) :
    Made hidden P fun _ => orRaise x := by
  cases x with
  | ok a => exact .answer (h a rfl)
  | error f => exact .fault f

theorem Made.forget {x : Evaluator → Run α} (h : Made hidden P x) :
    Made hidden (fun _ => True) fun again => discard (x again) := by
  have hdiscard : ∀ again, discard (x again) = x again >>= fun _ => pure PUnit.unit := by
    intro again
    rw [discard, LawfulFunctor.map_const, Function.comp_apply, map_eq_pure_bind]
  simp only [hdiscard]
  exact .chain h fun _ _ => .answer trivial

theorem Made.each {f : α → Evaluator → Run β} {as : List α}
    (h : ∀ a ∈ as, Made hidden Q (f a)) :
    Made hidden (fun bs => ∀ b ∈ bs, Q b) fun again => as.mapM fun a => f a again := by
  induction as with
  | nil => simpa only [List.mapM_nil] using Made.answer (by simp)
  | cons a as ih =>
    simp only [List.mapM_cons]
    refine .chain (h a List.mem_cons_self) fun b hb => ?_
    refine .chain (ih fun x hx => h x (List.mem_cons_of_mem _ hx)) fun bs hbs => ?_
    exact .answer (by simpa using ⟨hb, hbs⟩)

theorem Made.fold {f : β → α → Evaluator → Run β} {as : List α}
    (h : ∀ b, Q b → ∀ a ∈ as, Made hidden Q (f b a)) {b : β} (hb : Q b) :
    Made hidden Q fun again => as.foldlM (fun b a => f b a again) b := by
  induction as generalizing b with
  | nil => exact .answer hb
  | cons a as ih =>
    simp only [List.foldlM_cons]
    refine .chain (h b hb a List.mem_cons_self) fun b' hb' => ?_
    exact ih (fun b hb x hx => h b hb x (List.mem_cons_of_mem _ hx)) hb'

/-! ### Making values -/

theorem made_newList {items : List Value} (h : ∀ v ∈ items, v.Avoids hidden) :
    Made hidden (Value.Avoids hidden) fun _ => newList items :=
  .chain .stamp fun _ _ => .answer (Value.avoids_list.mpr h)

theorem made_newTuple {items : List Value} (h : ∀ v ∈ items, v.Avoids hidden) :
    Made hidden (Value.Avoids hidden) fun _ => newTuple items :=
  .chain .stamp fun _ _ => .answer (Value.avoids_tuple.mpr h)

theorem made_newRecord {e : Entries} (h : Entries.Avoid hidden e) :
    Made hidden (fun _ => True) fun _ => newRecord e :=
  .alter (fun _ _ _ => rfl) (fun _ => by simp) fun _ hs => ⟨trivial, hs.pushRecord h⟩

theorem made_record {e : Entries} (h : Entries.Avoid hidden e) :
    Made hidden (Value.Avoids hidden) fun _ => do return .record (← newRecord e) :=
  .chain (made_newRecord h) fun _ _ => .atom rfl

theorem made_thunk {c : Computation} (h : c.Avoids hidden) :
    Made hidden (Value.Avoids hidden) fun _ => do return .thunk (← newThunk c) :=
  .chain (.delay h) fun _ ht => .answer (Value.avoids_thunk.mpr ht)

theorem made_newDatatype {members : Table Value} (h : Table.Avoid hidden members) :
    Made hidden (fun _ => True) fun _ => newDatatype members :=
  .chain (made_newRecord (.ofTable h)) fun _ _ =>
    .alter (fun _ _ _ => rfl) (fun _ => Nat.le_refl _) fun _ hs =>
      ⟨trivial, hs.congr rfl rfl rfl rfl⟩

theorem made_newVisit (r : RecordRef) : Made hidden (fun _ => True) fun _ => newVisit r :=
  .alter (fun _ _ _ => rfl) (fun _ => Nat.le_refl _) fun _ hs =>
    ⟨trivial, hs.congr rfl rfl rfl rfl⟩

mutual

theorem made_datum : ∀ d : Datum, Made hidden (Value.Avoids hidden) fun _ => d.make
  | .null | .bool _ | .int _ | .text _ => .atom rfl
  | .float _ => .chain .stamp fun _ _ => .atom rfl
  | .list items => .chain (made_data items) fun _ h => made_newList h
  | .tuple items => .chain (made_data items) fun _ h => made_newTuple h
  | .record entries => .chain (made_dataEntries entries) fun _ h => made_record h

theorem made_data : ∀ items : List Datum,
    Made hidden (fun vs => ∀ v ∈ vs, v.Avoids hidden) fun _ => Datum.makeAll items
  | [] => .answer (by simp)
  | d :: rest => .chain (made_datum d) fun _ h => .chain (made_data rest) fun _ hs =>
    .answer (by simpa using ⟨h, hs⟩)

theorem made_dataEntries : ∀ entries : List (Datum × Datum),
    Made hidden (Entries.Avoid hidden) fun _ => Datum.makeEntries entries
  | [] => .answer (by simp [Entries.Avoid])
  | (k, d) :: rest => by
    have hrest : Made hidden (Entries.Avoid hidden) fun _ => do
        return (← k.make, ← d.make) :: (← Datum.makeEntries rest) :=
      .chain (made_datum k) fun _ hk => .chain (made_datum d) fun _ hd =>
        .chain (made_dataEntries rest) fun _ hs =>
          .answer (List.forall_mem_cons.mpr ⟨⟨hk, hd⟩, hs⟩)
    unfold Datum.makeEntries
    cases k.isKey with
    | false => exact .chain (P := fun _ => True) (.fault _) fun _ _ => hrest
    | true => exact hrest

end

theorem made_constructor (c : Constructor) :
    Made hidden (Value.Avoids hidden) fun _ => c.make := by
  unfold Constructor.make
  split
  · exact .atom rfl
  · have htag : Entries.Avoid hidden [(.text "", .text c.key)] := by
      simp [Entries.Avoid, Value.Avoids, Value.mentions]
    refine .chain (made_newRecord htag) fun r _ => ?_
    split
    · exact made_thunk trivial
    · exact .atom rfl

theorem made_build (c : Constructor) {args : List Value} (h : ∀ v ∈ args, v.Avoids hidden) :
    Made hidden (Value.Avoids hidden) fun _ => c.build args := by
  have htag : (Value.text c.key).Avoids hidden := Value.avoids_of_mentions_nil rfl
  have hentries : Entries.Avoid hidden (c.entries args) :=
    .ofTable (.put (.ofList (.zip c.fields h)) "" htag)
  unfold Constructor.build
  split
  · refine .chain (made_newRecord hentries) fun r _ => ?_
    split
    · exact made_thunk trivial
    · exact .atom rfl
  · exact .fault _

/-! ### Phrases -/

mutual

theorem Phrase.avoids_ofValue (v : Value) (hv : v.Avoids hidden) (n : ℕ) :
    ((Phrase.ofValue v).run n).1.Avoids hidden := by
  cases v with
  | phrase p => exact hv
  | text s => exact Phrase.avoids_name
  | tuple stamp items =>
    cases items with
    | nil => exact Phrase.avoids_literal.mpr hv
    | cons first rest =>
      cases first with
      | text head =>
        have hrest : ∀ v ∈ rest, v.Avoids hidden :=
          fun v h => Value.avoids_tuple.mp hv v (List.mem_cons_of_mem _ h)
        exact Phrase.avoids_compound.mpr (Phrase.avoids_ofValues rest hrest (n + 1 + 1))
      | _ => exact Phrase.avoids_literal.mpr hv
  | _ => exact Phrase.avoids_literal.mpr hv

theorem Phrase.avoids_ofValues (vs : List Value) (h : ∀ v ∈ vs, v.Avoids hidden) (n : ℕ) :
    ∀ p ∈ ((Phrase.ofValues vs).run n).1, p.Avoids hidden := by
  cases vs with
  | nil => intro p hp; cases hp
  | cons v rest =>
    have hrest : ∀ w ∈ rest, w.Avoids hidden := fun w hw => h w (List.mem_cons_of_mem _ hw)
    exact List.forall_mem_cons.mpr ⟨Phrase.avoids_ofValue v (h v List.mem_cons_self) n,
      Phrase.avoids_ofValues rest hrest _⟩

end

theorem RuleRow.avoids_ofValue? {v : Value} (hv : v.Avoids hidden) (n : ℕ) :
    ∀ row ∈ ((RuleRow.ofValue? v).run n).1, row.phrase.Avoids hidden := by
  have hitems : ∀ items : List Value, (∀ w ∈ items, w.Avoids hidden) → ∀ n stamp,
      (Phrase.row (.mk stamp ((Phrase.ofValues items).run n).1)).Avoids hidden :=
    fun items h n stamp => Row.avoids_mk.mpr (Phrase.avoids_ofValues items h n)
  cases v with
  | phrase p =>
    cases p with
    | row r => rintro _ (_ | _); exact hv
    | group stamp first rest => rintro _ (_ | _); exact hv
    | otherwise => rintro _ (_ | _); exact hv
    | _ => rintro _ (_ | _)
  | list stamp items => rintro _ (_ | _); exact hitems items (Value.avoids_list.mp hv) _ _
  | tuple stamp items => rintro _ (_ | _); exact hitems items (Value.avoids_tuple.mp hv) _ _
  | _ => rintro _ (_ | _)

theorem Phrase.avoids_escape {v : Value} (hv : v.Avoids hidden) (n : ℕ) :
    ((Phrase.escape v).run n).1.Avoids hidden := by
  cases v with
  | text s => exact Value.avoids_phrase.mpr Phrase.avoids_name
  | _ => exact hv

theorem made_ofValue {v : Value} (hv : v.Avoids hidden) :
    Made hidden (Phrase.Avoids hidden) fun _ => withStamps (Phrase.ofValue v) :=
  .stamped (Phrase.avoids_ofValue v hv)

theorem made_ofValues {vs : List Value} (hvs : ∀ v ∈ vs, v.Avoids hidden) :
    Made hidden (fun ps => ∀ p ∈ ps, p.Avoids hidden) fun _ => withStamps (Phrase.ofValues vs) :=
  .stamped (Phrase.avoids_ofValues vs hvs)

theorem made_escape {v : Value} (hv : v.Avoids hidden) :
    Made hidden (Value.Avoids hidden) fun _ => do
      return .phrase (← withStamps (Phrase.escape v)) :=
  .chain (.stamped (Phrase.avoids_escape hv)) fun _ hp => .answer hp

theorem made_toRuleRow {v : Value} (hv : v.Avoids hidden) :
    Made hidden (fun row => row.phrase.Avoids hidden) fun _ => toRuleRow v := by
  refine .chain (P := fun o => ∀ row ∈ o, row.phrase.Avoids hidden)
    (.stamped (RuleRow.avoids_ofValue? hv)) fun o ho => ?_
  cases o with
  | some row => exact .answer (ho row rfl)
  | none =>
    refine .look (fun s cells log hs hcells => ?_) fun s hs => ?_
    · rw [Store.written_recast hs hcells]
    · exact .chain (.ofStop fun _ _ => trivial) fun _ _ => .fault _

theorem made_groupRows {rows : List RuleRow} (h : ∀ row ∈ rows, row.phrase.Avoids hidden) :
    Made hidden (Value.Avoids hidden) fun _ => groupRows rows := by
  have hrows : ∀ rs, rows.mapM RuleRow.row? = some rs → ∀ r ∈ rs, r.Avoids hidden := by
    induction rows with
    | nil =>
      rintro rs hrs r hr
      cases hrs
      cases hr
    | cons row rows ih =>
      intro rs hrs
      rw [List.mapM_cons] at hrs
      cases row with
      | row r =>
        obtain ⟨rest, hrest, rfl⟩ :
            ∃ rest, rows.mapM RuleRow.row? = some rest ∧ rs = r :: rest := by
          cases hr : rows.mapM RuleRow.row? with
          | none => rw [hr] at hrs; cases hrs
          | some rest => rw [hr] at hrs; cases hrs; exact ⟨rest, rfl, rfl⟩
        exact List.forall_mem_cons.mpr ⟨h _ List.mem_cons_self,
          ih (fun row hrow => h row (List.mem_cons_of_mem _ hrow)) rest hrest⟩
      | _ => cases hrs
  unfold groupRows
  split
  · rename_i first rest hmap
    have hall := hrows _ hmap
    refine .chain .stamp fun stamp _ => .answer ?_
    exact Value.avoids_phrase.mpr (Phrase.avoids_group.mpr
      ⟨hall first List.mem_cons_self, fun r hr => hall r (List.mem_cons_of_mem _ hr)⟩)
  · exact .fault _

/-! ### Elements and members -/

theorem made_reading {α : Type} {P : α → Prop} {read : Store → Except Fault α}
    (same : ∀ s cells log, read (s.recast cells log) = read s)
    (h : ∀ s, s.Avoids hidden → ∀ a, read s = .ok a → P a) :
    Made hidden P fun _ => reading read := by
  refine .look (fun s cells log _ _ => ?_) fun s hs => ?_
  · rw [same]
  · exact .chain (.ofFault (h s hs)) fun _ ha => .chain (.forget .stamp) fun _ _ => .answer ha

theorem made_advance (v : VisitRef) :
    Made hidden (fun o => ∀ c ∈ o, c.Avoids hidden) fun _ => advance v := by
  refine .look (fun _ _ _ _ _ => rfl) fun s hs => ?_
  split
  · exact .answer (by simp)
  · exact .fault _
  · rename_i constructors next size _
    refine .look (fun _ _ _ _ _ => rfl) fun s hs => ?_
    have hstep : ∀ visit, Made hidden (fun _ => True) fun _ => modify (·.setVisit v visit) :=
      fun visit => .change (fun _ _ _ => rfl) (fun _ => Nat.le_refl _) fun _ hs =>
        hs.congr rfl rfl rfl rfl
    dsimp only
    split
    · split
      · rename_i key c hnext
        have hc := (hs.entries constructors _ (List.mem_of_getElem? hnext)).2
        exact .chain (hstep _) fun _ _ => .answer (by simpa using hc)
      · exact .chain (hstep _) fun _ _ => .answer (by simp)
    · exact .chain (hstep _) fun _ _ => .fault _

theorem made_visitConstructors (d : DatatypeRef) :
    Made hidden (fun _ => True) fun _ => visitConstructors d := by
  refine .look (fun _ _ _ _ _ => rfl) fun s hs => ?_
  refine .chain (.ofFault fun _ _ => trivial) fun v _ => ?_
  split
  · exact made_newVisit _
  · exact .fault _
  · exact .fault _
  · exact .fault _

section Elements

variable {act : β → Value → Run β}

theorem made_foldVisit (hact : ∀ b, Q b → ∀ c, c.Avoids hidden → Made hidden Q fun _ => act b c)
    (v : VisitRef) : ∀ (steps : ℕ) {b : β}, Q b → Made hidden Q fun _ => foldVisit act v steps b
  | 0, _, hb => .answer hb
  | steps + 1, b, hb => by
    refine .chain (made_advance v) fun o ho => ?_
    cases o with
    | none => exact .answer hb
    | some c =>
      exact .chain (hact b hb c (ho c rfl)) fun _ hb' => made_foldVisit hact v steps hb'

theorem made_foldElements
    (hact : ∀ b, Q b → ∀ c, c.Avoids hidden → Made hidden Q fun _ => act b c) {init : β}
    (hinit : Q init) {v : Value} (hv : v.Avoids hidden) :
    Made hidden Q fun _ => foldElements act init v := by
  cases v with
  | visit v =>
    exact .look (fun _ _ _ _ _ => rfl) fun s _ => made_foldVisit hact v _ hinit
  | datatype d =>
    exact .chain (made_visitConstructors d) fun v _ =>
      .look (fun _ _ _ _ _ => rfl) fun s _ => made_foldVisit hact v _ hinit
  | noted stamp keys => exact hact init hinit _ hv
  | _ =>
    refine .look (fun _ _ _ _ _ => rfl) fun s hs => ?_
    split
    · rename_i items hitems
      have hall := hs.elements? hv hitems
      exact .fold (fun b hb c hc => hact b hb c (hall c hc)) hinit
    · exact .fault _

end Elements

theorem made_listElements {v : Value} (hv : v.Avoids hidden) :
    Made hidden (fun items => ∀ item ∈ items, item.Avoids hidden) fun _ => listElements v := by
  refine made_foldElements (fun items hitems c hc => .answer ?_) (by simp) hv
  simpa [or_imp, forall_and] using ⟨hitems, hc⟩

theorem made_anyEqual (wanted : Value) :
    ∀ vs : List Value, Made hidden (fun _ => True) fun _ => anyEqual wanted vs
  | [] => .answer trivial
  | v :: rest => by
    refine .look (fun _ _ _ _ _ => by rw [Store.equal?_recast]) fun s hs => ?_
    split
    · exact .answer trivial
    · exact made_anyEqual wanted rest
    · exact .stop _

theorem made_seek (wanted : Value) (v : VisitRef) :
    ∀ steps : ℕ, Made hidden (fun _ => True) fun _ => seek wanted v steps
  | 0 => .answer trivial
  | steps + 1 => by
    refine .chain (made_advance v) fun o _ => ?_
    cases o with
    | none => exact .answer trivial
    | some c =>
      refine .chain (made_anyEqual wanted [c]) fun found _ => ?_
      split
      · exact .answer trivial
      · exact made_seek wanted v steps

theorem made_holds_zero (wanted v : Value) :
    Made hidden (fun _ => True) fun _ => holds wanted 0 v := by
  cases v with
  | record r =>
    unfold holds
    split
    · exact .look (fun _ _ _ _ _ => rfl) fun _ _ => .answer trivial
    · exact .fault _
  | text t =>
    unfold holds
    split
    · exact .answer trivial
    · exact .fault _
  | list stamp items => exact made_anyEqual wanted items
  | tuple stamp items => exact made_anyEqual wanted items
  | visit v => exact .look (fun _ _ _ _ _ => rfl) fun _ _ => made_seek wanted v _
  | noted stamp keys => exact .answer trivial
  | _ => exact .fault _

theorem made_holds (wanted : Value) :
    ∀ (depth : ℕ) (v : Value), Made hidden (fun _ => True) fun _ => holds wanted depth v
  | 0, v => made_holds_zero wanted v
  | depth + 1, v => by
    by_cases hd : ∃ d, v = .datatype d
    · obtain ⟨d, rfl⟩ := hd
      exact .look (fun _ _ _ _ _ => rfl) fun _ _ =>
        .chain (.ofFault fun _ _ => trivial) fun v _ => made_holds wanted depth v
    · have hzero : holds wanted (depth + 1) v = holds wanted 0 v := by
        cases v with
        | datatype d => exact absurd ⟨d, rfl⟩ hd
        | _ => rfl
      simp only [hzero]
      exact made_holds_zero wanted v

theorem made_holdsConstructor (d : DatatypeRef) (wanted : Value) :
    Made hidden (fun _ => True) fun _ => holdsConstructor d wanted :=
  .look (fun _ _ _ _ _ => rfl) fun _ _ => made_holds wanted _ _

theorem Store.avoids_fixture? {s : Store} {d : DatatypeRef} {name : String} {v : Value}
    (hv : s.fixture? d name = some v) : v.Avoids hidden := by
  unfold Store.fixture? at hv
  split at hv
  · cases hv; exact Value.avoids_of_mentions_nil rfl
  · split at hv
    · cases hv; exact Value.avoids_of_mentions_nil rfl
    · split at hv
      · cases hv; exact Value.avoids_of_mentions_nil rfl
      · cases hv

theorem avoids_description? {name : String} {v : Value} (hv : description? name = some v) :
    v.Avoids hidden := by
  unfold description? at hv
  split at hv
  · cases hv; exact Value.avoids_of_mentions_nil rfl
  · split at hv
    · cases hv; exact Value.avoids_of_mentions_nil rfl
    · cases hv

theorem made_readOwn? (d : DatatypeRef) (name : String) :
    Made hidden (fun o => ∀ v ∈ o, v.Avoids hidden) fun _ => readOwn? d name := by
  refine .look (fun _ _ _ _ _ => rfl) fun s hs => ?_
  split
  · rename_i v hv
    have hav : v.Avoids hidden := by
      rcases Option.or_eq_some_iff.mp hv with hv | ⟨-, hv⟩
      · rcases Option.or_eq_some_iff.mp hv with hv | ⟨-, hv⟩
        · exact Store.avoids_fixture? hv
        · exact hs.field? hv
      · exact avoids_description? hv
    exact .answer (by simpa using hav)
  · cases Operation.ofKey? name with
    | none => exact .answer (by simp)
    | some op =>
      exact .chain (P := Value.Avoids hidden)
        (.chain .stamp fun _ _ => .atom rfl)
        fun v hv => .answer (by simpa using hv)

theorem made_readMember (d : DatatypeRef) (name : String) :
    Made hidden (Value.Avoids hidden) fun _ => readMember d name := by
  refine .chain (made_readOwn? d name) fun o ho => ?_
  cases o with
  | some v => exact .answer (ho v rfl)
  | none => exact made_reading (fun _ _ _ => rfl) fun s hs v hv => hs.member hv

theorem made_alreadyDeclared (d : DatatypeRef) :
    Made hidden (fun _ => True) fun _ => alreadyDeclared d := by
  refine .look (fun s cells log hs hcells => ?_) fun s hs => ?_
  · have hmember : (s.recast cells log).member d "name" = s.member d "name" := rfl
    funext _
    rw [hmember, Store.title_recast hs hcells]
    split
    · rfl
    · rename_i stamp first second rest hname
      rw [Store.shown_recast hs hcells log
        (Value.avoids_tuple.mp (hs.member hname) first List.mem_cons_self)]
    · rfl
  · split
    · exact .answer trivial
    · exact .chain (.forget (.ofStop fun _ _ => trivial)) fun _ _ => .answer trivial
    · exact .chain (.ofStop fun _ _ => trivial) fun _ _ => .answer trivial

theorem made_requireUndeclared (d : DatatypeRef) :
    Made hidden (fun _ => True) fun _ => requireUndeclared d := by
  refine .look (fun _ _ _ _ _ => rfl) fun s hs => ?_
  split
  · split
    · exact .chain (made_alreadyDeclared d) fun _ _ => .fault _
    · exact .answer trivial
  · exact .answer trivial

theorem made_putMember (d : DatatypeRef) (name : String) {v : Value} (hv : v.Avoids hidden) :
    Made hidden (fun _ => True) fun _ => putMember d name v :=
  .change (fun _ _ _ => rfl) (fun _ => by simp) fun _ hs =>
    hs.setEntries _ ((hs.entries _).put (Value.avoids_of_mentions_nil rfl) hv)

theorem made_assignMember (d : DatatypeRef) (name : Value) {v : Value} (hv : v.Avoids hidden) :
    Made hidden (fun _ => True) fun _ => assignMember d name v := by
  refine .chain (made_requireUndeclared d) fun _ _ => ?_
  split
  · exact .answer trivial
  · exact .fault _
  · exact .change (fun _ _ _ => rfl) (fun _ => Nat.le_refl _) fun _ hs => hs.congr rfl rfl rfl rfl
  · exact .fault _
  · exact .fault _
  · exact made_putMember d _ hv
  · exact .fault _

theorem made_removeMember (d : DatatypeRef) (name : Value) :
    Made hidden (fun _ => True) fun _ => removeMember d name := by
  unfold removeMember
  split
  · exact .fault _
  · exact .chain (made_newRecord (by simp [Entries.Avoid])) fun r _ =>
      .change (fun _ _ _ => rfl) (fun _ => Nat.le_refl _) fun _ hs => hs.congr rfl rfl rfl rfl
  · refine .look (fun _ _ _ _ _ => rfl) fun s _ => ?_
    split
    · exact .change (fun _ _ _ => rfl) (fun _ => by simp) fun _ hs =>
        hs.setEntries _ ((hs.entries _).erase _)
    · exact .fault _
  · exact .fault _

theorem made_enterWithin (d : DatatypeRef) (part : String) {name v : Value}
    (hname : name.Avoids hidden) (hv : v.Avoids hidden) :
    Made hidden (fun _ => True) fun _ => enterWithin d part name v := by
  refine .look (fun _ _ _ _ _ => rfl) fun s hs => ?_
  refine .chain (.ofFault fun w hw => hs.member hw) fun w hw => ?_
  split
  · split
    · exact .change (fun _ _ _ => rfl) (fun _ => by simp) fun _ hs =>
        hs.setEntries _ ((hs.entries _).put hname hv)
    · exact .fault _
  · rename_i stamp items i _
    split
    · rename_i n hn
      have hset : ∀ x ∈ items.set n v, x.Avoids hidden := by
        intro x hx
        rcases List.mem_or_eq_of_mem_set hx with hx | rfl
        · exact Value.avoids_list.mp hw x hx
        · exact hv
      exact .chain (made_newList hset) fun _ h => made_putMember d part h
    · exact .fault _
  · exact .fault _

theorem made_enterConstructor (d : DatatypeRef) {v : Value} (hv : v.Avoids hidden) :
    Made hidden (fun _ => True) fun _ => enterConstructor d v := by
  refine .look (fun _ _ _ _ _ => ?_) fun s hs => ?_
  · rfl
  refine .chain (.ofFault fun name hname => hs.nameOf hname) fun name hname => ?_
  refine .chain (made_enterWithin d _ hname hv) fun _ _ => ?_
  split
  · exact .chain (made_constructor _) fun _ h => made_enterWithin d _ hname h
  · exact .fault _

theorem made_create (args : List Value) :
    Made hidden (Value.Avoids hidden) fun _ => create args := by
  unfold create
  split
  · exact .chain (made_newDatatype (by simp [Table.Avoid])) fun _ _ =>
      .atom rfl
  · exact .chain .stamp fun _ _ => .atom rfl
  · exact .fault _

theorem made_makeUndeclared {name : Value} (hname : name.Avoids hidden) :
    Made hidden (fun _ => True) fun _ => makeUndeclared name := by
  refine .chain (made_newRecord (by simp [Entries.Avoid])) fun constructors _ => ?_
  refine .chain (made_newRecord (by simp [Entries.Avoid])) fun values _ => ?_
  exact made_newDatatype (by simpa [Table.Avoid, Value.Avoids, Value.mentions] using hname)

theorem Store.avoids_state {s : Store} (d : DatatypeRef) : (s.state d).Avoids hidden := by
  unfold Store.state
  split
  · exact Value.avoids_of_mentions_nil rfl
  · exact Value.avoids_of_mentions_nil rfl

theorem made_olderRecipe (d : DatatypeRef) :
    Made hidden (Value.Avoids hidden) fun _ => olderRecipe d := by
  refine .chain (made_newTuple (by simp [Value.Avoids, Value.mentions])) fun args hargs => ?_
  have hcallee : (Value.rebuilder .older).Avoids hidden := Value.avoids_of_mentions_nil rfl
  refine .look (fun _ _ _ _ _ => rfl) fun s _ => ?_
  have hstate : (s.state d).Avoids hidden := Store.avoids_state d
  split
  · exact made_newTuple (by simpa using ⟨hcallee, hargs⟩)
  · exact made_newTuple (by simpa using ⟨hcallee, hargs, hstate⟩)

theorem made_recipe (d : DatatypeRef) : Made hidden (Value.Avoids hidden) fun _ => recipe d := by
  refine .look (fun _ _ _ _ _ => rfl) fun s hs => ?_
  split
  · split
    · exact .fault _
    · exact made_olderRecipe d
  · exact made_olderRecipe d
  · exact .fault _

theorem made_newerRecipe (d : DatatypeRef) :
    Made hidden (Value.Avoids hidden) fun _ => newerRecipe d := by
  refine .chain (made_newTuple (by simp [Value.Avoids, Value.mentions])) fun args hargs => ?_
  refine .look (fun _ _ _ _ _ => rfl) fun s _ => made_newTuple ?_
  have hstate : (s.state d).Avoids hidden := Store.avoids_state d
  have hcallee : (Value.rebuilder .newer).Avoids hidden := Value.avoids_of_mentions_nil rfl
  have hnull : Value.null.Avoids hidden := Value.avoids_of_mentions_nil rfl
  simpa using ⟨hcallee, hargs, hstate, hnull⟩

theorem made_operate (d : DatatypeRef) (op : Operation) {args : List Value}
    (hargs : ∀ v ∈ args, v.Avoids hidden) :
    Made hidden (Value.Avoids hidden) fun _ => operate d op args := by
  have hwritten : Made hidden (Value.Avoids hidden) fun _ => do
      return .text (← orStop ((← get).written (.datatype d))) := by
    refine .look (fun s cells log hs hcells => ?_) fun s _ => ?_
    · rw [Store.written_recast hs hcells]
    · exact .chain (.ofStop fun _ _ => trivial) fun _ _ => .atom rfl
  have hmembers : ∀ name {v : Value}, v.Avoids hidden →
      Made hidden (fun _ => True) fun _ => assignMember d name v :=
    fun name _ hv => made_assignMember d name hv
  unfold operate
  split
  · exact hwritten
  · exact hwritten
  · exact hwritten
  · exact .chain (made_visitConstructors d) fun _ _ => .atom rfl
  · exact .chain (made_holdsConstructor d _) fun _ _ => .atom rfl
  · rename_i name
    have hname := hargs name List.mem_cons_self
    refine .chain (made_reading (fun _ _ _ => rfl) fun s hs v hv => hs.member hv) fun v hv => ?_
    exact made_reading (fun _ _ _ => rfl) fun s hs w hw => hs.index hv hname hw
  · rename_i name
    have hname := hargs name List.mem_cons_self
    refine .chain (P := fun o => ∀ v ∈ o, v.Avoids hidden) (made_reading (fun _ _ _ => rfl)
      fun s hs o ho v hv => ?_) fun o ho => ?_
    · cases hv
      exact hs.variant? hname ho
    · cases o with
      | some v => exact .answer (ho v rfl)
      | none =>
        refine .look (fun s cells log hs hcells => ?_) fun s _ => ?_
        · rw [Store.shown_recast hs hcells log hname]
        · exact .chain (.ofStop fun _ _ => trivial) fun _ _ => .fault _
  · rename_i constructors
    refine .chain (Q := Value.Avoids hidden) (made_foldElements (Q := fun _ => True)
      (fun _ _ c hc => made_enterConstructor d hc) trivial (hargs _ List.mem_cons_self))
      fun _ _ => ?_
    exact .chain (hmembers _ (Value.avoids_of_mentions_nil rfl)) fun _ _ => .atom rfl
  · rename_i name
    have hempty : Entries.Avoid hidden [] := by simp [Entries.Avoid]
    refine .chain (hmembers _ (hargs name List.mem_cons_self)) fun _ _ => ?_
    refine .chain (made_newRecord hempty) fun r _ => ?_
    refine .chain (hmembers _ (Value.avoids_of_mentions_nil rfl)) fun _ _ => ?_
    refine .chain (made_newRecord hempty) fun r _ => ?_
    exact .chain (hmembers _ (Value.avoids_of_mentions_nil rfl)) fun _ _ => .atom rfl
  · rename_i name v
    exact .chain (hmembers name (hargs v (by simp))) fun _ _ => .atom rfl
  · exact .chain (made_removeMember d _) fun _ _ => .atom rfl
  · refine .chain (made_readOwn? d _) fun o ho => ?_
    cases o with
    | some v => exact .answer (ho v rfl)
    | none => exact .fault _
  · exact made_create args
  · exact .atom rfl
  · split
    · exact .atom rfl
    · exact .atom rfl
    · exact .atom rfl
  · exact made_recipe d
  · split
    · split
      · exact .fault _
      · split
        · exact made_recipe d
        · exact made_newerRecipe d
    · exact .fault _
  · exact .look (fun _ _ _ _ _ => rfl) fun s _ => .answer (Store.avoids_state d)
  · exact .atom rfl
  · exact .atom rfl
  · exact .atom rfl
  · refine .look (fun _ _ _ _ _ => rfl) fun s hs => made_newList fun v hv => ?_
    rcases List.mem_append.mp hv with hv | hv
    · obtain ⟨e, he, rfl⟩ := List.mem_map.mp hv
      exact (hs.entries _ e he).1
    · obtain ⟨name, -, rfl⟩ := List.mem_map.mp hv
      exact Value.avoids_of_mentions_nil rfl
  · exact .fault _

end Made

end LazyMatch
