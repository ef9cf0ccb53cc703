import LazyMatch.Proofs.Construction
import LazyMatch.Proofs.Registration

/-!
# Matching undoes construction

What a form is spelled as evaluates to a value that the form matches, and each variable is bound to
the very value that was assigned to it. On the way, forcing goes through all layers of delay that
lie in the interval of the value, through what layers evaluate when they are forced, and through
the shared values of lazy constants that the form names; nothing else is forced.

* `Setting.exists_force`: forcing leads to the record of a constructor;
* `Setting.exists_meets`: a form matches what stands for it;
* `matching_undoes_construction`: the function of one rule over a form binds what was assigned.
-/

namespace LazyMatch

/-! ### One layer -/

section Layer

variable {env : Env} {P : ThunkRef → Prop} {s s' s'' : Store} {t : ThunkRef} {r : RecordRef}

/-- What a constructor has deferred is resolved to its record. -/
theorem outcome_resolve_of_defers (h : s.Defers t r) (again : Evaluator) :
    outcome (resolve again t) s = (.ok (.record r), s.setCell t (.resolved (.record r))) := by
  rcases h with h | h | h
  · rw [outcome_resolve_pending h rfl (by simp), Store.setCell_setCell]
    rfl
  · rw [outcome_resolve_pending h rfl (by simp), Store.setCell_setCell]
    rfl
  · rw [outcome_resolve_resolved h, ← h, Store.setCell_cell]

theorem Store.changes_resolved (h : s.Defers t r) (hP : P t) :
    s.Changes P (s.setCell t (.resolved (.record r))) where
  toGrows := {
    Store.Grows.refl s with
    thunks := by simp [Store.setCell]
    defers := by
      intro u q hu
      by_cases hut : u = t
      · subst hut
        rw [← h.unique hu]
        exact .inr (.inr (Store.cell_setCell_self h.lt _))
      · simpa only [Store.Defers, Store.cell_setCell_of_ne hut] using hu }
  kept := by
    intro u _ hu
    refine Store.cell_setCell_of_ne ?_ _
    rintro rfl
    exact hu hP

/-- A layer is resolved to what its computation gives while it is marked. -/
theorem gives_resolve {c : Computation} {v : Value} (ht : s.cell t = .pending c)
    (hc : Gives env (fun again => compute again c) (s.setCell t (.running c)) v s')
    (hv : v ≠ .thunk t) :
    Gives env (fun again => again (.resolve t)) s v (s'.setCell t (.resolved v)) := by
  obtain ⟨n, hn⟩ := gives_iff.mp hc
  refine .step (gives_iff.mpr ⟨n, fun m hm => ?_⟩)
  exact outcome_resolve_pending ht (hn m hm) (by simpa using hv)

/-- A layer that waits for its expression defers no record, so it may be marked. -/
theorem changes_running {label : Option String} {scope : Scope} {e : Expr}
    (ht : s.cell t = .pending (.expr label scope e)) :
    s.Changes (· = t) (s.setCell t (.running (.expr label scope e))) :=
  Store.changes_setCell (P := (· = t)) (fun _ => by simp [Store.Defers, ht]) rfl _

/-- To evaluate the expression of a layer, and to resolve the layer then, changes that layer
only. -/
theorem changes_layer {label : Option String} {scope : Scope} {e : Expr}
    (ht : s.cell t = .pending (.expr label scope e))
    (hs : (s.setCell t (.running (.expr label scope e))).Changes (fun _ => False) s') (d : Cell) :
    s.Changes (· = t) (s'.setCell t d) ∧ s'.Changes (· = t) (s'.setCell t d) := by
  have hlt := Store.lt_of_cell_pending ht
  have hrunning : s'.cell t = .running (.expr label scope e) := by
    rw [hs.kept t (by simpa [Store.setCell] using hlt) id, Store.cell_setCell_self hlt]
  have hend : s'.Changes (· = t) (s'.setCell t d) :=
    Store.changes_setCell (P := (· = t)) (fun _ => by simp [Store.Defers, hrunning]) rfl d
  exact ⟨((changes_running ht).trans hs fun _ _ => False.elim).trans hend fun _ _ => id, hend⟩

/-- Forcing goes on with what a layer is resolved to. -/
theorem gives_force {passed : List ThunkRef} {v w : Value} (ht : t ∉ passed)
    (hresolve : Gives env (fun again => again (.resolve t)) s v s')
    (hforce : Gives env (fun again => again (.force (t :: passed) v)) s' w s'') :
    Gives env (fun again => again (.force passed (.thunk t))) s w s'' := by
  refine .step ?_
  simp only [step, forceLayers, if_neg ht]
  exact hresolve.bind hforce

theorem gives_force_record (passed : List ThunkRef) (r : RecordRef) :
    Gives env (fun again => again (.force passed (.record r))) s (.record r) s :=
  .step (gives_of_outcome rfl)

end Layer

/-! ### All layers -/

namespace Setting

variable {S : Setting} {s : Store} {c : Constructor} {parts : List Form}

/-- Whether a deferred value lies in an interval, or is the value of one of the constants. -/
def Spans (S : Setting) (cs : List Constructor) (lo hi : ℕ) (t : ThunkRef) : Prop :=
  (lo ≤ t.index ∧ t.index < hi) ∨ ∃ c ∈ cs, S.constants c = some (.thunk t)

theorem LeadsTo.spans {k lo hi : ℕ} {t : ThunkRef} (h : S.LeadsTo s c parts k lo hi t) :
    S.Spans [c] lo hi t :=
  h.located.imp_right fun ht => ⟨c, List.mem_singleton_self c, ht⟩

/-- Whether layers that have been passed are new and lie outside of an interval. -/
def Outside (S : Setting) (s : Store) (lo hi : ℕ) (passed : List ThunkRef) : Prop :=
  ∀ p ∈ passed, S.store.thunks.size ≤ p.index ∧ p.index < s.thunks.size ∧
    (lo ≤ p.index → hi ≤ p.index)

theorem outside_nil (S : Setting) (s : Store) (lo hi : ℕ) : S.Outside s lo hi [] := by
  simp [Outside]

/-- One more layer is passed on the way to what lies in the interval, apart from that layer, or is
new. -/
theorem Outside.next {s' : Store} {lo hi lo' hi' : ℕ} {t : ThunkRef} {passed : List ThunkRef}
    (h : S.Outside s lo hi passed) (hs : s.thunks.size ≤ s'.thunks.size)
    (hnew : S.store.thunks.size ≤ t.index) (hlt : t.index < s.thunks.size)
    (hout : lo' ≤ t.index → hi' ≤ t.index)
    (hsub : ∀ i, lo' ≤ i → i < hi' → i < s.thunks.size → lo ≤ i ∧ i < hi) :
    S.Outside s' lo' hi' (t :: passed) := by
  intro p hp
  rcases List.mem_cons.mp hp with rfl | hp
  · exact ⟨hnew, by omega, hout⟩
  · obtain ⟨hpnew, hplt, hpout⟩ := h p hp
    refine ⟨hpnew, by omega, fun hle => ?_⟩
    by_contra hlt'
    obtain ⟨hlo, hhi⟩ := hsub p.index hle (by omega) hplt
    have := hpout hlo
    omega

theorem LeadsTo.not_mem {k lo hi : ℕ} {t : ThunkRef} {passed : List ThunkRef}
    (h : S.LeadsTo s c parts k lo hi t) (hpassed : S.Outside s lo hi passed) : t ∉ passed := by
  intro hmem
  obtain ⟨hnew, _, hout⟩ := hpassed t hmem
  rcases h.located with ht | ht
  · have := hout ht.1
    omega
  · have := lt_of_constants ht
    omega

/-- The outermost layer leads on to the next one. What the next one leads through lies in the
interval too, apart from the outermost layer, or is new. -/
theorem LeadsTo.exists_next (hfull : (Form.node c parts).Full) (hlazy : c.lazy = true)
    {k lo hi : ℕ} {t : ThunkRef} (h : S.LeadsTo s c parts (k + 1) lo hi t)
    (hs : S.store.Grows s) (hlo : S.store.thunks.size ≤ lo) (hhi : hi ≤ s.thunks.size) :
    ∃ label scope e u s₁ lo₁ hi₁, s.cell t = .pending (.expr label scope e) ∧
      S.store.thunks.size ≤ t.index ∧
      Gives S.env (fun again => again (.eval scope e))
        (s.setCell t (.running (.expr label scope e))) (.thunk u) s₁ ∧
      (s.setCell t (.running (.expr label scope e))).Changes (fun _ => False) s₁ ∧
      S.LeadsTo s₁ c parts k lo₁ hi₁ u ∧ S.store.thunks.size ≤ lo₁ ∧ hi₁ ≤ s₁.thunks.size ∧
      (lo₁ ≤ t.index → hi₁ ≤ t.index) ∧
      ∀ i, lo₁ ≤ i → i < hi₁ → i < s.thunks.size → lo ≤ i ∧ i < hi := by
  cases h with
  | @late _ _ _ _ label e hlt hth ht he =>
    obtain ⟨u, s₁, hu, hs₁, hleads⟩ := exists_gives_of_layered (evaluates S parts hfull.2.2.2)
      hfull.2.2.1 hlazy he (hs.trans (changes_running ht).toGrows)
    have hsize : (s.setCell t (.running (.expr label S.scope e))).thunks.size = s.thunks.size := by
      simp [Store.setCell]
    rw [hsize] at hleads
    exact ⟨label, S.scope, e, u, s₁, _, _, ht, Nat.le_trans hlo hlt, hu, hs₁, hleads, hs.thunks,
      Nat.le_refl _, by omega, by omega⟩
  | @early _ _ _ _ u label y scope hlt hth ht hu =>
    have hvar : Table.get? ((y, Value.thunk u) :: scope) y = some (.thunk u) := if_pos rfl
    have hleads := LeadsTo.frame hu (changes_running ht) (by omega) fun v _ hv hvt => by
      subst hvt
      omega
    exact ⟨label, _, .var y, u, _, lo, t.index, ht, Nat.le_trans hlo hlt, gives_var hvar,
      .refl _ _, hleads, hlo, Nat.le_trans (by omega) (changes_running ht).thunks,
      fun _ => Nat.le_refl _, by omega⟩

/-- What forcing comes to: a record that holds what stands for the parts of a form. What it holds
lies in the interval that forcing has gone through, or is new. -/
structure Reached (S : Setting) (c : Constructor) (parts : List Form) (s : Store) (lo hi : ℕ)
    (r : RecordRef) (s' : Store) (lo' hi' : ℕ) : Prop where
  changes : s.Changes (S.Spans [c] lo hi) s'
  holds : s'.Holds c (S.StandAll s' parts lo' hi') r
  le : S.store.thunks.size ≤ lo'
  lt : hi' ≤ s'.thunks.size
  inside : ∀ i, lo' ≤ i → i < hi' → i < s.thunks.size → lo ≤ i ∧ i < hi

/-- What a constructor has deferred is resolved to its record. -/
theorem LeadsTo.exists_resolve {lo hi : ℕ} {t : ThunkRef} (h : S.LeadsTo s c parts 0 lo hi t)
    (hlo : S.store.thunks.size ≤ lo) (hhi : hi ≤ s.thunks.size) :
    ∃ r s' lo' hi', Gives S.env (fun again => again (.resolve t)) s (.record r) s' ∧
      S.Reached c parts s lo hi r s' lo' hi' := by
  have hspans := h.spans
  cases h with
  | @bare _ mid _ _ r hmid hr hmade ht =>
    have hchanges := Store.changes_resolved (P := (· = t)) hr rfl
    refine ⟨r, _, lo, mid, .step (gives_iff.mpr ⟨0, fun m _ => outcome_resolve_of_defers hr _⟩),
      hchanges.mono fun u _ hu => hu ▸ hspans, ?_, hlo,
      Nat.le_trans (Nat.le_trans hmid hhi) hchanges.thunks, by omega⟩
    refine hmade.imp hchanges.toGrows fun args =>
      StandAll.frame hchanges parts (by omega) fun u hu hum => ?_
    rintro rfl
    rcases ht with ht | ht
    · omega
    · have := lt_of_constants ht
      omega

/-- Forcing what leads to a record gives the record. -/
theorem exists_force (hfull : (Form.node c parts).Full) (hlazy : c.lazy = true) {k lo hi : ℕ}
    {t : ThunkRef} {passed : List ThunkRef} (h : S.LeadsTo s c parts k lo hi t)
    (hs : S.store.Grows s) (hlo : S.store.thunks.size ≤ lo) (hhi : hi ≤ s.thunks.size)
    (hpassed : S.Outside s lo hi passed) :
    ∃ r s' lo' hi', Gives S.env (fun again => again (.force passed (.thunk t))) s (.record r) s' ∧
      S.Reached c parts s lo hi r s' lo' hi' := by
  induction k generalizing lo hi t s passed with
  | zero =>
    obtain ⟨r, s', lo', hi', hresolve, hreached⟩ := h.exists_resolve hlo hhi
    exact ⟨r, s', lo', hi', gives_force (h.not_mem hpassed) hresolve (gives_force_record _ r),
      hreached⟩
  | succ k ih =>
    obtain ⟨label, scope, e, u, s₁, lo₁, hi₁, ht, hnew, hu, hs₁, hleads, hlo₁, hhi₁, hout, hsub⟩ :=
      h.exists_next hfull hlazy hs hlo hhi
    have hlt := Store.lt_of_cell_pending ht
    have hne : Value.thunk u ≠ .thunk t := by
      rintro ⟨⟩
      rcases hleads.located with hu | hu
      · have := hout hu.1
        omega
      · have := lt_of_constants hu
        omega
    obtain ⟨hlayer, hend⟩ := changes_layer ht hs₁ (.resolved (.thunk u))
    have hleads' := hleads.frame hend hhi₁ fun v hv hvh hvt => by
      subst hvt
      have := hout hv
      omega
    obtain ⟨r, s', lo', hi', hforce, hreached⟩ := ih hleads' (hs.trans hlayer.toGrows) hlo₁
      (Nat.le_trans hhi₁ hend.thunks) (hpassed.next hlayer.thunks hnew hlt hout hsub)
    refine ⟨r, s', lo', hi', gives_force (h.not_mem hpassed) (gives_resolve ht hu hne) hforce,
      ?_, hreached.holds, hreached.le, hreached.lt, ?_⟩
    · refine (hlayer.mono fun v _ hv => hv ▸ h.spans).trans hreached.changes fun v hv hspan => ?_
      exact hspan.imp_left fun hin => hsub v.index hin.1 hin.2 hv
    · intro i hi₁ hi₂ hi₃
      have := hreached.inside i hi₁ hi₂ (Nat.lt_of_lt_of_le hi₃ hlayer.thunks)
      exact hsub i this.1 this.2 hi₃

end Setting

/-! ### Reading fields -/

section Fields

variable {s : Store} {c : Constructor} {r : RecordRef} {args : List Value}

theorem hasTag_of_entries (h : s.entries r = c.entries args) :
    s.hasTag (.record r) c.key = true := by
  rw [Store.hasTag, Store.tag, Store.field?, h, Constructor.entries, Entries.get?_ofTable,
    Table.get?_put_self, Option.getD_some]
  exact decide_eq_true rfl

/-- Under distinct and non-empty names, what a constructor has made of arguments has each of them as
a field. -/
theorem field?_of_entries (h : s.entries r = c.entries args)
    (hlength : args.length = c.fields.length) (hnodup : c.fields.Nodup) (hempty : "" ∉ c.fields) :
    List.Forall₂ (fun name v => s.field? r name = some v) c.fields args := by
  have hnames : (Table.names (c.fields.zip args)).Nodup := by
    rwa [Table.names, List.map_fst_zip (Nat.le_of_eq hlength.symm)]
  refine List.forall₂_iff_zip.mpr ⟨hlength.symm, fun {name v} hmem => ?_⟩
  have hne : name ≠ "" := by
    rintro rfl
    exact hempty (List.of_mem_zip hmem).1
  rw [Store.field?, h, Constructor.entries, Entries.get?_ofTable, Table.get?_put_of_ne _ hne,
    Table.ofList_of_nodup hnames, Table.get?_of_mem hnames hmem]

end Fields

/-! ### Matching -/

namespace Setting

variable {α β : Type} {S : Setting} {own : ThunkRef → Prop} {s s' s'' : Store}

/-- What matching gives, and the store that it leaves, when there is fuel enough; however it forces
anything but the deferred values that are its own. -/
def Meets (S : Setting) (own : ThunkRef → Prop) (x : (Value → Run Value) → Run α) (s : Store)
    (a : α) (s' : Store) : Prop :=
  ∃ n, ∀ m ≥ n, ∀ force : Value → Run Value,
    (∀ t, own t → force (.thunk t) = S.env.force m (.thunk t)) → outcome (x force) s = (.ok a, s')

theorem meets_of_outcome {x : (Value → Run Value) → Run α} {a : α}
    (h : ∀ force, outcome (x force) s = (.ok a, s')) : S.Meets own x s a s' :=
  ⟨0, fun _ _ force _ => h force⟩

theorem Meets.bind {x : (Value → Run Value) → Run α} {f : α → (Value → Run Value) → Run β} {a : α}
    {b : β} (hx : S.Meets own x s a s') (hf : S.Meets own (f a) s' b s'') :
    S.Meets own (fun force => x force >>= fun a => f a force) s b s'' := by
  obtain ⟨n, hn⟩ := hx
  obtain ⟨n', hn'⟩ := hf
  refine ⟨n + n', fun m hm force hforce => ?_⟩
  rw [outcome_bind_ok (hn m (by omega) force hforce), hn' m (by omega) force hforce]

theorem meets_force {t : ThunkRef} {v : Value} (ht : own t)
    (h : Gives S.env (fun again => again (.force [] (.thunk t))) s v s') :
    S.Meets own (fun force => force (.thunk t)) s v s' := by
  obtain ⟨n, hn⟩ := gives_iff.mp h
  refine ⟨n, fun m hm force hforce => ?_⟩
  exact (congrArg (outcome · s) (hforce t ht)).trans (hn m hm)

/-- Whether a deferred value is new, or the value of one of the constants. -/
def Owns (S : Setting) (cs : List Constructor) (t : ThunkRef) : Prop :=
  S.store.thunks.size ≤ t.index ∨ ∃ c ∈ cs, S.constants c = some (.thunk t)

/-- Variables with the values that are assigned to them. -/
def bindings (S : Setting) (names : List String) : Bindings := names.map fun x => (x, S.assigned x)

theorem names_bindings (S : Setting) (names : List String) :
    Table.names (S.bindings names) = names := by
  simp [Table.names, bindings, Function.comp_def]

theorem bindings_append (S : Setting) (names more : List String) :
    S.bindings (names ++ more) = S.bindings names ++ S.bindings more :=
  List.map_append

theorem Owns.of_spans {cs : List Constructor} {lo hi : ℕ} {t : ThunkRef}
    (h : S.Spans cs lo hi t) (hlo : S.store.thunks.size ≤ lo) : S.Owns cs t :=
  h.imp_left fun h => Nat.le_trans hlo h.1

theorem Spans.mono {cs cs' : List Constructor} {lo hi lo' hi' : ℕ} {t : ThunkRef}
    (h : S.Spans cs lo hi t) (hcs : cs ⊆ cs') (hlo : lo' ≤ lo) (hhi : hi ≤ hi') :
    S.Spans cs' lo' hi' t :=
  h.imp (fun h => ⟨Nat.le_trans hlo h.1, Nat.lt_of_lt_of_le h.2 hhi⟩)
    fun ⟨c, hc, ht⟩ => ⟨c, hcs hc, ht⟩

theorem not_spans_of_le {cs : List Constructor} {lo mid : ℕ} {t : ThunkRef}
    (hlo : S.store.thunks.size ≤ mid) (ht : mid ≤ t.index) : ¬ S.Spans cs lo mid t := by
  rintro (h | ⟨c, _, hc⟩)
  · omega
  · have := lt_of_constants hc
    omega

/-- Whether fields that hold what stands for forms are matched by them, and bind what is
assigned. -/
def MeetsParts (S : Setting) (own : ThunkRef → Prop) (parts : List Form) : Prop :=
  ∀ {names : List String} {args : List Value} {s : Store} {lo hi : ℕ} {r : RecordRef}
    {b : Bindings}, List.Forall₂ (fun name v => s.field? r name = some v) names args →
    r.index < s.records.size → S.store.Grows s → S.store.thunks.size ≤ lo → hi ≤ s.thunks.size →
    S.StandAll s parts lo hi args → (Table.names b ++ Form.slotsAll parts).Nodup →
    ∃ s', S.Meets own (fun force => Test.matchFields force (Form.tests names parts) r b) s
        (some (b ++ S.bindings (Form.slotsAll parts))) s' ∧
      s.Changes (S.Spans (Form.constructorsAll parts) lo hi) s'

/-- A record that holds what stands for the parts of a form is matched by the form. -/
theorem exists_meets_record {c : Constructor} {parts : List Form}
    (hfull : (Form.node c parts).Full) (hparts : S.MeetsParts own parts) {lo hi : ℕ}
    {r : RecordRef} {b : Bindings} (hs : S.store.Grows s) (hlo : S.store.thunks.size ≤ lo)
    (hhi : hi ≤ s.thunks.size) (hr : s.Holds c (S.StandAll s parts lo hi) r)
    (hb : (Table.names b ++ Form.slotsAll parts).Nodup) :
    ∃ s', S.Meets own (fun force => (Form.node c parts).test.matches force (.record r) b) s
        (some (b ++ S.bindings (Form.slotsAll parts))) s' ∧
      s.Changes (S.Spans (Form.constructorsAll parts) lo hi) s' := by
  obtain ⟨hnodup, hempty, hlength, _⟩ := hfull
  obtain ⟨hlt, args, hentries, hargs, hstand⟩ := hr
  have htag := hasTag_of_entries hentries
  cases hk : c.isConstant with
  | true =>
    obtain rfl := Constructor.eq_nil_of_isConstant hk hlength
    refine ⟨s, meets_of_outcome fun force => ?_, .refl _ s⟩
    simp only [Form.test, if_pos hk, Test.matches, outcome_get_bind, htag]
    simp [Form.slotsAll, bindings]
  | false =>
    obtain ⟨s', hmeets, hchanges⟩ :=
      hparts (field?_of_entries hentries hargs hnodup hempty) hlt hs hlo hhi hstand hb
    refine ⟨s', ?_, hchanges⟩
    obtain ⟨n, hn⟩ := hmeets
    refine ⟨n, fun m hm force hforce => ?_⟩
    simp only [Form.test, hk, Bool.false_eq_true, if_false, Test.matches, outcome_get_bind, htag]
    exact hn m hm force hforce

mutual

/-- **A form matches what stands for it**, binds what is assigned to its variables, and changes only
what lies in the interval and the values of constants that it names. -/
theorem exists_meets (S : Setting) {own : ThunkRef → Prop} :
    ∀ (f : Form), f.Full → (∀ t, S.Owns f.constructors t → own t) →
      ∀ {s : Store} {lo hi : ℕ} {v : Value} {b : Bindings}, S.store.Grows s →
      S.store.thunks.size ≤ lo → hi ≤ s.thunks.size → S.Stands s f lo hi v →
      (Table.names b ++ f.slots).Nodup →
      ∃ s', S.Meets own (fun force => f.nested.matches force v b) s
          (some (b ++ S.bindings f.slots)) s' ∧
        s.Changes (S.Spans f.constructors lo hi) s'
  | .slot x, _, _, s, lo, hi, v, b, _, _, _, hv, hb => by
    cases hv
    have hx : x ∉ Table.names b := fun hmem =>
      List.disjoint_of_nodup_append hb hmem (List.mem_singleton_self x)
    refine ⟨s, meets_of_outcome fun force => ?_, .refl _ s⟩
    rw [Form.slots, bindings, List.map_singleton, ← Table.put_of_not_mem hx]
    rfl
  | .node c parts, hfull, hown, s, lo, hi, v, b, hs, hlo, hhi, hv, hb => by
    have hparts : S.MeetsParts own parts := meetsParts S parts hfull.2.2.2 fun t ht =>
      hown t (ht.imp_right fun ⟨d, hd, h⟩ => ⟨d, List.mem_cons_of_mem c hd, h⟩)
    rw [Stands] at hv
    split at hv
    · rename_i hlazy
      obtain ⟨k, t, rfl, ht⟩ := hv
      obtain ⟨r, s₁, lo₁, hi₁, hforce, hs₁, hholds, hlo₁, hhi₁, hin⟩ :=
        exists_force hfull hlazy ht hs hlo hhi (outside_nil S s lo hi)
      obtain ⟨s₂, hmeets, hs₂⟩ :=
        exists_meets_record hfull hparts (hs.trans hs₁.toGrows) hlo₁ hhi₁ hholds hb
      have hspans : ∀ u, S.Spans [c] lo hi u → S.Spans (Form.node c parts).constructors lo hi u :=
        fun u hu => hu.mono (by simp [Form.constructors]) (Nat.le_refl _) (Nat.le_refl _)
      refine ⟨s₂, ?_, (hs₁.mono fun u _ => hspans u).trans hs₂ fun u hu hspan => ?_⟩
      · simp only [Form.matches_nested, Form.isLazy, hlazy, if_true]
        have ht' : own t := hown t (.of_spans (hspans t (LeadsTo.spans ht)) hlo)
        exact (meets_force ht' hforce).bind hmeets
      · exact hspan.imp (fun h => hin u.index h.1 h.2 hu)
          fun ⟨d, hd, h⟩ => ⟨d, List.mem_cons_of_mem c hd, h⟩
    · rename_i hlazy
      obtain ⟨r, rfl, hr⟩ := hv
      obtain ⟨s', hmeets, hs'⟩ := exists_meets_record hfull hparts hs hlo hhi hr hb
      refine ⟨s', ?_, hs'.mono fun u _ hu =>
        hu.mono (List.subset_cons_self c _) (Nat.le_refl _) (Nat.le_refl _)⟩
      simpa only [Form.matches_nested, Form.isLazy, hlazy, Bool.false_eq_true, if_false, pure_bind,
        Form.slots] using hmeets

theorem meetsParts (S : Setting) {own : ThunkRef → Prop} :
    ∀ (forms : List Form), Form.AllFull forms →
      (∀ t, S.Owns (Form.constructorsAll forms) t → own t) → S.MeetsParts own forms
  | [], _, _, names, args, s, lo, hi, r, b, _, _, _, _, _, _, _ => by
    refine ⟨s, meets_of_outcome fun force => ?_, .refl _ s⟩
    cases names <;> simp [Form.tests, Test.matchFields, Form.slotsAll, bindings]
  | f :: forms, ⟨hf, hforms⟩, hown, names, args, s, lo, hi, r, b, hfields, hr, hs, hlo, hhi, hstand,
    hb => by
    obtain ⟨v, rest, mid, rfl, hmid, hv, hrest⟩ := hstand
    obtain _ | @⟨name, _, names, _, hname, hfields⟩ := hfields
    have hle := le_of_standAll hrest
    rw [Form.slotsAll, ← List.append_assoc] at hb
    obtain ⟨s₁, ⟨n, hn⟩, hs₁⟩ := exists_meets S f hf
      (fun t ht => hown t (ht.imp_right fun ⟨c, hc, h⟩ => ⟨c, List.mem_append_left _ hc, h⟩))
      hs hlo (Nat.le_trans hle hhi) hv (List.Nodup.of_append_left hb)
    -- Matching the first part leaves the record and the other parts alone.
    have hfields₁ : List.Forall₂ (fun name v => s₁.field? r name = some v) names rest :=
      hfields.imp fun name v h => by rwa [Store.field?, hs₁.entries hr]
    have hrest₁ : S.StandAll s₁ forms mid hi rest := StandAll.frame hs₁ forms hhi
      (fun u hu _ => not_spans_of_le (Nat.le_trans hlo hmid) hu) hrest
    obtain ⟨s₂, ⟨n', hn'⟩, hs₂⟩ := meetsParts S forms hforms
      (fun t ht => hown t (ht.imp_right fun ⟨c, hc, h⟩ => ⟨c, List.mem_append_right _ hc, h⟩))
      (b := b ++ S.bindings f.slots) hfields₁ (hs₁.lt_records hr) (hs.trans hs₁.toGrows)
      (Nat.le_trans hlo hmid) (Nat.le_trans hhi hs₁.thunks) hrest₁
      (by rwa [Table.names, List.map_append, ← Table.names, ← Table.names, names_bindings])
    refine ⟨s₂, ⟨n + n', fun m hm force hforce => ?_⟩, ?_⟩
    · have hfirst : outcome (f.nested.matches force v b) s = _ := hn m (by omega) force hforce
      have hothers : outcome (Test.matchFields force (Form.tests names forms) r _) s₁ = _ :=
        hn' m (by omega) force hforce
      simp only [Form.tests, Test.matchFields, outcome_get_bind, hname]
      rw [← Form.nested, outcome_bind_ok hfirst]
      rw [Form.slotsAll, bindings_append, ← List.append_assoc]
      exact hothers
    · refine (hs₁.mono fun u _ hu => ?_).trans hs₂ fun u _ hu => ?_
      · exact hu.mono (List.subset_append_left _ _) (Nat.le_refl _) hle
      · exact hu.mono (List.subset_append_right _ _) hmid (Nat.le_refl _)

end

end Setting

/-! ### The function of one rule -/

/-- **Matching undoes construction.** Of a registry whose factories have distinct and non-empty
field names, take a phrase that reads as a form, with different variables, and an expression that
spells the form: constructors applied to whatever values are assigned to the variables, with any
layers of delay around what is headed by lazy constructors. The expression has a value; the function
of one rule over the phrase compiles; and called on the value it selects the rule and binds each
variable to the very value that was assigned to it. For this, only deferred values that are new are
forced and values of constants that the form names. Of what was there before, all records stay as
they are and so do all other deferred values, the assigned ones among them. -/
theorem matching_undoes_construction {r : Registry} (hr : r.PlainFields) {p : Phrase} {f : Form}
    (hf : p.form? r = some f) (hslots : f.slots.Nodup) (S : Setting) {e : Expr} (he : S.Spells f e)
    (name : String) (stamp : ℕ) (action : Value) :
    ∃ v s₁ c s₂,
      (∃ n, ∀ m ≥ n, outcome (perform S.env m (.eval S.scope e)) S.store = (.ok v, s₁)) ∧
      Compiled.ofRules r.resolver name (soleRule stamp p action) = .ok c ∧
      (∃ n, ∀ m ≥ n, ∀ force : Value → Run Value,
        (∀ t, S.Owns f.constructors t → force (.thunk t) = S.env.force m (.thunk t)) →
        Selects force name (soleRule stamp p action) c [v] s₁ 0
          (f.slots.map fun x => (x, S.assigned x)) s₂) ∧
      (∀ ref : RecordRef, ref.index < S.store.records.size →
        s₂.entries ref = S.store.entries ref) ∧
      ∀ t : ThunkRef, t.index < S.store.thunks.size →
        (∀ c ∈ f.constructors, S.constants c ≠ some (.thunk t)) →
        s₂.cell t = S.store.cell t := by
  have hfull := full_of_form hr p hf
  obtain ⟨c, hc, hselects⟩ := choose_of_form hr hf name stamp action
  obtain ⟨v, s₁, hv, hs₁, hstands⟩ := S.exists_gives f hfull he (.refl S.store)
  obtain ⟨s₂, ⟨n, hn⟩, hs₂⟩ := S.exists_meets f hfull (fun _ => id) (b := []) hs₁.toGrows
    (Nat.le_refl _) (Nat.le_refl _) hstands hslots
  refine ⟨v, s₁, c, s₂, gives_iff.mp hv, hc, ⟨n, fun m hm force hforce => ?_⟩, ?_, ?_⟩
  · exact hselects (hn m hm force hforce)
  · intro ref href
    exact (hs₁.toGrows.trans hs₂.toGrows).entries href
  · intro t ht hconstants
    rw [hs₂.kept t (Nat.lt_of_lt_of_le ht hs₁.thunks) ?_, hs₁.kept t ht id]
    rintro (hin | ⟨d, hd, h⟩)
    · omega
    · exact hconstants d hd h

/-! ### Streams -/

/-- The empty stream, as `streams` has it. -/
def nilStream : Constructor := ⟨"Stream", "Nil", true, .constant⟩

/-- The constructor of all other streams. -/
def consStream : Constructor := ⟨"Stream", "Cons", true, .factory ["head", "tail"]⟩

theorem plainFields_streams : streams.PlainFields := fun _ _ =>
  Registry.forall_resolve? (r := streams) (P := fun c => c.fields.Nodup ∧ "" ∉ c.fields)
    (by decide) (by decide)

/-- A store with the empty stream and a deferred computation that fails. -/
def streamStore : Store where
  records := #[nilStream.entries []]
  thunks := #[.pending (.constant ⟨0⟩), .pending (.expr none [] (.fail "never"))]

/-- A setting in which the constructors of streams and the computation that fails have names. -/
def streamSetting (assigned : String → Value) : Setting where
  env := {}
  scope := [("Nil", .thunk ⟨0⟩), ("Cons", .constructor consStream), ("never", .thunk ⟨1⟩)]
  store := streamStore
  assigned := assigned
  constants := fun c => if c = nilStream then some (.thunk ⟨0⟩) else none
  isConstant := by
    intro c v h
    split at h
    · rename_i hc
      rw [hc]
      rfl
    · cases h
  holds := by
    intro c v h
    split at h
    · rename_i hc
      cases h
      cases hc
      exact ⟨⟨0⟩, by decide, rfl, ⟨0⟩, rfl, .inl rfl⟩
    · cases h

section Spelling

variable {assigned : String → Value} {args : List Expr → Prop}

theorem applies_nil : (streamSetting assigned).Applies nilStream args (.var "Nil") := by
  rw [Setting.Applies, if_pos (by decide)]
  exact ⟨.thunk ⟨0⟩, rfl, Setting.yields_of_gives fun _ => gives_var rfl⟩

theorem applies_cons {es : List Expr} (hes : args es) :
    (streamSetting assigned).Applies consStream args (.call (.var "Cons") es) := by
  rw [Setting.Applies, if_neg (by decide)]
  exact ⟨.var "Cons", es, rfl, Setting.yields_of_gives fun _ => gives_var rfl, hes⟩

end Spelling

/-- A variable in front of the empty stream. -/
def onePhrase : Phrase := .compound 1 ⟨101, "Cons"⟩ [.name 2 "x", .name 3 "Nil"]

/-- The form of `onePhrase`. -/
def oneForm : Form := .node consStream [.slot "x", .node nilStream []]

/-- A lazy constant that the form names is forced, also where it is assigned to a variable: the
stream of the empty stream is matched, the variable is bound to the empty stream, and nothing is
left to be computed for that. -/
theorem named_constant_forced :
    ∃ v s₁ c s₂, (streamSetting fun _ => .thunk ⟨0⟩).Spells oneForm
        (.call (.var "Cons") [.var "Nil", .var "Nil"]) ∧
      outcome (perform {} 9 (.eval (streamSetting fun _ => .thunk ⟨0⟩).scope
        (.call (.var "Cons") [.var "Nil", .var "Nil"]))) streamStore = (.ok v, s₁) ∧
      Compiled.ofRules streams.resolver "f" (soleRule 0 onePhrase .null) = .ok c ∧
      Selects (Env.force {} 9) "f" (soleRule 0 onePhrase .null) c [v] s₁ 0
        [("x", .thunk ⟨0⟩)] s₂ ∧
      streamStore.cell ⟨0⟩ = .pending (.constant ⟨0⟩) ∧ (s₂.cell ⟨0⟩).computation? = none := by
  obtain ⟨c, hc, hselects⟩ := choose_of_form plainFields_streams (p := onePhrase) (f := oneForm) rfl
    "f" 0 .null
  let s₁ := (streamStore.withRecord (consStream.entries [.thunk ⟨0⟩, .thunk ⟨0⟩])).withThunk
    (.variant ⟨1⟩)
  let x := oneForm.nested.matches (Env.force {} 9) (.thunk ⟨2⟩) []
  have hmatch : (outcome x s₁).1.toOption = some (some [("x", .thunk ⟨0⟩)]) := by decide +kernel
  have hcell : ((outcome x s₁).2.cell ⟨0⟩).computation?.isNone = true := by decide +kernel
  rcases hrun : outcome x s₁ with ⟨_ | b, s₂⟩ <;> rw [hrun] at hmatch hcell <;> cases hmatch
  refine ⟨.thunk ⟨2⟩, s₁, c, s₂, ?_, rfl, hc, hselects hrun, rfl,
    Option.isNone_iff_eq_none.mp hcell⟩
  exact ⟨0, fun _ => rfl, .bare (applies_cons ⟨_, _, rfl, Setting.yields_of_gives fun _ =>
    gives_var rfl, _, _, rfl, ⟨0, fun _ => rfl, .bare applies_nil⟩, rfl⟩)⟩

/-- Two variables in front of the empty stream. -/
def twoPhrase : Phrase :=
  .compound 1 ⟨101, "Cons"⟩ [.name 2 "x", .compound 3 ⟨103, "Cons"⟩ [.name 4 "y", .name 5 "Nil"]]

/-- The form of `twoPhrase`. -/
def twoForm : Form := .node consStream [.slot "x", .node consStream [.slot "y", .node nilStream []]]

/-- What fails and the number seven in front of the empty stream. The whole is delayed; the tail is
delayed, and so is its value; and the empty stream is delayed. -/
def twoExpr : Expr :=
  .delay none (.call (.var "Cons") [.var "never",
    .call (.action (.lambda [plainParam "t"] (.delay none (.var "t")))) [.delay none
      (.call (.var "Cons") [.constant (.int 7), .delay (some "end") (.var "Nil")])]])

/-- What fails is put into a stream and comes out of it again, and has not been computed. -/
theorem matching_undoes_construction_streams :
    ∃ v s₁ c s₂, streams.PlainFields ∧ twoPhrase.form? streams = some twoForm ∧
      twoForm.slots.Nodup ∧
      (∃ n, ∀ m ≥ n, outcome (perform {} m (.eval (streamSetting fun _ => .null).scope twoExpr))
        streamStore = (.ok v, s₁)) ∧
      Compiled.ofRules streams.resolver "f" (soleRule 0 twoPhrase .null) = .ok c ∧
      (∃ n, ∀ m ≥ n, Selects (Env.force {} m) "f" (soleRule 0 twoPhrase .null) c [v] s₁ 0
        [("x", .thunk ⟨1⟩), ("y", .int 7)] s₂) ∧
      s₂.cell ⟨1⟩ = .pending (.expr none [] (.fail "never")) := by
  let S := streamSetting fun x => if x = "x" then .thunk ⟨1⟩ else .int 7
  have hslots : twoForm.slots.Nodup := by decide
  have hspells : S.Spells twoForm twoExpr := by
    refine ⟨1, by decide, .late none (.bare (applies_cons ?_))⟩
    refine ⟨_, _, rfl, Setting.yields_of_gives fun _ => gives_var rfl, _, _, rfl, ?_, rfl⟩
    refine ⟨2, by decide, .early none (by decide +kernel) (.late none (.bare (applies_cons ?_)))⟩
    refine ⟨_, _, rfl, Setting.yields_of_gives fun _ => .step (gives_of_outcome rfl), _, _, rfl,
      ?_, rfl⟩
    exact ⟨1, by decide, .late (some "end") (.bare applies_nil)⟩
  obtain ⟨v, s₁, c, s₂, hv, hc, ⟨n, hn⟩, _, hkept⟩ := matching_undoes_construction
    plainFields_streams (p := twoPhrase) rfl hslots S hspells "f" 0 .null
  refine ⟨v, s₁, c, s₂, plainFields_streams, rfl, hslots, hv, hc,
    ⟨n, fun m hm => hn m hm (Env.force {} m) fun _ _ => rfl⟩, hkept ⟨1⟩ (by decide) ?_⟩
  intro d _ hd
  simp only [S, streamSetting] at hd
  split at hd <;> cases hd

end LazyMatch
