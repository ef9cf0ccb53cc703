import LazyMatch.Proofs.Erasure

/-!
# Values as trees

A finite value is a tree of atoms and records once nothing in it is deferred. `Tree.Unfolds` says
so outright. `Tree.Represents` allows for what lazy constructors defer: a record of a lazy
constructor may stand behind a deferred value that its constructor has made. The store may then
move on in the way of `Store.Advances`: new things are put into it, deferred values are resolved,
and an entry that is deferred may be replaced by the record behind it. What a value represents
stays the same throughout.

* `Tree.Represents.mono`: advancing keeps what values represent;
* `outcome_force`: forcing what represents a tree gives what represents the tree and is not
  deferred.
-/

namespace LazyMatch

/-- What a value comes to when nothing in it is deferred. -/
inductive Tree where
  | atom (v : Value)
  | record (entries : List (String × Tree))

/-- Whether a value is neither a record nor deferred. -/
def Value.isAtom : Value → Bool
  | .record _ | .thunk _ => false
  | _ => true

mutual

/-- Whether a value, as the store has it, is a tree in which nothing is deferred. -/
def Tree.Unfolds (s : Store) : Tree → Value → Prop
  | .atom a, v => v = a ∧ a.isAtom = true
  | .record trees, v => ∃ r, v = .record r ∧ Tree.UnfoldsAll s trees (s.entries r)

/-- Whether entries are trees under their names, one by one. -/
def Tree.UnfoldsAll (s : Store) : List (String × Tree) → Entries → Prop
  | [], entries => entries = []
  | (name, tree) :: trees, entries =>
    ∃ v rest, entries = (.text name, v) :: rest ∧ tree.Unfolds s v ∧ Tree.UnfoldsAll s trees rest

end

/-! ### Deferred records -/

/-- Whether a deferred value stands for a record that a constructor has made. -/
def Store.Defers (s : Store) (t : ThunkRef) (r : RecordRef) : Prop :=
  s.cell t = .pending (.constant r) ∨ s.cell t = .pending (.variant r) ∨
    s.cell t = .resolved (.record r)

theorem Store.Defers.unique {s : Store} {t : ThunkRef} {r q : RecordRef} (hr : s.Defers t r)
    (hq : s.Defers t q) : r = q := by
  rcases hr with hr | hr | hr <;> rcases hq with hq | hq | hq <;> simp_all

/-- What is not in the store defers nothing. -/
theorem Store.Defers.lt {s : Store} {t : ThunkRef} {r : RecordRef} (h : s.Defers t r) :
    t.index < s.thunks.size := by
  rcases h with h | h | h
  · exact Store.lt_of_cell_pending h
  · exact Store.lt_of_cell_pending h
  · exact Store.lt_of_cell_resolved h

/-- Whether a value is kept, or was deferred and has given way to the record behind it. -/
def Store.GivesWay (s : Store) (v w : Value) : Prop :=
  w = v ∨ ∃ t r, v = .thunk t ∧ s.Defers t r ∧ w = .record r

/-- Whether an entry keeps its key, and its value too or that gives way. -/
def Store.Moves (s : Store) (e e' : Value × Value) : Prop := e'.1 = e.1 ∧ s.GivesWay e.2 e'.2

/-- How the store moves on: it grows, deferred records stay what they are, and deferred entries of
records may give way to what is behind them. -/
structure Store.Advances (s s' : Store) : Prop where
  size : s.records.size ≤ s'.records.size
  defers : ∀ t r, s.Defers t r → s'.Defers t r
  entries : ∀ r : RecordRef, r.index < s.records.size →
    List.Forall₂ s'.Moves (s.entries r) (s'.entries r)

theorem Store.Advances.refl (s : Store) : s.Advances s where
  size := Nat.le_refl _
  defers := fun _ _ h => h
  entries := fun _ _ => List.forall₂_same.mpr fun _ _ => ⟨rfl, .inl rfl⟩

theorem forall₂_trans {α β γ : Type} {R : α → β → Prop} {S : β → γ → Prop} {T : α → γ → Prop}
    (hRS : ∀ a b c, R a b → S b c → T a c) {as : List α} {bs : List β} {cs : List γ}
    (hR : List.Forall₂ R as bs) (hS : List.Forall₂ S bs cs) : List.Forall₂ T as cs := by
  induction hR generalizing cs with
  | nil =>
    cases hS
    exact .nil
  | cons hab _ ih =>
    cases hS with
    | cons hbc hS => exact .cons (hRS _ _ _ hab hbc) (ih hS)

theorem Store.Advances.trans {s s' s'' : Store} (h : s.Advances s') (h' : s'.Advances s'') :
    s.Advances s'' where
  size := Nat.le_trans h.size h'.size
  defers := fun t r ht => h'.defers t r (h.defers t r ht)
  entries := by
    intro r hr
    refine forall₂_trans ?_ (h.entries r hr) (h'.entries r (Nat.lt_of_lt_of_le hr h.size))
    rintro e e' e'' ⟨hk, hv⟩ ⟨hk', hv'⟩
    refine ⟨hk'.trans hk, ?_⟩
    rcases hv with hv | ⟨t, q, ht, hq, hv⟩
    · exact hv ▸ hv'
    · -- What has given way to a record is not deferred any more.
      rcases hv' with hv' | ⟨t', q', ht', _, _⟩
      · exact .inr ⟨t, q, ht, h'.defers t q hq, hv'.trans hv⟩
      · rw [hv] at ht'
        cases ht'

/-! ### What values represent -/

/-- What entries have in a record that a constructor makes: names that do not repeat, its tag and
its fields. -/
structure Constructor.Makes (c : Constructor) (trees : Table Tree) : Prop where
  nodup : (Table.names trees).Nodup
  tag : Table.get? trees "" = some (.atom (.text c.key))
  fields : ∀ f ∈ c.fields, (Table.get? trees f).isSome

mutual

/-- Whether a value represents a tree: records belong to constructors of the registry, and those of
lazy ones may be deferred. -/
def Tree.Represents (reg : Registry) (s : Store) : Tree → Value → Prop
  | .atom a, v => v = a ∧ a.isAtom = true
  | .record trees, v => ∃ c r, reg.Declares c ∧ c.Makes trees ∧ r.index < s.records.size ∧
      (v = .record r ∨ c.lazy = true ∧ ∃ t, v = .thunk t ∧ s.Defers t r) ∧
      Tree.RepresentsAll reg s trees (s.entries r)

/-- Whether entries represent trees under their names, one by one. -/
def Tree.RepresentsAll (reg : Registry) (s : Store) : List (String × Tree) → Entries → Prop
  | [], entries => entries = []
  | (name, tree) :: trees, entries =>
    ∃ v rest, entries = (.text name, v) :: rest ∧ tree.Represents reg s v ∧
      Tree.RepresentsAll reg s trees rest

end

section Represents

variable {reg : Registry} {s s' : Store}

/-- Only records are deferred, and the record represents what its deferred value does. -/
theorem Tree.Represents.exists_defers {tree : Tree} {t : ThunkRef}
    (h : tree.Represents reg s (.thunk t)) :
    ∃ r, s.Defers t r ∧ tree.Represents reg s (.record r) := by
  cases tree with
  | atom a =>
    obtain ⟨rfl, ha⟩ := h
    cases ha
  | record trees =>
    obtain ⟨c, r, hc, hmakes, hr, hv, hall⟩ := h
    rcases hv with hv | ⟨_, t', ht', hdefers⟩
    · cases hv
    · cases ht'
      exact ⟨r, hdefers, c, r, hc, hmakes, hr, .inl rfl, hall⟩

/-- The entries of a record represent those of its tree. -/
theorem Tree.Represents.entries {trees : List (String × Tree)} {r : RecordRef}
    (h : (Tree.record trees).Represents reg s (.record r)) :
    Tree.RepresentsAll reg s trees (s.entries r) := by
  obtain ⟨c, r', _, _, _, hr | ⟨_, t, ht, _⟩, hall⟩ := h
  · cases hr
    exact hall
  · cases ht

mutual

/-- Advancing keeps what a value represents. -/
theorem Tree.Represents.mono (hs : s.Advances s') :
    ∀ {tree : Tree} {v : Value}, tree.Represents reg s v → tree.Represents reg s' v
  | .atom _, _, h => h
  | .record trees, v, ⟨c, r, hc, hmakes, hr, hv, hall⟩ => by
    refine ⟨c, r, hc, hmakes, Nat.lt_of_lt_of_le hr hs.size, ?_,
      Tree.RepresentsAll.mono hs hall (hs.entries r hr)⟩
    rcases hv with hv | ⟨hlazy, t, ht, hdefers⟩
    · exact .inl hv
    · exact .inr ⟨hlazy, t, ht, hs.defers t r hdefers⟩

theorem Tree.RepresentsAll.mono (hs : s.Advances s') :
    ∀ {trees : List (String × Tree)} {entries entries' : Entries},
      Tree.RepresentsAll reg s trees entries →
      List.Forall₂ s'.Moves entries entries' → Tree.RepresentsAll reg s' trees entries'
  | [], _, _, h, hmoved => by
    subst h
    cases hmoved
    rfl
  | (name, tree) :: trees, _, _, ⟨v, rest, h, hv, hrest⟩, hmoved => by
    subst h
    cases hmoved with
    | @cons _ e' _ rest' hmove hmoved =>
      obtain ⟨k', v'⟩ := e'
      obtain ⟨hk, hmove⟩ := hmove
      simp only at hk hmove
      subst hk
      refine ⟨v', rest', rfl, ?_, Tree.RepresentsAll.mono hs hrest hmoved⟩
      have hv' := Tree.Represents.mono hs hv
      rcases hmove with rfl | ⟨t, q, rfl, hq, rfl⟩
      · exact hv'
      · obtain ⟨r, hr, hrecord⟩ := hv'.exists_defers
        rwa [hq.unique hr]

end

end Represents

/-! ### Tables -/

/-- Whether the entries of a table represent trees under the same names, in the same order. -/
def Tree.RepresentsTable (reg : Registry) (s : Store) (trees : Table Tree) (t : Table Value) :
    Prop :=
  List.Forall₂ (fun e e' => e'.1 = e.1 ∧ e.2.Represents reg s e'.2) trees t

theorem Tree.RepresentsTable.mono {reg : Registry} {s s' : Store} {trees : Table Tree}
    {t : Table Value} (hs : s.Advances s') (h : Tree.RepresentsTable reg s trees t) :
    Tree.RepresentsTable reg s' trees t :=
  h.imp fun _ _ he => ⟨he.1, he.2.mono hs⟩

theorem Tree.RepresentsTable.put {reg : Registry} {s : Store} {trees : Table Tree}
    {t : Table Value} (h : Tree.RepresentsTable reg s trees t) (name : String) {tree : Tree}
    {v : Value} (hv : tree.Represents reg s v) :
    Tree.RepresentsTable reg s (trees.put name tree) (t.put name v) := by
  induction h with
  | nil => exact .cons ⟨rfl, hv⟩ .nil
  | @cons e e' trees t he hrest ih =>
    obtain ⟨k, u⟩ := e
    obtain ⟨k', w⟩ := e'
    obtain ⟨hk, hw⟩ := he
    simp only at hk hw
    subst hk
    by_cases hk : k' = name
    · simp only [Table.put, hk, if_true]
      exact .cons ⟨rfl, hv⟩ hrest
    · simp only [Table.put, hk, if_false]
      exact .cons ⟨rfl, hw⟩ ih

/-! ### Reading fields -/

@[simp] theorem Value.sameKey_text (a b : String) :
    (Value.text a).sameKey (.text b) = decide (a = b) := by
  simp [Value.sameKey, Value.equalWith, Value.numeral?, Value.same, Value.identity]

/-- The field of a tree is represented by the field of the record. -/
theorem Tree.RepresentsAll.field {reg : Registry} {s : Store} {trees : List (String × Tree)}
    {entries : Entries} (h : Tree.RepresentsAll reg s trees entries) {name : String} {tree : Tree}
    (hname : Table.get? trees name = some tree) :
    ∃ v, entries.get? (.text name) = some v ∧ tree.Represents reg s v := by
  induction trees generalizing entries with
  | nil => cases hname
  | cons e trees ih =>
    obtain ⟨k, tree'⟩ := e
    obtain ⟨v, rest, rfl, hv, hrest⟩ := h
    by_cases hk : k = name
    · simp only [Table.get?, hk, if_true, Option.some.injEq] at hname
      subst hname
      exact ⟨v, by simp [Entries.get?, hk], hv⟩
    · simp only [Table.get?, hk, if_false] at hname
      obtain ⟨w, hw, htree⟩ := ih hrest hname
      exact ⟨w, by simp [Entries.get?, hk, hw], htree⟩

/-! ### Forcing -/

/-- Computing a deferred record resolves it. -/
theorem outcome_resolve {s : Store} {t : ThunkRef} {r : RecordRef} (h : s.Defers t r) (env : Env) :
    ∃ s', (∀ fuel, outcome (perform env (fuel + 1) (.resolve t)) s = (.ok (.record r), s')) ∧
      s.Advances s' := by
  have hcell : s.cell t = .resolved (.record r) ∨
      ∃ c, s.cell t = .pending c ∧ ∀ again, compute again c = pure (.record r) := by
    rcases h with h | h | h
    · exact .inr ⟨_, h, fun _ => rfl⟩
    · exact .inr ⟨_, h, fun _ => rfl⟩
    · exact .inl h
  -- What a constructor has deferred is computed by handing out its record.
  rcases hcell with hcell | ⟨c, hcell, hcompute⟩
  · refine ⟨s, fun fuel => ?_, .refl s⟩
    rw [perform, step, resolve, outcome_get_bind, hcell]
    rfl
  · refine ⟨(s.setCell t (.running c)).setCell t (.resolved (.record r)), fun fuel => ?_, ?_⟩
    · have htry (handler : Stop → Run Value) (s₁ : Store) :
          outcome (tryCatch (compute (perform env fuel) c) handler) s₁ = (.ok (.record r), s₁) := by
        rw [hcompute, outcome_tryCatch, outcome_pure]
      rw [perform, step, resolve, outcome_get_bind, hcell, outcome_modify_bind,
        outcome_bind_ok (htry _ _), if_neg (by simp), outcome_modify_bind, outcome_pure]
    · refine ⟨Nat.le_refl _, fun t' r' h' => ?_, fun r' _ => ?_⟩
      · by_cases ht : t' = t
        · subst ht
          rw [← h.unique h']
          exact .inr (.inr (Store.cell_setCell_self (by simpa [Store.setCell] using h.lt) _))
        · simpa only [Store.Defers, Store.cell_setCell_of_ne ht] using h'
      · exact List.forall₂_same.mpr fun _ _ => ⟨rfl, .inl rfl⟩

/-- Forcing a deferred record gives the record. -/
theorem outcome_force_thunk {s : Store} {t : ThunkRef} {r : RecordRef} (h : s.Defers t r)
    (env : Env) :
    ∃ s', (∀ fuel, outcome (perform env (fuel + 2) (.force [] (.thunk t))) s =
      (.ok (.record r), s')) ∧ s.Advances s' := by
  obtain ⟨s', hresolve, hs⟩ := outcome_resolve h env
  refine ⟨s', fun fuel => ?_, hs⟩
  rw [perform, step, forceLayers, if_neg (by simp), outcome_bind_ok (hresolve fuel)]
  rfl

theorem outcome_force_of_not_isDeferred {v : Value} (h : v.isDeferred = false) (env : Env)
    (fuel : ℕ) (s : Store) : outcome (perform env (fuel + 1) (.force [] v)) s = (.ok v, s) := by
  rw [perform, step, forceLayers_of_not_isDeferred h, outcome_pure]

/-- Forcing what represents a tree gives what represents the tree and is not deferred. -/
theorem outcome_force {reg : Registry} {s : Store} {tree : Tree} {v : Value}
    (h : tree.Represents reg s v) (env : Env) :
    ∃ v' s', (∀ fuel, outcome (perform env (fuel + 2) (.force [] v)) s = (.ok v', s')) ∧
      s.Advances s' ∧ v'.isDeferred = false ∧ tree.Represents reg s' v' := by
  cases hv : v.isDeferred with
  | false =>
    exact ⟨v, s, fun fuel => outcome_force_of_not_isDeferred hv env _ s, .refl s, hv, h⟩
  | true =>
    obtain ⟨t, rfl⟩ := Value.eq_thunk_of_isDeferred hv
    obtain ⟨r, hr, hrecord⟩ := h.exists_defers
    obtain ⟨s', hforce, hs⟩ := outcome_force_thunk hr env
    exact ⟨.record r, s', hforce, hs, rfl, hrecord.mono hs⟩

end LazyMatch
