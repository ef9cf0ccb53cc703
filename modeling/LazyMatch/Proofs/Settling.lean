import LazyMatch.Proofs.Tree
import Mathlib.Algebra.GroupWithZero.Nat

/-!
# Forcing a value throughout

Forcing throughout goes through records breadth first: the deferred entries of a queued record give
way to what is behind them, and the records among its entries join the queue. On a value that
represents a tree this comes to an end, since every record that is taken off the queue makes the
trees of the queue smaller altogether, and then nothing in the value is deferred.

`Tree.Settled` is the invariant: the value is a tree in which nothing is deferred, except below the
records that are still queued.

* `outcome_settleEntries`: what happens to one record;
* `outcome_settle`: the whole queue;
* `outcome_complete`, `outcome_completeAll`: forcing a value or bindings throughout leaves nothing
  deferred, so that what comes out unfolds to the same tree (`Tree.Settled.unfolds`).
-/

namespace LazyMatch

/-! ### The invariant -/

mutual

/-- Whether nothing in a value is deferred, except below the records of the queue. -/
def Tree.Settled (reg : Registry) (s : Store) (queue : List RecordRef) : Tree → Value → Prop
  | .atom a, v => v = a ∧ a.isAtom = true
  | .record trees, v => ∃ r, v = .record r ∧ r.index < s.records.size ∧
      (r ∈ queue ∧ (Tree.record trees).Represents reg s (.record r) ∨
        Tree.SettledAll reg s queue trees (s.entries r))

/-- Whether this holds of entries under their names, one by one. -/
def Tree.SettledAll (reg : Registry) (s : Store) (queue : List RecordRef) :
    List (String × Tree) → Entries → Prop
  | [], entries => entries = []
  | (name, tree) :: trees, entries =>
    ∃ v rest, entries = (.text name, v) :: rest ∧ tree.Settled reg s queue v ∧
      Tree.SettledAll reg s queue trees rest

end

section Settled

variable {reg : Registry} {s s' : Store}

mutual

/-- With nothing queued, nothing is deferred. -/
theorem Tree.Settled.unfolds : ∀ {tree : Tree} {v : Value},
    tree.Settled reg s [] v → tree.Unfolds s v
  | .atom _, _, h => h
  | .record _, _, ⟨r, hv, _, hall⟩ => by
    rcases hall with ⟨hr, _⟩ | hall
    · cases hr
    · exact ⟨r, hv, Tree.SettledAll.unfolds hall⟩

theorem Tree.SettledAll.unfolds : ∀ {trees : List (String × Tree)} {entries : Entries},
    Tree.SettledAll reg s [] trees entries → Tree.UnfoldsAll s trees entries
  | [], _, h => h
  | (_, _) :: _, _, ⟨v, rest, h, hv, hrest⟩ =>
    ⟨v, rest, h, Tree.Settled.unfolds hv, Tree.SettledAll.unfolds hrest⟩

end

theorem Tree.Settled.not_isDeferred {queue : List RecordRef} {tree : Tree} {v : Value}
    (h : tree.Settled reg s queue v) : v.isDeferred = false := by
  cases tree with
  | atom a =>
    obtain ⟨rfl, ha⟩ := h
    cases v with
    | thunk t => cases ha
    | _ => rfl
  | record trees =>
    obtain ⟨r, rfl, _⟩ := h
    rfl

/-- What represents a tree and is not deferred is settled once it is queued. -/
theorem Tree.Represents.settled {queue : List RecordRef} {tree : Tree} {v : Value}
    (h : tree.Represents reg s v) (hv : v.isDeferred = false)
    (hqueue : ∀ r, v = .record r → r ∈ queue) : tree.Settled reg s queue v := by
  cases tree with
  | atom a => exact h
  | record trees =>
    have hrep := h
    obtain ⟨c, r, _, _, hr, rfl | ⟨_, t, rfl, _⟩, _⟩ := h
    · exact ⟨r, rfl, hr, .inl ⟨hqueue r rfl, hrep⟩⟩
    · cases hv

/-- Entries of which none is deferred are settled once their records are queued. -/
theorem Tree.RepresentsAll.settledAll {queue : List RecordRef} :
    ∀ {trees : List (String × Tree)} {entries : Entries},
      Tree.RepresentsAll reg s trees entries →
      (∀ e ∈ entries, e.2.isDeferred = false ∧ ∀ r, e.2 = .record r → r ∈ queue) →
      Tree.SettledAll reg s queue trees entries
  | [], _, h, _ => h
  | (name, tree) :: trees, _, ⟨v, rest, h, hv, hrest⟩, hentries => by
    subst h
    obtain ⟨hdeferred, hqueue⟩ := hentries (.text name, v) List.mem_cons_self
    exact ⟨v, rest, rfl, hv.settled hdeferred hqueue,
      Tree.RepresentsAll.settledAll hrest fun e he => hentries e (List.mem_cons_of_mem _ he)⟩

/-- What taking a record off the queue needs: its entries are no longer deferred, and the records
among them are queued. -/
def Store.Served (s : Store) (r : RecordRef) (found : List RecordRef) : Prop :=
  ∀ e ∈ s.entries r, e.2.isDeferred = false ∧ ∀ q, e.2 = .record q → q ∈ found

mutual

/-- The store advances and the queue changes: what is settled stays so when each record of the queue
is still queued or has been served. -/
theorem Tree.Settled.advance {queue queue' : List RecordRef} (hs : s.Advances s')
    (hqueue : ∀ r ∈ queue, r ∈ queue' ∨ s'.Served r queue') : ∀ {tree : Tree} {v : Value},
      tree.Settled reg s queue v → tree.Settled reg s' queue' v
  | .atom _, _, h => h
  | .record trees, _, ⟨r, hv, hr, hcases⟩ => by
    refine ⟨r, hv, Nat.lt_of_lt_of_le hr hs.size, ?_⟩
    rcases hcases with ⟨hmem, hrep⟩ | hall
    · rcases hqueue r hmem with hmem | hserved
      · exact .inl ⟨hmem, hrep.mono hs⟩
      · exact .inr ((hrep.mono hs).entries.settledAll hserved)
    · exact .inr (Tree.SettledAll.advance hs hqueue hall (hs.entries r hr))

theorem Tree.SettledAll.advance {queue queue' : List RecordRef} (hs : s.Advances s')
    (hqueue : ∀ r ∈ queue, r ∈ queue' ∨ s'.Served r queue') :
    ∀ {trees : List (String × Tree)} {entries entries' : Entries},
      Tree.SettledAll reg s queue trees entries → List.Forall₂ s'.Moves entries entries' →
      Tree.SettledAll reg s' queue' trees entries'
  | [], _, _, h, hmoved => by
    subst h
    cases hmoved
    rfl
  | (name, tree) :: trees, _, _, ⟨v, rest, h, hv, hrest⟩, hmoved => by
    subst h
    obtain ⟨⟨k, v'⟩, rest', ⟨hk, hmove⟩, hmoved', rfl⟩ := List.forall₂_cons_left_iff.mp hmoved
    -- What is settled is not deferred, so it has not given way to anything.
    have hkept : v' = v := by
      rcases hmove with hmove | ⟨t, q, ht, _, _⟩
      · exact hmove
      · have hdeferred := hv.not_isDeferred
        simp only at ht
        rw [ht] at hdeferred
        cases hdeferred
    subst hkept
    simp only at hk
    subst hk
    exact ⟨v', rest', rfl, Tree.Settled.advance hs hqueue hv,
      Tree.SettledAll.advance hs hqueue hrest hmoved'⟩

end

end Settled

/-! ### Entries that give way -/

section Entries

variable {s : Store} {r : RecordRef} {i : ℕ}

/-- When a list changes only in ways that a relation allows, so does what is at a place. -/
theorem exists_getElem?_of_forall₂ {α β : Type} {R : α → β → Prop} {as : List α} {bs : List β}
    (h : List.Forall₂ R as bs) {a : α} (ha : as[i]? = some a) : ∃ b, bs[i]? = some b ∧ R a b := by
  induction h generalizing i with
  | nil => cases ha
  | cons hab _ ih =>
    cases i with
    | zero =>
      cases ha
      exact ⟨_, rfl, hab⟩
    | succ i => exact ih ha

/-- Writing at a place changes what is there and nothing else. -/
theorem forall₂_set_right {α : Type} {R : α → α → Prop} (hrefl : ∀ a, R a a) {as : List α}
    {a b : α} (ha : as[i]? = some a) (hab : R a b) : List.Forall₂ R as (as.set i b) := by
  obtain ⟨hi, rfl⟩ := List.getElem?_eq_some_iff.mp ha
  have hsame : List.Forall₂ R as as := List.forall₂_same.mpr fun a _ => hrefl a
  have hset := forall₂_set hsame hab i
  rwa [List.set_getElem_self hi] at hset

/-- An entry whose key is still at its place is written there. -/
theorem Entries.putAt_of_getElem? {entries : Entries} {key v : Value}
    (h : entries[i]? = some (key, v)) (w : Value) :
    entries.putAt i key w = entries.set i (key, w) := by
  rw [Entries.putAt, if_pos (by simp [h])]

/-- The store advances when an entry gives way to the record behind it. -/
theorem advances_setEntries {key v w : Value} (hr : r.index < s.records.size)
    (hv : (s.entries r)[i]? = some (key, v)) (hw : s.GivesWay v w) :
    s.Advances (s.setEntries r ((s.entries r).set i (key, w))) where
  size := by simp [Store.setEntries]
  defers := fun _ _ h => h
  entries := by
    intro r' _
    by_cases h : r' = r
    · subst h
      rw [Store.entries_setEntries_self hr]
      exact forall₂_set_right (fun _ => ⟨rfl, .inl rfl⟩) hv ⟨rfl, hw⟩
    · rw [Store.entries_setEntries_of_ne h]
      exact List.forall₂_same.mpr fun _ _ => ⟨rfl, .inl rfl⟩

theorem Tree.RepresentsAll.length_eq {reg : Registry} {trees : Table Tree} {entries : Entries}
    (h : Tree.RepresentsAll reg s trees entries) : entries.length = trees.length := by
  induction trees generalizing entries with
  | nil =>
    rw [h]
    rfl
  | cons p trees ih =>
    obtain ⟨name, tree⟩ := p
    obtain ⟨v, rest, rfl, _, hrest⟩ := h
    rw [List.length_cons, List.length_cons, ih hrest]

/-- The entry at a place represents the tree that is at this place. -/
theorem Tree.RepresentsAll.getElem? {reg : Registry} {trees : Table Tree} {entries : Entries}
    (h : Tree.RepresentsAll reg s trees entries) {name : String} {tree : Tree}
    (htree : trees[i]? = some (name, tree)) :
    ∃ v, entries[i]? = some (.text name, v) ∧ tree.Represents reg s v := by
  induction trees generalizing entries i with
  | nil => cases htree
  | cons p trees ih =>
    obtain ⟨name', tree'⟩ := p
    obtain ⟨v, rest, rfl, hv, hrest⟩ := h
    cases i with
    | zero =>
      cases htree
      exact ⟨v, rfl, hv⟩
    | succ i =>
      obtain ⟨u, hu, hrep⟩ := ih hrest htree
      exact ⟨u, hu, hrep⟩

end Entries

/-! ### One record -/

section Records

variable {reg : Registry} {s : Store} {r : RecordRef} {trees : Table Tree}

theorem Tree.Represents.index_lt (h : (Tree.record trees).Represents reg s (.record r)) :
    r.index < s.records.size := by
  obtain ⟨c, r', _, _, hr, h | ⟨_, t, ht, _⟩, _⟩ := h
  · cases h
    exact hr
  · cases ht

/-- Settling an entry leaves what is behind it in its place. -/
theorem outcome_settleEntry (h : (Tree.record trees).Represents reg s (.record r)) {i : ℕ}
    {name : String} {tree : Tree} (htree : trees[i]? = some (name, tree)) (env : Env) :
    ∃ v s',
      (∀ fuel, outcome (settleEntry (perform env (fuel + 2)) r i) s = (.ok v, s')) ∧
      s.Advances s' ∧ v.isDeferred = false ∧ tree.Represents reg s' v ∧
      (s'.entries r)[i]? = some (.text name, v) := by
  obtain ⟨v, hget, hv⟩ := h.entries.getElem? htree
  cases hdeferred : v.isDeferred with
  | false =>
    refine ⟨v, s, fun fuel => ?_, .refl s, hdeferred, hv, hget⟩
    rw [settleEntry, outcome_get_bind, hget]
    cases v with
    | thunk t => cases hdeferred
    | _ => rfl
  | true =>
    obtain ⟨t, rfl⟩ := Value.eq_thunk_of_isDeferred hdeferred
    obtain ⟨q, hq, hrecord⟩ := hv.exists_defers
    obtain ⟨s₁, hforce, hs₁⟩ := outcome_force_thunk hq env
    -- Forcing may have let the entry give way already, but only to the same record.
    obtain ⟨⟨_, w⟩, hw, rfl, hgives⟩ := exists_getElem?_of_forall₂ (hs₁.entries r h.index_lt) hget
    have hgives' : s₁.GivesWay w (.record q) := by
      rcases hgives with rfl | ⟨t', q', ht', hq', rfl⟩
      · exact .inr ⟨t, q, rfl, hs₁.defers t q hq, rfl⟩
      · cases ht'
        rw [hq'.unique (hs₁.defers t q hq)]
        exact .inl rfl
    have hr₁ : r.index < s₁.records.size := Nat.lt_of_lt_of_le h.index_lt hs₁.size
    have hs₂ := advances_setEntries hr₁ hw hgives'
    refine ⟨.record q, _, fun fuel => ?_, hs₁.trans hs₂, rfl, hrecord.mono (hs₁.trans hs₂), ?_⟩
    · rw [settleEntry, outcome_get_bind, hget, outcome_bind_ok (hforce fuel), outcome_modify_bind,
        outcome_pure, Entries.putAt_of_getElem? hw]
    · have hi := (List.getElem?_eq_some_iff.mp hw).1
      rw [Store.entries_setEntries_self hr₁, List.getElem?_set_self hi]

mutual

/-- The number of records in a tree. -/
def Tree.size : Tree → ℕ
  | .atom _ => 0
  | .record trees => 1 + Tree.sizeAll trees

/-- The number of records in the trees under names. -/
def Tree.sizeAll : List (String × Tree) → ℕ
  | [] => 0
  | (_, tree) :: trees => tree.size + Tree.sizeAll trees

end

/-- Whether the records of a queue represent trees with so many records altogether, at most. -/
def QueueBound (reg : Registry) (s : Store) (queue : List RecordRef) (n : ℕ) : Prop :=
  ∃ trees : List Tree, List.Forall₂ (fun q tree => tree.Represents reg s (.record q)) queue trees ∧
    (trees.map Tree.size).sum ≤ n

theorem QueueBound.mono {s' : Store} {queue : List RecordRef} {n : ℕ} (hs : s.Advances s')
    (h : QueueBound reg s queue n) : QueueBound reg s' queue n := by
  obtain ⟨trees, hqueue, hsum⟩ := h
  exact ⟨trees, hqueue.imp fun _ _ hrep => hrep.mono hs, hsum⟩

theorem QueueBound.append {queue queue' : List RecordRef} {n n' : ℕ}
    (h : QueueBound reg s queue n) (h' : QueueBound reg s queue' n') :
    QueueBound reg s (queue ++ queue') (n + n') := by
  obtain ⟨trees, hqueue, hsum⟩ := h
  obtain ⟨trees', hqueue', hsum'⟩ := h'
  refine ⟨trees ++ trees', List.rel_append hqueue hqueue', ?_⟩
  rw [List.map_append, List.sum_append]
  omega

/-- The record that a value is, to be queued. -/
def Value.queued : Value → List RecordRef
  | .record q => [q]
  | _ => []

theorem Value.mem_queued {v : Value} {q : RecordRef} : q ∈ v.queued ↔ v = .record q := by
  cases v with
  | record r => simp [Value.queued, eq_comm]
  | _ => simp [Value.queued]

theorem queueBound_queued {tree : Tree} {v : Value} (h : tree.Represents reg s v) :
    QueueBound reg s v.queued tree.size := by
  cases v with
  | record q => exact ⟨[tree], .cons h .nil, by simp⟩
  | _ => exact ⟨[], .nil, Nat.zero_le _⟩

theorem settleEntries_cons (again : Task → Run Value) (r : RecordRef) (size i : ℕ)
    (rest : List ℕ) :
    settleEntries again r size (i :: rest) = (do
      requireSize r size
      let v ← settleEntry again r i
      let found ← settleEntries again r size rest
      return v.queued ++ found) := by
  rw [settleEntries]
  refine bind_congr fun _ => bind_congr fun v => bind_congr fun found => ?_
  cases v <;> rfl

theorem outcome_requireSize {size : ℕ} (h : (s.entries r).length = size) :
    outcome (requireSize r size) s = (.ok (), s) := by
  rw [requireSize, outcome_get_bind, if_neg (by simp [h])]
  rfl

/-- Settling the entries of a record from a place on: none of them is deferred afterwards, and the
records among them are found. -/
theorem outcome_settleEntries (env : Env) {size : ℕ} :
    ∀ (part : List (String × Tree)) {s : Store} {k : ℕ},
      (Tree.record trees).Represents reg s (.record r) → (s.entries r).length = size →
      trees.drop k = part →
      ∃ found s',
        (∀ fuel, outcome (settleEntries (perform env (fuel + 2)) r size
          (List.range' k part.length)) s = (.ok found, s')) ∧
        s.Advances s' ∧ QueueBound reg s' found (Tree.sizeAll part) ∧
        ∀ i e, k ≤ i → (s'.entries r)[i]? = some e →
          e.2.isDeferred = false ∧ ∀ q, e.2 = .record q → q ∈ found
  | [], s, k, h, hsize, hpart => by
    refine ⟨[], s, fun fuel => ?_, .refl s, ⟨[], .nil, Nat.le_refl _⟩, fun i e hi he => ?_⟩
    · rw [List.length_nil, List.range'_zero, settleEntries,
        outcome_bind_ok (outcome_requireSize hsize), outcome_pure]
    · have hlt := (List.getElem?_eq_some_iff.mp he).1
      have hle := List.drop_eq_nil_iff.mp hpart
      have hlength := h.entries.length_eq
      omega
  | (name, tree) :: part, s, k, h, hsize, hpart => by
    have htree : trees[k]? = some (name, tree) := by
      rw [← Nat.add_zero k, ← List.getElem?_drop, hpart]
      rfl
    have hrest : trees.drop (k + 1) = part := by rw [← List.tail_drop, hpart, List.tail_cons]
    obtain ⟨v, s₁, hentry, hs₁, hv, hrep, hfield⟩ := outcome_settleEntry h htree env
    have hr := h.index_lt
    obtain ⟨found, s₂, hrest, hs₂, hbound, hserved⟩ :=
      outcome_settleEntries env part (h.mono hs₁)
        ((hs₁.entries r hr).length_eq.symm.trans hsize) hrest
    refine ⟨v.queued ++ found, s₂, fun fuel => ?_, hs₁.trans hs₂,
      (queueBound_queued (hrep.mono hs₂)).append hbound, fun i e hi he => ?_⟩
    · rw [List.length_cons, List.range'_succ, settleEntries_cons,
        outcome_bind_ok (outcome_requireSize hsize), outcome_bind_ok (hentry fuel),
        outcome_bind_ok (hrest fuel), outcome_pure]
    · rcases Nat.eq_or_lt_of_le hi with rfl | hi
      · -- The settled entry is not deferred, so it is still there at the end.
        obtain ⟨e', he', -, hgives⟩ := exists_getElem?_of_forall₂
          (hs₂.entries r (Nat.lt_of_lt_of_le hr hs₁.size)) hfield
        cases he'.symm.trans he
        rcases hgives with hkept | ⟨t, q, rfl, _, _⟩
        · rw [hkept]
          exact ⟨hv, fun q hq => List.mem_append_left _ (Value.mem_queued.mpr hq)⟩
        · cases hv
      · obtain ⟨hdeferred, hfound⟩ := hserved i e hi he
        exact ⟨hdeferred, fun q hq => List.mem_append_right _ (hfound q hq)⟩

/-- Settling all entries of a record serves it. -/
theorem outcome_settleRecord (h : (Tree.record trees).Represents reg s (.record r)) (env : Env) :
    ∃ found s',
      (∀ fuel, outcome (settleEntries (perform env (fuel + 2)) r (s.entries r).length
        (List.range (s.entries r).length)) s = (.ok found, s')) ∧
      s.Advances s' ∧ QueueBound reg s' found (Tree.sizeAll trees) ∧ s'.Served r found := by
  obtain ⟨found, s', hrun, hs, hbound, hserved⟩ :=
    outcome_settleEntries env trees h rfl (List.drop_zero : trees.drop 0 = trees)
  refine ⟨found, s', fun fuel => ?_, hs, hbound, fun e he => ?_⟩
  · rw [List.range_eq_range', h.entries.length_eq]
    rw [h.entries.length_eq] at hrun
    exact hrun fuel
  · obtain ⟨i, hi⟩ := List.mem_iff_getElem?.mp he
    exact hserved i e (Nat.zero_le i) hi

end Records

/-! ### The queue -/

section Queue

variable {reg : Registry}

/-- Taking the first record off the queue leaves fewer records in its trees. -/
theorem QueueBound.cases_cons {s : Store} {r : RecordRef} {queue : List RecordRef} {n : ℕ}
    (h : QueueBound reg s (r :: queue) n) :
    ∃ trees m, n = Tree.sizeAll trees + m + 1 ∧ (Tree.record trees).Represents reg s (.record r) ∧
      QueueBound reg s queue m := by
  obtain ⟨_, hqueue, hsum⟩ := h
  obtain ⟨tree, rest, hr, hqueue', rfl⟩ := List.forall₂_cons_left_iff.mp hqueue
  cases tree with
  | atom a =>
    obtain ⟨rfl, ha⟩ := hr
    cases ha
  | record trees =>
    rw [List.map_cons, List.sum_cons, Tree.size] at hsum
    exact ⟨trees, n - Tree.sizeAll trees - 1, by omega, hr, rest, hqueue', by omega⟩

/-- Settling a queue comes to an end, and then nothing in the values that were settled up to the
queue is deferred. -/
theorem outcome_settle (env : Env) :
    ∀ (n : ℕ) {s : Store} {queue : List RecordRef}, QueueBound reg s queue n →
      ∃ s', (∀ fuel, outcome (perform env (fuel + n + 3) (.settle queue)) s = (.ok .null, s')) ∧
        s.Advances s' ∧ ∀ {tree : Tree} {v : Value},
          tree.Settled reg s queue v → tree.Settled reg s' [] v
  | n, s, [], _ => ⟨s, fun _ => rfl, .refl s, fun h => h⟩
  | n, s, r :: queue, h => by
    obtain ⟨trees, m, rfl, hr, hqueue⟩ := h.cases_cons
    obtain ⟨found, s₁, hrun, hs₁, hfound, hserved⟩ := outcome_settleRecord hr env
    have hqueue₁ : QueueBound reg s₁ (queue ++ found) (m + Tree.sizeAll trees) :=
      (hqueue.mono hs₁).append hfound
    obtain ⟨s₂, hrest, hs₂, hsettled⟩ := outcome_settle env (m + Tree.sizeAll trees) hqueue₁
    have hqueue' : ∀ q ∈ r :: queue, q ∈ queue ++ found ∨ s₁.Served q (queue ++ found) := by
      intro q hq
      rcases List.mem_cons.mp hq with rfl | hq
      · exact .inr fun e he =>
          ⟨(hserved e he).1, fun q' h => List.mem_append_right _ ((hserved e he).2 q' h)⟩
      · exact .inl (List.mem_append_left _ hq)
    refine ⟨s₂, fun fuel => ?_, hs₁.trans hs₂, fun h => hsettled (h.advance hs₁ hqueue')⟩
    have hfuel : fuel + (Tree.sizeAll trees + m + 1) + 3 =
        fuel + (m + Tree.sizeAll trees) + 3 + 1 := by omega
    rw [hfuel, perform, step, settle, outcome_get_bind, Store.getElem?_records hr.index_lt,
      outcome_bind_ok (hrun _)]
    exact hrest fuel

/-- Forcing a value throughout gives a value in which nothing is deferred. -/
theorem outcome_complete {s : Store} {tree : Tree} {v : Value} (h : tree.Represents reg s v)
    (env : Env) :
    ∃ v' s', (∀ fuel, outcome (unary (perform env (fuel + tree.size + 3)) .complete v) s =
        (.ok v', s')) ∧ s.Advances s' ∧ tree.Settled reg s' [] v' := by
  obtain ⟨v', s₁, hforce, hs₁, hv', hrep⟩ := outcome_force h env
  obtain ⟨s₂, hsettle, hs₂, hsettled⟩ := outcome_settle env tree.size (queueBound_queued hrep)
  refine ⟨v', s₂, fun fuel => ?_, hs₁.trans hs₂, hsettled (hrep.settled hv' ?_)⟩
  · have hforce' := hforce (fuel + tree.size + 1)
    have hsettle' := hsettle fuel
    rw [unary, outcome_bind_ok hforce']
    cases v' with
    | record r =>
      exact outcome_bind_ok (outcome_discard_ok hsettle') _
    | _ =>
      -- Nothing was queued, so the store is as forcing has left it.
      cases hsettle'
      rfl
  · rintro r rfl
    exact List.mem_singleton.mpr rfl

/-- Force what bindings hold throughout, one after the other. -/
def completeAll (again : Task → Run Value) : Bindings → Run Bindings
  | [] => return []
  | (name, v) :: rest => do
    let v ← unary again .complete v
    return (name, v) :: (← completeAll again rest)

/-- Afterwards nothing in the bindings is deferred: what is forced first stays as it is. -/
theorem outcome_completeAll (env : Env) {s : Store} {trees : Table Tree} {b : Bindings}
    (h : Tree.RepresentsTable reg s trees b) :
    ∃ n b' s', (∀ fuel, outcome (completeAll (perform env (fuel + n)) b) s = (.ok b', s')) ∧
      s.Advances s' ∧
      List.Forall₂ (fun e e' => e'.1 = e.1 ∧ e.2.Settled reg s' [] e'.2) trees b' := by
  induction trees generalizing s b with
  | nil =>
    cases h
    exact ⟨0, [], s, fun _ => rfl, .refl s, .nil⟩
  | cons e trees ih =>
    obtain ⟨⟨name, v⟩, rest, ⟨hname, hv⟩, hrest, rfl⟩ := List.forall₂_cons_left_iff.mp h
    obtain ⟨v', s₁, hfirst, hs₁, hsettled⟩ := outcome_complete hv env
    obtain ⟨n, b', s₂, hothers, hs₂, hall⟩ := ih (hrest.imp fun _ _ he => ⟨he.1, he.2.mono hs₁⟩)
    have hsettled' : e.2.Settled reg s₂ [] v' := hsettled.advance hs₂ (by simp)
    refine ⟨n + (e.2.size + 3), (name, v') :: b', s₂, fun fuel => ?_, hs₁.trans hs₂,
      .cons ⟨hname, hsettled'⟩ hall⟩
    have hfirst' : outcome (unary (perform env (fuel + (n + (e.2.size + 3)))) .complete v) s =
        (.ok v', s₁) := by
      rw [← Nat.add_assoc, ← Nat.add_assoc]
      exact hfirst (fuel + n)
    have hothers' : outcome (completeAll (perform env (fuel + (n + (e.2.size + 3)))) rest) s₁ =
        (.ok b', s₂) := by
      rw [Nat.add_comm n, ← Nat.add_assoc]
      exact hothers (fuel + (e.2.size + 3))
    rw [completeAll, outcome_bind_ok hfirst', outcome_bind_ok hothers', outcome_pure]

end Queue

end LazyMatch
