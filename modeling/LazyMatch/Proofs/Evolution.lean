import LazyMatch.Proofs.Layers
import LazyMatch.Proofs.Settling

/-!
# What becomes of the entries of records

Records evolve when they keep their keys in order and every entry stays as it is, or was a deferred
value and gives way to what that has come to (`Store.Evolves`). That is all that becomes of a record
which is forced throughout, as long as the computations on the way do not write to records in other
ways (`Store.Keeps`).

* `Store.ComesTo`: what a deferred value has come to, layer by layer; `Store.ComesTo.ends_force`:
  forcing it again answers that and does nothing else;
* `Store.Evolves.trans`;
* `evolves_settleEntry`: what forcing an entry in place does.
-/

namespace LazyMatch

/-! ### What a deferred value has come to -/

/-- What a deferred value has come to, through all its layers. -/
def Store.ComesTo (s : Store) (t : ThunkRef) (v : Value) : Prop :=
  s.Unwraps (.thunk t) v ∧ v.isDeferred = false

namespace Store.ComesTo

variable {env : Env} {s s' : Store} {t : ThunkRef} {v w : Value}

/-- What has been computed stays. -/
theorem mono (h : s.ComesTo t v) (hs : Matures s.thunks s'.thunks) : s'.ComesTo t v :=
  ⟨h.1.mono hs, h.2⟩

theorem unique (h : s.ComesTo t v) (h' : s.ComesTo t w) : v = w := h.1.unique h.2 h'.1 h'.2

/-- Forcing leaves a deferred value with what it has come to. -/
theorem of_force
    (h : Ends env (fun _ => []) (fun again => again (.force [] (.thunk t))) s (.ok v) s') :
    s'.ComesTo t v := ⟨h.unwraps, h.not_isDeferred⟩

/-- Forcing what has been computed answers it and does nothing else. -/
theorem ends_force {tell : Event → List Value} (h : s.ComesTo t v) :
    Ends env tell (fun again => again (.force [] (.thunk t))) s (.ok v) s :=
  h.1.immediate h.2 env tell

end Store.ComesTo

/-! ### Entries -/

/-- Whether an entry is as it was, or was deferred and is what that has come to. -/
def Store.Completes (s : Store) (e e' : Value × Value) : Prop :=
  e'.1 = e.1 ∧ (e'.2 = e.2 ∨ ∃ t, e.2 = .thunk t ∧ s.ComesTo t e'.2)

/-- Whether records keep their keys in order, and their entries but for deferred ones that give way
to what they have come to. -/
def Store.Keeps (s s' : Store) : Prop :=
  ∀ r : RecordRef, r.index < s.records.size →
    List.Forall₂ s'.Completes (s.entries r) (s'.entries r)

/-- Whether, moreover, no record is lost and deferred values mature. -/
structure Store.Evolves (s s' : Store) : Prop where
  size : s.records.size ≤ s'.records.size
  keeps : s.Keeps s'
  matures : Matures s.thunks s'.thunks

section Entries

variable {s s' s'' : Store} {r : RecordRef} {key v w : Value} {i : ℕ}

theorem Store.Completes.refl (s : Store) (e : Value × Value) : s.Completes e e := ⟨rfl, .inl rfl⟩

theorem Store.Completes.mono {e e' : Value × Value} (h : s.Completes e e')
    (hs : Matures s.thunks s'.thunks) : s'.Completes e e' :=
  ⟨h.1, h.2.imp_right fun ⟨t, ht, hcomes⟩ => ⟨t, ht, hcomes.mono hs⟩⟩

/-- What is not deferred stays. -/
theorem Store.Completes.eq_of_not_isDeferred {e e' : Value × Value} (h : s.Completes e e')
    (he : e.2.isDeferred = false) : e' = e := by
  rcases h.2 with hsame | ⟨t, ht, -⟩
  · exact Prod.ext h.1 hsame
  · rw [ht] at he
    cases he

/-- What an entry has given way to stays. -/
theorem Store.Completes.trans {e e' e'' : Value × Value} (h : s.Completes e e')
    (h' : s.Completes e' e'') : s.Completes e e'' := by
  refine ⟨h'.1.trans h.1, ?_⟩
  rcases h.2 with hsame | ⟨t, ht, hcomes⟩
  · rw [← hsame]
    exact h'.2
  · rw [h'.eq_of_not_isDeferred hcomes.2]
    exact .inr ⟨t, ht, hcomes⟩

theorem Store.Keeps.refl (s : Store) : s.Keeps s :=
  fun _ _ => List.forall₂_same.mpr fun e _ => .refl s e

theorem Store.Evolves.refl (s : Store) : s.Evolves s := ⟨Nat.le_refl _, .refl s, .refl _⟩

theorem Store.Evolves.trans (h : s.Evolves s') (h' : s'.Evolves s'') : s.Evolves s'' where
  size := Nat.le_trans h.size h'.size
  keeps := by
    intro r hr
    have hfirst := (h.keeps r hr).imp fun _ _ he => he.mono h'.matures
    have hsecond := h'.keeps r (Nat.lt_of_lt_of_le hr h.size)
    exact forall₂_trans (fun _ _ _ he he' => he.trans he') hfirst hsecond
  matures := h.matures.trans h'.matures

/-- Evaluation loses no record and lets deferred values mature in any case. -/
theorem Store.Keeps.evolves {env : Env} {task : Task} {res : Except Stop Value} (h : s.Keeps s')
    (hends : Ends env (fun _ => []) (fun again => again task) s res s') : s.Evolves s' :=
  ⟨hends.persists.records, h, hends.matures⟩

theorem Store.Evolves.length_entries (h : s.Evolves s') (hr : r.index < s.records.size) :
    (s'.entries r).length = (s.entries r).length := (h.keeps r hr).length_eq.symm

/-- The entry at a place stays, or it was deferred and gives way to what that has come to. -/
theorem Store.Evolves.getElem? (h : s.Evolves s') {e : Value × Value}
    (he : (s.entries r)[i]? = some e) : ∃ e', (s'.entries r)[i]? = some e' ∧ s'.Completes e e' :=
  exists_getElem?_of_forall₂ (h.keeps r (Store.lt_of_mem_entries (List.mem_of_getElem? he))) he

/-- Records evolve when what an entry has come to is written in its place. -/
theorem Store.evolves_setEntries (hv : (s.entries r)[i]? = some (key, v))
    (hw : s.Completes (key, v) (key, w)) :
    s.Evolves (s.setEntries r ((s.entries r).set i (key, w))) where
  size := by simp
  keeps := by
    intro q _
    by_cases hq : q = r
    · subst hq
      rw [Store.entries_setEntries_self (Store.lt_of_mem_entries (List.mem_of_getElem? hv))]
      exact forall₂_set_right (Store.Completes.refl _) hv (hw.mono (.refl _))
    · rw [Store.entries_setEntries_of_ne hq]
      exact List.forall₂_same.mpr fun e _ => .refl _ e
  matures := .refl _

end Entries

/-! ### Forcing an entry in place -/

section Entry

variable {env : Env} {tell : Event → List Value} {s s' : Store} {r : RecordRef} {i : ℕ}
  {key : Value} {res : Except Stop Value}

/-- Write the entry at a place and answer it. -/
def writeEntry (r : RecordRef) (i : ℕ) (key v : Value) : Run Value := do
  modify fun s => s.setEntries r ((s.entries r).putAt i key v)
  return v

/-- To force a deferred entry in place is to force it and to write what it has come to. -/
theorem ends_settleEntry_thunk_iff {t : ThunkRef}
    (hget : (s.entries r)[i]? = some (key, .thunk t)) :
    Ends env tell (fun again => settleEntry again r i) s res s' ↔
      (∃ v s₁, Ends env tell (fun again => again (.force [] (.thunk t))) s (.ok v) s₁ ∧
        res = .ok v ∧ s' = s₁.setEntries r ((s₁.entries r).putAt i key v)) ∨
      ∃ e, Ends env tell (fun again => again (.force [] (.thunk t))) s (.error e) s' ∧
        res = .error e := by
  have hopen : ∀ again : Evaluator, outcome (settleEntry again r i) s =
      outcome (again (.force [] (.thunk t)) >>= fun v => writeEntry r i key v) s := by
    intro again
    rw [settleEntry, outcome_get_bind, hget]
    rfl
  have hwrite : ∀ v s₁, Ends env tell (fun _ => writeEntry r i key v) s₁ (.ok v)
      (s₁.setEntries r ((s₁.entries r).putAt i key v)) := fun v s₁ => ⟨by simp, 0, fun _ _ => rfl⟩
  rw [ends_congr hopen]
  constructor
  · intro h
    rcases h.bind_cases (f := fun v _ => writeEntry r i key v) definite_again with
      ⟨v, s₁, hforce, hrest⟩ | ⟨e, rfl, hforce⟩
    · obtain ⟨rfl, rfl⟩ := hrest.unique (hwrite v s₁)
      exact .inl ⟨v, s₁, hforce, rfl, rfl⟩
    · exact .inr ⟨e, hforce, rfl⟩
  · rintro (⟨v, s₁, hforce, rfl, rfl⟩ | ⟨e, hforce, rfl⟩)
    · exact hforce.bind (f := fun v _ => writeEntry r i key v) (hwrite v s₁)
    · exact hforce.bind_error

theorem ends_settleEntry_of_not_isDeferred {v : Value} (hget : (s.entries r)[i]? = some (key, v))
    (hv : v.isDeferred = false) :
    Ends env tell (fun again => settleEntry again r i) s (.ok v) s := by
  refine ⟨by simp, 0, fun m _ => ?_⟩
  show outcome (settleEntry (observed env tell m) r i) s = _
  rw [settleEntry, outcome_get_bind, hget]
  cases v with
  | thunk t => cases hv
  | _ => rfl

/-- **Forcing an entry in place lets records evolve**, as long as the computation keeps them. What
is answered is not deferred, and is the entry from then on. -/
theorem evolves_settleEntry {u v : Value} (hget : (s.entries r)[i]? = some (key, u))
    (hkeeps : ∀ t, u = .thunk t → ∀ res s₁,
      Ends env (fun _ => []) (fun again => again (.force [] (.thunk t))) s res s₁ → s.Keeps s₁)
    (h : Ends env (fun _ => []) (fun again => settleEntry again r i) s (.ok v) s') :
    s.Evolves s' ∧ v.isDeferred = false ∧ (s'.entries r)[i]? = some (key, v) := by
  cases hdeferred : u.isDeferred with
  | false =>
    obtain ⟨hv, rfl⟩ := (ends_settleEntry_of_not_isDeferred hget hdeferred).unique h
    cases hv
    exact ⟨.refl s, hdeferred, hget⟩
  | true =>
    obtain ⟨t, rfl⟩ := Value.eq_thunk_of_isDeferred hdeferred
    rcases (ends_settleEntry_thunk_iff hget).mp h with ⟨w, s₁, hforce, hw, rfl⟩ | ⟨e, -, he⟩
    · cases hw
      have hevolves := (hkeeps t rfl _ s₁ hforce).evolves hforce
      have hcomes := Store.ComesTo.of_force hforce
      obtain ⟨⟨key', u⟩, hget', hkey, hu⟩ := hevolves.getElem? hget
      obtain rfl : key' = key := hkey
      -- The entry may have given way already in the meantime, but only to the same value.
      have hv : v = u ∨ ∃ t, u = .thunk t ∧ s₁.ComesTo t v := by
        rcases hu with rfl | ⟨t', ht', hcomes'⟩
        · exact .inr ⟨t, rfl, hcomes⟩
        · cases ht'
          exact .inl (hcomes.unique hcomes')
      have hr := Store.lt_of_mem_entries (List.mem_of_getElem? hget')
      have hi := (List.getElem?_eq_some_iff.mp hget').1
      rw [Entries.putAt_of_getElem? hget']
      refine ⟨hevolves.trans (Store.evolves_setEntries hget' ⟨rfl, hv⟩), hcomes.2, ?_⟩
      rw [Store.entries_setEntries_self hr, List.getElem?_set_self hi]
    · cases he

end Entry

end LazyMatch
