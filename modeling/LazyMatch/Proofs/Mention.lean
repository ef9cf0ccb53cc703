import LazyMatch.Proofs.Outcome
import Mathlib.Data.List.Nodup
import Mathlib.Data.List.Perm.Subperm

/-!
# What a store mentions

Some deferred values may be hidden from a computation: neither what it works on nor what is in the
store refers to them. `Value.Avoids` says so of a value, and the definitions after it of everything
that holds values, up to `Store.Avoids`. Hidden deferred values still have a state, and the store
still has a log; `Store.recast` changes these and nothing else.

* `Store.Avoids.entries`, `Store.Avoids.closure`, …: what is read off such a store avoids them too;
* `Store.Avoids.pushRecord`, `Store.Avoids.setEntries`, …: what is put into it keeps it so;
* `Store.written_recast`, `Store.shown_recast`, `Store.noMatch_recast`: no text tells the states of
  hidden deferred values.
-/

namespace LazyMatch

/-! ### Values -/

mutual

/-- The deferred values that a value refers to. -/
def Value.mentions : Value → List ThunkRef
  | .list _ items | .tuple _ items | .noted _ items => Value.mentionsAll items
  | .thunk t => [t]
  | .phrase p => p.mentions
  | _ => []

/-- The deferred values that several values refer to. -/
def Value.mentionsAll : List Value → List ThunkRef
  | [] => []
  | v :: rest => v.mentions ++ Value.mentionsAll rest

/-- The deferred values that a phrase refers to. -/
def Phrase.mentions : Phrase → List ThunkRef
  | .name _ _ | .otherwise => []
  | .literal _ v | .defer _ v => v.mentions
  | .compound _ _ fields => Phrase.mentionsAll fields
  | .named _ inner _ => inner.mentions
  | .either _ alternatives => Phrase.mentionsAll alternatives
  | .row r => r.mentions
  | .group _ first rest => first.mentions ++ Row.mentionsAll rest

/-- The deferred values that several phrases refer to. -/
def Phrase.mentionsAll : List Phrase → List ThunkRef
  | [] => []
  | p :: rest => p.mentions ++ Phrase.mentionsAll rest

/-- The deferred values that a row refers to. -/
def Row.mentions : Row → List ThunkRef
  | .mk _ cells => Phrase.mentionsAll cells

/-- The deferred values that several rows refer to. -/
def Row.mentionsAll : List Row → List ThunkRef
  | [] => []
  | r :: rest => r.mentions ++ Row.mentionsAll rest

end

/-- Whether a value refers to no hidden deferred value. -/
def Value.Avoids (hidden : ThunkRef → Prop) (v : Value) : Prop := ∀ t ∈ v.mentions, ¬ hidden t

/-- Whether a phrase refers to no hidden deferred value. -/
def Phrase.Avoids (hidden : ThunkRef → Prop) (p : Phrase) : Prop := ∀ t ∈ p.mentions, ¬ hidden t

/-- Whether a row refers to no hidden deferred value. -/
def Row.Avoids (hidden : ThunkRef → Prop) (r : Row) : Prop := ∀ t ∈ r.mentions, ¬ hidden t

section Avoids

variable {hidden : ThunkRef → Prop}

theorem Value.mentionsAll_eq (vs : List Value) :
    Value.mentionsAll vs = vs.flatMap Value.mentions := by
  induction vs with
  | nil => rfl
  | cons v rest ih => rw [Value.mentionsAll, ih, List.flatMap_cons]

theorem Phrase.mentionsAll_eq (ps : List Phrase) :
    Phrase.mentionsAll ps = ps.flatMap Phrase.mentions := by
  induction ps with
  | nil => rfl
  | cons p rest ih => rw [Phrase.mentionsAll, ih, List.flatMap_cons]

theorem Row.mentionsAll_eq (rs : List Row) : Row.mentionsAll rs = rs.flatMap Row.mentions := by
  induction rs with
  | nil => rfl
  | cons r rest ih => rw [Row.mentionsAll, ih, List.flatMap_cons]

theorem Value.forall_mentionsAll_iff {vs : List Value} :
    (∀ t ∈ Value.mentionsAll vs, ¬ hidden t) ↔ ∀ v ∈ vs, v.Avoids hidden := by
  simp only [Value.mentionsAll_eq, List.mem_flatMap, Value.Avoids]
  grind

theorem Phrase.forall_mentionsAll_iff {ps : List Phrase} :
    (∀ t ∈ Phrase.mentionsAll ps, ¬ hidden t) ↔ ∀ p ∈ ps, p.Avoids hidden := by
  simp only [Phrase.mentionsAll_eq, List.mem_flatMap, Phrase.Avoids]
  grind

theorem Row.forall_mentionsAll_iff {rs : List Row} :
    (∀ t ∈ Row.mentionsAll rs, ¬ hidden t) ↔ ∀ r ∈ rs, r.Avoids hidden := by
  simp only [Row.mentionsAll_eq, List.mem_flatMap, Row.Avoids]
  grind

@[simp] theorem Value.avoids_list {stamp : ℕ} {items : List Value} :
    (Value.list stamp items).Avoids hidden ↔ ∀ v ∈ items, v.Avoids hidden :=
  Value.forall_mentionsAll_iff

@[simp] theorem Value.avoids_tuple {stamp : ℕ} {items : List Value} :
    (Value.tuple stamp items).Avoids hidden ↔ ∀ v ∈ items, v.Avoids hidden :=
  Value.forall_mentionsAll_iff

@[simp] theorem Value.avoids_noted {stamp : ℕ} {items : List Value} :
    (Value.noted stamp items).Avoids hidden ↔ ∀ v ∈ items, v.Avoids hidden :=
  Value.forall_mentionsAll_iff

@[simp] theorem Value.avoids_thunk {t : ThunkRef} :
    (Value.thunk t).Avoids hidden ↔ ¬ hidden t := by
  simp [Value.Avoids, Value.mentions]

@[simp] theorem Value.avoids_phrase {p : Phrase} :
    (Value.phrase p).Avoids hidden ↔ p.Avoids hidden := Iff.rfl

/-- A value without parts that can be deferred avoids everything. -/
theorem Value.avoids_of_mentions_nil {v : Value} (h : v.mentions = []) : v.Avoids hidden := by
  simp [Value.Avoids, h]

@[simp] theorem Phrase.avoids_name {stamp : ℕ} {text : String} :
    (Phrase.name stamp text).Avoids hidden := by
  simp [Phrase.Avoids, Phrase.mentions]

@[simp] theorem Phrase.avoids_otherwise : Phrase.otherwise.Avoids hidden := by
  simp [Phrase.Avoids, Phrase.mentions]

@[simp] theorem Phrase.avoids_literal {stamp : ℕ} {v : Value} :
    (Phrase.literal stamp v).Avoids hidden ↔ v.Avoids hidden := Iff.rfl

@[simp] theorem Phrase.avoids_defer {stamp : ℕ} {v : Value} :
    (Phrase.defer stamp v).Avoids hidden ↔ v.Avoids hidden := Iff.rfl

@[simp] theorem Phrase.avoids_compound {stamp : ℕ} {head : Ident} {fields : List Phrase} :
    (Phrase.compound stamp head fields).Avoids hidden ↔ ∀ p ∈ fields, p.Avoids hidden :=
  Phrase.forall_mentionsAll_iff

@[simp] theorem Phrase.avoids_named {stamp : ℕ} {inner : Phrase} {name : Ident} :
    (Phrase.named stamp inner name).Avoids hidden ↔ inner.Avoids hidden := Iff.rfl

@[simp] theorem Phrase.avoids_either {stamp : ℕ} {alternatives : List Phrase} :
    (Phrase.either stamp alternatives).Avoids hidden ↔ ∀ p ∈ alternatives, p.Avoids hidden :=
  Phrase.forall_mentionsAll_iff

@[simp] theorem Phrase.avoids_row {r : Row} : (Phrase.row r).Avoids hidden ↔ r.Avoids hidden :=
  Iff.rfl

@[simp] theorem Phrase.avoids_group {stamp : ℕ} {first : Row} {rest : List Row} :
    (Phrase.group stamp first rest).Avoids hidden ↔
      first.Avoids hidden ∧ ∀ r ∈ rest, r.Avoids hidden := by
  rw [← Row.forall_mentionsAll_iff]
  simp only [Phrase.Avoids, Phrase.mentions, List.mem_append, Row.Avoids]
  grind

@[simp] theorem Row.avoids_mk {stamp : ℕ} {cells : List Phrase} :
    (Row.mk stamp cells).Avoids hidden ↔ ∀ p ∈ cells, p.Avoids hidden :=
  Phrase.forall_mentionsAll_iff

/-! ### What holds values -/

/-- Whether the keys and entries of a record refer to no hidden deferred value. -/
def Entries.Avoid (hidden : ThunkRef → Prop) (entries : Entries) : Prop :=
  ∀ e ∈ entries, e.1.Avoids hidden ∧ e.2.Avoids hidden

/-- Whether bindings or a scope refer to no hidden deferred value. -/
def Table.Avoid (hidden : ThunkRef → Prop) (t : Table Value) : Prop := ∀ e ∈ t, e.2.Avoids hidden

/-- The action that a handler runs. -/
def Handler.action : Handler → Value
  | .direct v | .adapted v | .forced v => v

/-- Whether the parameters of an action have no default that refers to a hidden deferred value. -/
def Param.AllAvoid (hidden : ThunkRef → Prop) (params : List (Param Value)) : Prop :=
  ∀ p ∈ params, ∀ v ∈ p.fallback, v.Avoids hidden

/-- Whether a closure refers to no hidden deferred value. -/
def Closure.Avoids (hidden : ThunkRef → Prop) (c : Closure) : Prop :=
  Param.AllAvoid hidden c.params ∧ Table.Avoid hidden c.scope

/-- Whether the actions of a function refer to no hidden deferred value. -/
def Function.Avoids (hidden : ThunkRef → Prop) (f : Function) : Prop :=
  ∀ row ∈ f.rows, row.action.action.Avoids hidden

/-- Whether a computation refers to no hidden deferred value. -/
def Computation.Avoids (hidden : ThunkRef → Prop) : Computation → Prop
  | .expr _ scope _ => Table.Avoid hidden scope
  | .call callee => callee.Avoids hidden
  | .constant _ | .variant _ => True
  | .dispatch _ args => ∀ v ∈ args, v.Avoids hidden

/-- Whether what a deferred value computes, or has computed, refers to no hidden one. -/
def Cell.Avoids (hidden : ThunkRef → Prop) : Cell → Prop
  | .pending c | .running c => c.Avoids hidden
  | .resolved v => v.Avoids hidden

/-- Whether what evaluation has to do refers to no hidden deferred value. -/
def Task.Avoids (hidden : ThunkRef → Prop) : Task → Prop
  | .eval scope _ | .action scope _ => Table.Avoid hidden scope
  | .pattern _ | .row _ | .settle _ => True
  | .call callee args => callee.Avoids hidden ∧ ∀ v ∈ args, v.Avoids hidden
  | .dispatch _ args => ∀ v ∈ args, v.Avoids hidden
  | .handle h b => h.action.Avoids hidden ∧ Table.Avoid hidden b
  | .resolve t => ¬ hidden t
  | .force _ v => v.Avoids hidden

/-- Whether global names and stored phrases refer to no hidden deferred value. -/
structure Env.Avoids (hidden : ThunkRef → Prop) (env : Env) : Prop where
  globals : Table.Avoid hidden env.globals
  phrases : ∀ e ∈ env.phrases, e.2.Avoids hidden

/-- Whether nothing in a store refers to a hidden deferred value. What a hidden one computes does
not count, and neither does the log. -/
structure Store.Avoids (hidden : ThunkRef → Prop) (s : Store) : Prop where
  records : ∀ e ∈ s.records, Entries.Avoid hidden e
  thunks : ∀ t c, ¬ hidden t → s.thunks[t.index]? = some c → c.Avoids hidden
  functions : ∀ f ∈ s.functions, f.Avoids hidden
  closures : ∀ c ∈ s.closures, c.Avoids hidden

theorem Table.Avoid.get? {t : Table Value} (h : Table.Avoid hidden t) {name : String} {v : Value}
    (hv : t.get? name = some v) : v.Avoids hidden := h _ (Table.mem_of_get? hv)

theorem Table.Avoid.put {t : Table Value} (h : Table.Avoid hidden t) (name : String) {v : Value}
    (hv : v.Avoids hidden) : Table.Avoid hidden (t.put name v) := by
  intro e he
  rcases Table.mem_of_mem_put he with rfl | he
  · exact hv
  · exact h e he

theorem Table.Avoid.ofList {entries : List (String × Value)} (h : Table.Avoid hidden entries) :
    Table.Avoid hidden (Table.ofList entries) := fun e he => h e (Table.mem_of_mem_ofList he)

theorem Table.Avoid.filter {t : Table Value} (h : Table.Avoid hidden t)
    (keep : String × Value → Bool) : Table.Avoid hidden (t.filter keep) :=
  fun e he => h e (List.mem_of_mem_filter he)

theorem Table.Avoid.append {t u : Table Value} (ht : Table.Avoid hidden t)
    (hu : Table.Avoid hidden u) : Table.Avoid hidden (t ++ u) :=
  fun e he => (List.mem_append.mp he).elim (ht e) (hu e)

theorem Table.Avoid.cons {t : Table Value} (h : Table.Avoid hidden t) (name : String) {v : Value}
    (hv : v.Avoids hidden) : Table.Avoid hidden ((name, v) :: t) := by
  intro e he
  rcases List.mem_cons.mp he with rfl | he
  · exact hv
  · exact h e he

theorem Table.Avoid.zip (names : List String) {vs : List Value} (h : ∀ v ∈ vs, v.Avoids hidden) :
    Table.Avoid hidden (names.zip vs) := fun _ he => h _ (List.of_mem_zip he).2

theorem Entries.Avoid.ofTable {t : Table Value} (h : Table.Avoid hidden t) :
    Entries.Avoid hidden (.ofTable t) := by
  intro e he
  obtain ⟨x, hx, rfl⟩ := List.mem_map.mp he
  exact ⟨Value.avoids_of_mentions_nil rfl, h x hx⟩

theorem Entries.Avoid.get? {entries : Entries} (h : Entries.Avoid hidden entries) {key v : Value}
    (hv : entries.get? key = some v) : v.Avoids hidden := by
  induction entries with
  | nil => cases hv
  | cons e rest ih =>
    rw [Entries.get?] at hv
    split at hv
    · cases hv
      exact (h e List.mem_cons_self).2
    · exact ih (fun x hx => h x (List.mem_cons_of_mem _ hx)) hv

theorem Entries.Avoid.put {entries : Entries} (h : Entries.Avoid hidden entries) {key v : Value}
    (hkey : key.Avoids hidden) (hv : v.Avoids hidden) :
    Entries.Avoid hidden (entries.put key v) := by
  induction entries with
  | nil => simpa [Entries.put, Entries.Avoid] using ⟨hkey, hv⟩
  | cons e rest ih =>
    have hrest := ih fun x hx => h x (List.mem_cons_of_mem _ hx)
    have he := h e List.mem_cons_self
    rw [Entries.put]
    split
    · intro x hx
      rcases List.mem_cons.mp hx with rfl | hx
      · exact ⟨he.1, hv⟩
      · exact h x (List.mem_cons_of_mem _ hx)
    · intro x hx
      rcases List.mem_cons.mp hx with rfl | hx
      · exact he
      · exact hrest x hx

theorem Entries.Avoid.putAt {entries : Entries} (h : Entries.Avoid hidden entries) (i : ℕ)
    {key v : Value} (hkey : key.Avoids hidden) (hv : v.Avoids hidden) :
    Entries.Avoid hidden (entries.putAt i key v) := by
  rw [Entries.putAt]
  split
  · intro x hx
    rcases List.mem_or_eq_of_mem_set hx with hx | rfl
    · exact h x hx
    · exact ⟨hkey, hv⟩
  · exact h.put hkey hv

theorem Entries.Avoid.erase {entries : Entries} (h : Entries.Avoid hidden entries) (key : Value) :
    Entries.Avoid hidden (entries.erase key) := fun e he => h e (List.mem_of_mem_filter he)

end Avoids

/-! ### Nothing hidden -/

section None

theorem Value.avoids_none (v : Value) : v.Avoids fun _ => False := fun _ _ => id

theorem Table.avoid_none (t : Table Value) : Table.Avoid (fun _ => False) t :=
  fun e _ => e.2.avoids_none

theorem Computation.avoids_none : ∀ c : Computation, c.Avoids fun _ => False
  | .expr _ scope _ => Table.avoid_none scope
  | .call callee => callee.avoids_none
  | .constant _ | .variant _ => trivial
  | .dispatch _ _ => fun v _ => v.avoids_none

theorem Task.avoids_none : ∀ task : Task, task.Avoids fun _ => False
  | .eval scope _ | .action scope _ => Table.avoid_none scope
  | .pattern _ | .row _ | .settle _ => trivial
  | .call callee _ => ⟨callee.avoids_none, fun v _ => v.avoids_none⟩
  | .dispatch _ _ => fun v _ => v.avoids_none
  | .handle h b => ⟨h.action.avoids_none, Table.avoid_none b⟩
  | .resolve _ => id
  | .force _ v => v.avoids_none

theorem Env.avoids_none (env : Env) : env.Avoids fun _ => False where
  globals := Table.avoid_none _
  phrases := fun _ _ _ _ => id

/-- Nothing in a store mentions a hidden deferred value when none is hidden. -/
theorem Store.avoids_none (s : Store) : s.Avoids fun _ => False where
  records := fun _ _ e _ => ⟨e.1.avoids_none, e.2.avoids_none⟩
  thunks := by
    intro t c _ _
    cases c with
    | pending c => exact c.avoids_none
    | running c => exact c.avoids_none
    | resolved v => exact v.avoids_none
  functions := fun _ _ row _ => row.action.action.avoids_none
  closures := fun c _ => ⟨fun _ _ v _ => v.avoids_none, Table.avoid_none c.scope⟩

end None

/-! ### Reading a store -/

namespace Store.Avoids

variable {hidden : ThunkRef → Prop} {s : Store}

theorem entries (h : s.Avoids hidden) (r : RecordRef) : Entries.Avoid hidden (s.entries r) := by
  rw [Store.entries]
  cases hr : s.records[r.index]? with
  | none => intro e he; cases he
  | some e => exact h.records e (Array.mem_of_getElem? hr)

theorem cell (h : s.Avoids hidden) {t : ThunkRef} (ht : ¬ hidden t) :
    (s.cell t).Avoids hidden := by
  rw [Store.cell]
  cases hc : s.thunks[t.index]? with
  | none => trivial
  | some c => exact h.thunks t c ht hc

theorem function (h : s.Avoids hidden) (f : FunctionRef) : (s.function f).Avoids hidden := by
  rw [Store.function]
  cases hf : s.functions[f.index]? with
  | none => intro row hrow; cases hrow
  | some f => exact h.functions f (Array.mem_of_getElem? hf)

theorem closure (h : s.Avoids hidden) (c : ClosureRef) : (s.closure c).Avoids hidden := by
  rw [Store.closure]
  cases hc : s.closures[c.index]? with
  | none =>
    constructor
    · intro p hp; cases hp
    · intro e he; cases he
  | some c => exact h.closures c (Array.mem_of_getElem? hc)

theorem field? (h : s.Avoids hidden) {r : RecordRef} {name : String} {v : Value}
    (hv : s.field? r name = some v) : v.Avoids hidden := (h.entries r).get? hv

theorem tag (h : s.Avoids hidden) (v : Value) : (s.tag v).Avoids hidden := by
  cases v with
  | record r =>
    rw [Store.tag]
    cases hv : s.field? r "" with
    | none => exact Value.avoids_of_mentions_nil rfl
    | some v => exact h.field? hv
  | _ => exact Value.avoids_of_mentions_nil rfl

theorem elements? (h : s.Avoids hidden) {v : Value} (hv : v.Avoids hidden) {items : List Value}
    (hitems : s.elements? v = some items) : ∀ item ∈ items, item.Avoids hidden := by
  cases v <;> cases hitems
  case text =>
    intro item hitem
    obtain ⟨c, -, rfl⟩ := List.mem_map.mp hitem
    exact Value.avoids_of_mentions_nil rfl
  case list => exact Value.avoids_list.mp hv
  case tuple => exact Value.avoids_tuple.mp hv
  case record r =>
    intro item hitem
    obtain ⟨e, he, rfl⟩ := List.mem_map.mp hitem
    exact (h.entries r e he).1

theorem index (h : s.Avoids hidden) {v key w : Value} (hv : v.Avoids hidden)
    (hkey : key.Avoids hidden) (hw : s.index v key = .ok w) : w.Avoids hidden := by
  rw [Store.index.eq_def] at hw
  split at hw
  · cases hw
    exact Value.avoids_noted.mpr (Value.avoids_tuple.mp hkey)
  · cases hw
    simpa using hkey
  · split at hw
    · split at hw
      · cases hw
        exact (h.entries _).get? ‹_›
      · cases hw
    · cases hw
  · split at hw
    · split at hw
      · cases hw
        rename_i items i hitems hi u hu
        obtain ⟨n, -, hn⟩ := Option.bind_eq_some_iff.mp hu
        exact h.elements? hv hitems _ (List.mem_of_getElem? hn)
      · cases hw
    · cases hw

theorem variant? (h : s.Avoids hidden) {d : DatatypeRef} {name v : Value}
    (hname : name.Avoids hidden) (hv : s.variant? d name = .ok (some v)) : v.Avoids hidden := by
  rw [Store.variant?] at hv
  split at hv
  · cases hv
  · rename_i values hvalues
    split at hv
    · cases hv
      exact h.index (h.field? hvalues) hname ‹_›
    · cases hv
    · cases hv

theorem member (h : s.Avoids hidden) {d : DatatypeRef} {name : String} {v : Value}
    (hv : s.member d name = .ok v) : v.Avoids hidden := by
  rw [Store.member] at hv
  split at hv
  · cases hv
    exact h.field? ‹_›
  · obtain ⟨o, ho, hv⟩ := bind_eq_ok.mp hv
    cases o with
    | none => cases hv
    | some w =>
      cases hv
      exact h.variant? (Value.avoids_of_mentions_nil rfl) ho

theorem nameOf (h : s.Avoids hidden) {v name : Value} (hname : s.nameOf v = .ok name) :
    name.Avoids hidden := by
  rw [Store.nameOf.eq_def] at hname
  split at hname
  · cases hname
    exact Value.avoids_of_mentions_nil rfl
  · cases hname
    exact Value.avoids_of_mentions_nil rfl
  · cases hname
    exact Value.avoids_of_mentions_nil rfl
  · exact h.member hname
  · cases hname

/-! ### Changing a store -/

/-- A change that leaves records, deferred values, functions and closures alone does not matter. -/
theorem congr (h : s.Avoids hidden) {s' : Store} (hrecords : s'.records = s.records)
    (hthunks : s'.thunks = s.thunks) (hfunctions : s'.functions = s.functions)
    (hclosures : s'.closures = s.closures) : s'.Avoids hidden where
  records := hrecords ▸ h.records
  thunks := hthunks ▸ h.thunks
  functions := hfunctions ▸ h.functions
  closures := hclosures ▸ h.closures

theorem pushRecord (h : s.Avoids hidden) {e : Entries} (he : Entries.Avoid hidden e) :
    { s with records := s.records.push e }.Avoids hidden where
  records := fun x hx => (Array.mem_push.mp hx).elim (h.records x) fun hx => hx ▸ he
  thunks := h.thunks
  functions := h.functions
  closures := h.closures

theorem setEntries (h : s.Avoids hidden) (r : RecordRef) {e : Entries}
    (he : Entries.Avoid hidden e) : (s.setEntries r e).Avoids hidden where
  records := fun x hx => by
    rcases Array.mem_or_eq_of_mem_setIfInBounds hx with hx | rfl
    · exact h.records x hx
    · exact he
  thunks := h.thunks
  functions := h.functions
  closures := h.closures

theorem pushThunk (h : s.Avoids hidden) {c : Computation} (hc : c.Avoids hidden) :
    { s with thunks := s.thunks.push (.pending c) }.Avoids hidden where
  records := h.records
  thunks := by
    intro t x ht hx
    rw [Array.getElem?_push] at hx
    split at hx
    · cases hx
      exact hc
    · exact h.thunks t x ht hx
  functions := h.functions
  closures := h.closures

theorem pushClosure (h : s.Avoids hidden) {c : Closure} (hc : c.Avoids hidden) :
    { s with closures := s.closures.push c }.Avoids hidden where
  records := h.records
  thunks := h.thunks
  functions := h.functions
  closures := fun x hx => (Array.mem_push.mp hx).elim (h.closures x) fun hx => hx ▸ hc

theorem setCell (h : s.Avoids hidden) (t : ThunkRef) {c : Cell} (hc : c.Avoids hidden) :
    (s.setCell t c).Avoids hidden where
  records := h.records
  thunks := by
    intro u x hu hx
    rw [Store.setCell, Array.getElem?_setIfInBounds] at hx
    split at hx
    · split at hx
      · cases hx
        exact hc
      · cases hx
    · exact h.thunks u x hu hx
  functions := h.functions
  closures := h.closures

end Store.Avoids

/-! ### States of hidden deferred values -/

/-- Whether states of deferred values differ for hidden ones only, which may also be missing. -/
def SameOff (hidden : ThunkRef → Prop) (cells cells' : Array Cell) : Prop :=
  ∀ t : ThunkRef, ¬ hidden t → cells'[t.index]? = cells[t.index]?

/-- The store with other states of deferred values and another log. -/
def Store.recast (s : Store) (cells : Array Cell) (log : Array Value) : Store :=
  { s with thunks := cells, log := log }

/-- The store with another log. -/
def Store.withLog (s : Store) (log : Array Value) : Store := { s with log := log }

section Recast

variable {hidden : ThunkRef → Prop} {s : Store} {cells : Array Cell}

theorem SameOff.refl (hidden : ThunkRef → Prop) (cells : Array Cell) : SameOff hidden cells cells :=
  fun _ _ => rfl

theorem Store.cell_recast (hcells : SameOff hidden s.thunks cells) (log : Array Value)
    {t : ThunkRef} (ht : ¬ hidden t) : (s.recast cells log).cell t = s.cell t := by
  simp only [Store.cell, Store.recast, hcells t ht]

/-- Equality looks at records only. -/
theorem Store.equal?_congr {s s' : Store} (h : s'.records = s.records) : s'.equal? = s.equal? := by
  have hentries : s'.entries = s.entries := funext fun r => by rw [Store.entries, Store.entries, h]
  have hto : ∀ depth, s'.equalTo depth = s.equalTo depth := by
    intro depth
    induction depth with
    | zero => rfl
    | succ depth ih =>
      funext outer
      simp only [Store.equalTo, ih, hentries]
  funext a b
  rw [Store.equal?, Store.equal?, hto, h]

/-- Equality does not look at deferred values. -/
theorem Store.equal?_recast (s : Store) (cells : Array Cell) (log : Array Value) (a b : Value) :
    (s.recast cells log).equal? a b = s.equal? a b := by
  have hrecords : (s.recast cells log).records = s.records := rfl
  rw [Store.equal?_congr hrecords]

/-! ### Text -/

mutual

/-- The text of a value depends on the store by its functions and the hooks only. -/
theorem Store.writtenWith_congr {s s' : Store} (h : s'.functions = s.functions)
    (hooks : Written.Hooks) :
    ∀ (outer : List Mark) (v : Value), s'.writtenWith hooks outer v = s.writtenWith hooks outer v
  | outer, .list stamp items => by
    simp only [Store.writtenWith, Store.writtenAllWith_congr h hooks _ items]
  | outer, .tuple stamp items => by
    simp only [Store.writtenWith, Store.writtenAllWith_congr h hooks _ items]
  | outer, .noted _ [] => rfl
  | outer, .noted _ (key :: keys) => by
    simp only [Store.writtenWith, Store.writtenNotesWith_congr h hooks _ (key :: keys)]
  | outer, .phrase p => by simp only [Store.writtenWith, Store.writtenPhraseWith_congr h hooks _ p]
  | outer, .function f => by simp only [Store.writtenWith, Store.function, h]
  | outer, .null | outer, .bool _ | outer, .int _ | outer, .float _ _ | outer, .text _
  | outer, .record _ | outer, .thunk _ | outer, .constructor _ | outer, .closure _
  | outer, .datatype _ | outer, .operation _ _ _ | outer, .visit _ | outer, .kind _
  | outer, .rebuilder _ | outer, .object _ | outer, .undecided => by simp only [Store.writtenWith]

theorem Store.writtenAllWith_congr {s s' : Store} (h : s'.functions = s.functions)
    (hooks : Written.Hooks) : ∀ (outer : List Mark) (vs : List Value),
      s'.writtenAllWith hooks outer vs = s.writtenAllWith hooks outer vs
  | outer, [] => rfl
  | outer, v :: rest => by
    simp only [Store.writtenAllWith, Store.writtenWith_congr h hooks outer v,
      Store.writtenAllWith_congr h hooks outer rest]

theorem Store.writtenNotesWith_congr {s s' : Store} (h : s'.functions = s.functions)
    (hooks : Written.Hooks) : ∀ (outer : List Mark) (vs : List Value),
      s'.writtenNotesWith hooks outer vs = s.writtenNotesWith hooks outer vs
  | outer, [] => rfl
  | outer, v :: rest => by
    simp only [Store.writtenNotesWith, Store.writtenWith_congr h hooks outer v,
      Store.writtenNotesWith_congr h hooks outer rest]

theorem Store.writtenPhraseWith_congr {s s' : Store} (h : s'.functions = s.functions)
    (hooks : Written.Hooks) : ∀ (outer : List Mark) (p : Phrase),
      s'.writtenPhraseWith hooks outer p = s.writtenPhraseWith hooks outer p
  | outer, .literal _ v | outer, .defer _ v => by
    simp only [Store.writtenPhraseWith, Store.writtenWith_congr h hooks outer v]
  | outer, .name _ _ | outer, .compound _ _ _ | outer, .named _ _ _ | outer, .either _ _
  | outer, .row (.mk _ _) | outer, .group _ _ _ | outer, .otherwise => by
    simp only [Store.writtenPhraseWith]

end

/-- Running text tells the states of the deferred values that are mentioned. -/
theorem Store.shownWith_recast (hcells : SameOff hidden s.thunks cells) (log : Array Value)
    (write : Value → Written) {v : Value} (hv : v.Avoids hidden) :
    (s.recast cells log).shownWith write v = s.shownWith write v := by
  cases v with
  | thunk t =>
    rw [Store.shownWith, Store.shownWith, Store.cell_recast hcells log (Value.avoids_thunk.mp hv)]
    rfl
  | _ => rfl

theorem Store.titleWith_recast (h : s.Avoids hidden) (hcells : SameOff hidden s.thunks cells)
    (log : Array Value) (write : Value → Written) (d : DatatypeRef) :
    (s.recast cells log).titleWith write d = s.titleWith write d := by
  have hmember : (s.recast cells log).member d "name" = s.member d "name" := rfl
  rw [Store.titleWith.eq_def, Store.titleWith.eq_def, hmember]
  split
  · rfl
  · rename_i word hword
    exact Store.shownWith_recast hcells log write
      (Value.avoids_tuple.mp (h.member hword) word List.mem_cons_self)
  · rfl
  · rename_i word hword
    exact Store.shownWith_recast hcells log write (h.member hword)

theorem Store.writtenTo_recast (h : s.Avoids hidden) (hcells : SameOff hidden s.thunks cells)
    (log : Array Value) (depth : ℕ) : (s.recast cells log).writtenTo depth = s.writtenTo depth := by
  have hfunctions : (s.recast cells log).functions = s.functions := rfl
  induction depth with
  | zero =>
    funext outer v
    exact Store.writtenWith_congr hfunctions _ outer v
  | succ depth ih =>
    funext outer v
    simp only [Store.writtenTo, ih, Store.titleWith_recast h hcells log]
    exact Store.writtenWith_congr hfunctions _ outer v

theorem Store.written_recast (h : s.Avoids hidden) (hcells : SameOff hidden s.thunks cells)
    (log : Array Value) : (s.recast cells log).written = s.written := by
  funext v
  exact congrFun (congrFun (Store.writtenTo_recast h hcells log _) _) v

theorem Store.shown_recast (h : s.Avoids hidden) (hcells : SameOff hidden s.thunks cells)
    (log : Array Value) {v : Value} (hv : v.Avoids hidden) :
    (s.recast cells log).shown v = s.shown v := by
  rw [Store.shown, Store.shown, Store.written_recast h hcells,
    Store.shownWith_recast hcells log _ hv]

theorem Store.title_recast (h : s.Avoids hidden) (hcells : SameOff hidden s.thunks cells)
    (log : Array Value) (d : DatatypeRef) : (s.recast cells log).title d = s.title d := by
  rw [Store.title, Store.title, Store.written_recast h hcells, Store.titleWith_recast h hcells]

theorem Store.follow_recast (h : s.Avoids hidden) (hcells : SameOff hidden s.thunks cells)
    (log : Array Value) (fuel : ℕ) : ∀ (passed : List ThunkRef) {v : Value}, v.Avoids hidden →
      (s.recast cells log).follow fuel passed v = s.follow fuel passed v := by
  induction fuel with
  | zero => intro passed v _; cases v <;> rfl
  | succ fuel ih =>
    intro passed v hv
    cases v with
    | thunk t =>
      have ht := Value.avoids_thunk.mp hv
      rw [Store.follow, Store.follow, Store.cell_recast hcells log ht]
      have hcell := h.cell ht
      split
      · rfl
      · split
        · rename_i w hw
          rw [hw] at hcell
          exact ih _ hcell
        · rfl
    | _ => rfl

section Follow

variable {v : Value} {passed : List ThunkRef}

theorem follow_of_not_isDeferred (hv : v.isDeferred = false) (n : ℕ) (passed : List ThunkRef) :
    s.follow n passed v = v := by
  cases v with
  | thunk t => cases hv
  | _ => cases n <;> rfl

theorem ThunkRef.index_injective : Function.Injective ThunkRef.index := by
  rintro ⟨i⟩ ⟨j⟩ rfl
  rfl

/-- Distinct deferred values are no more than there are. -/
theorem length_le_size (hnodup : passed.Nodup) (hin : ∀ t ∈ passed, t.index < s.thunks.size) :
    passed.length ≤ s.thunks.size := by
  have hindices := hnodup.map ThunkRef.index_injective
  have hsub : passed.map ThunkRef.index ⊆ List.range s.thunks.size := by
    intro i hi
    obtain ⟨t, ht, rfl⟩ := List.mem_map.mp hi
    exact List.mem_range.mpr (hin t ht)
  simpa using (hindices.subperm hsub).length_le

/-- It makes no difference through how many layers one may look, if they are more than are left. -/
theorem follow_of_lt {n m : ℕ} (hnodup : passed.Nodup)
    (hin : ∀ t ∈ passed, t.index < s.thunks.size) (hn : s.thunks.size < n + passed.length)
    (hle : n ≤ m) : s.follow m passed v = s.follow n passed v := by
  induction n generalizing m passed v with
  | zero =>
    have hlength := length_le_size hnodup hin
    omega
  | succ n ih =>
    obtain ⟨m, rfl⟩ : ∃ k, m = k + 1 := ⟨m - 1, by omega⟩
    cases v with
    | thunk t =>
      rw [Store.follow, Store.follow]
      by_cases ht : t ∈ passed
      · rw [if_pos ht, if_pos ht]
      rw [if_neg ht, if_neg ht]
      cases hcell : s.cell t with
      | resolved w =>
        exact ih (List.nodup_cons.mpr ⟨ht, hnodup⟩)
          (List.forall_mem_cons.mpr ⟨Store.lt_of_cell_resolved hcell, hin⟩)
          (by simp only [List.length_cons]; omega) (Nat.le_of_succ_le_succ hle)
      | _ => rfl
    | _ => rfl

end Follow

theorem Store.summary_recast (h : s.Avoids hidden) (hcells : SameOff hidden s.thunks cells)
    (log : Array Value) {v : Value} (hv : v.Avoids hidden) :
    (s.recast cells log).summary v = s.summary v := by
  have henough : ∀ (s : Store) (m : ℕ), s.thunks.size + 1 ≤ m →
      s.follow m [] v = s.follow (s.thunks.size + 1) [] v :=
    fun s m hm => follow_of_lt List.nodup_nil (by simp) (by simp) hm
  have hfollow : (s.recast cells log).follow ((s.recast cells log).thunks.size + 1) [] v =
      s.follow (s.thunks.size + 1) [] v := by
    rw [← henough s _ (Nat.le_max_left _ ((s.recast cells log).thunks.size + 1)),
      ← henough (s.recast cells log) _ (Nat.le_max_right (s.thunks.size + 1) _),
      Store.follow_recast h hcells log _ _ hv]
  rw [Store.summary, Store.summary, hfollow, Store.written_recast h hcells]
  rfl

theorem Store.noMatch_recast (h : s.Avoids hidden) (hcells : SameOff hidden s.thunks cells)
    (log : Array Value) (function : String) {values : List Value}
    (hvalues : ∀ v ∈ values, v.Avoids hidden) :
    (s.recast cells log).noMatch function values = s.noMatch function values := by
  have hsummaries : values.mapM (s.recast cells log).summary = values.mapM s.summary := by
    induction values with
    | nil => rfl
    | cons v rest ih =>
      rw [List.mapM_cons, List.mapM_cons,
        Store.summary_recast h hcells log (hvalues v List.mem_cons_self),
        ih fun w hw => hvalues w (List.mem_cons_of_mem _ hw)]
  rw [Store.noMatch, Store.noMatch, hsummaries]

end Recast

end LazyMatch
