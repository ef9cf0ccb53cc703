import LazyMatch.Proofs.Tree

/-!
# Constructor terms

A term applies constructors to terms, down to atoms. A registry builds it with its own factories and
constants: each constant has one value, made beforehand, and each factory makes a new record. The
tree of a term does not depend on which constructors are lazy, and what a registry builds of the
term represents that tree.

* `Term.build` builds a term from the values of the constructors, `Registry.construct` makes those
  and then builds terms;
* `Term.tree` is the tree of a term, the same in a registry and in its erasure (`Term.tree_erase`);
* `outcome_construct`: what is built represents the trees of the terms.
-/

namespace LazyMatch

/-- Constructors, by name, applied to terms; or an atom. -/
inductive Term where
  | atom (v : Value)
  | node (name : String) (args : List Term)

mutual

/-- Whether every constructor is applied to as many terms as it has fields, down to atoms. -/
def Term.isWellFormed (r : Registry) : Term → Bool
  | .atom v => v.isAtom
  | .node name args =>
    (r.constructors.get? name).any (fun c => args.length = c.fields.length) &&
      Term.areWellFormed r args

/-- Whether this holds of several terms. -/
def Term.areWellFormed (r : Registry) : List Term → Bool
  | [] => true
  | t :: rest => t.isWellFormed r && Term.areWellFormed r rest

end

/-- Whether a term applies a constructor. -/
def Term.isNode : Term → Bool
  | .atom _ => false
  | .node _ _ => true

/-- The values of all constructors, by name: a factory is its own value. -/
def Registry.makeValues (r : Registry) : Run (Table Value) :=
  r.constructors.mapM fun e => return (e.1, ← e.2.make)

mutual

/-- Build a term, its arguments first. -/
def Term.build (values : Table Value) : Term → Run Value
  | .atom v => return v
  | .node name args => do
    let args ← Term.buildAll values args
    match values.get? name with
    | some (.constructor c) => c.build args
    | some v => return v
    | none => raise .unboundName

/-- Build terms from left to right. -/
def Term.buildAll (values : Table Value) : List Term → Run (List Value)
  | [] => return []
  | t :: rest => do
    let v ← t.build values
    return v :: (← Term.buildAll values rest)

end

/-- Make the values of the constructors, then build terms from them. -/
def Registry.construct (r : Registry) (terms : List Term) : Run (List Value) := do
  Term.buildAll (← r.makeValues) terms

/-! ### Trees of terms -/

/-- The entries of what a constructor makes of trees. -/
def Constructor.trees (c : Constructor) (args : List Tree) : Table Tree :=
  Table.put (Table.ofList (c.fields.zip args)) "" (.atom (.text c.key))

mutual

/-- The tree that a term stands for. -/
def Term.tree (r : Registry) : Term → Tree
  | .atom v => .atom v
  | .node name args =>
    match r.constructors.get? name with
    | some c => .record (c.trees (Term.treeAll r args))
    | none => .record []

/-- The trees that terms stand for. -/
def Term.treeAll (r : Registry) : List Term → List Tree
  | [] => []
  | t :: rest => t.tree r :: Term.treeAll r rest

end

theorem Term.length_treeAll (r : Registry) (terms : List Term) :
    (Term.treeAll r terms).length = terms.length := by
  induction terms with
  | nil => rfl
  | cons t terms ih => rw [Term.treeAll, List.length_cons, List.length_cons, ih]

theorem Registry.get?_constructors_erase (r : Registry) (name : String) :
    r.erase.constructors.get? name = (r.constructors.get? name).map Constructor.erase :=
  Table.get?_map _ _ _

mutual

/-- Laziness makes no difference to the tree of a term. -/
theorem Term.tree_erase (r : Registry) : ∀ t : Term, t.tree r.erase = t.tree r
  | .atom _ => rfl
  | .node name args => by
    rw [Term.tree, Term.tree, Registry.get?_constructors_erase, Term.treeAll_erase r args]
    cases r.constructors.get? name <;> rfl

theorem Term.treeAll_erase (r : Registry) :
    ∀ terms : List Term, Term.treeAll r.erase terms = Term.treeAll r terms
  | [] => rfl
  | t :: rest => by rw [Term.treeAll, Term.treeAll, Term.tree_erase r t, Term.treeAll_erase r rest]

end

mutual

theorem Term.isWellFormed_erase (r : Registry) :
    ∀ t : Term, t.isWellFormed r.erase = t.isWellFormed r
  | .atom _ => rfl
  | .node name args => by
    rw [Term.isWellFormed, Term.isWellFormed, Registry.get?_constructors_erase,
      Term.areWellFormed_erase r args]
    cases r.constructors.get? name <;> rfl

theorem Term.areWellFormed_erase (r : Registry) :
    ∀ terms : List Term, Term.areWellFormed r.erase terms = Term.areWellFormed r terms
  | [] => rfl
  | t :: rest => by
    rw [Term.areWellFormed, Term.areWellFormed, Term.isWellFormed_erase r t,
      Term.areWellFormed_erase r rest]

end

theorem Constructor.makes_trees (c : Constructor) {args : List Tree}
    (h : args.length = c.fields.length) : c.Makes (c.trees args) where
  nodup := Table.nodup_put (Table.nodup_ofList _) _ _
  tag := Table.get?_put_self _ _ _
  fields := by
    intro f hf
    rw [Table.isSome_get?_iff, Constructor.trees, Table.mem_names_put]
    refine .inr (Table.mem_names_foldl_put (.inr ?_))
    rwa [List.map_fst_zip (Nat.le_of_eq h.symm)]

/-! ### Making records -/

section Build

variable {reg : Registry} {s : Store}

/-- A store with one more record. -/
def Store.withRecord (s : Store) (e : Entries) : Store := { s with records := s.records.push e }

/-- A store with one more deferred value. -/
def Store.withThunk (s : Store) (c : Computation) : Store :=
  { s with thunks := s.thunks.push (.pending c) }

theorem Store.entries_withRecord (s : Store) (e : Entries) :
    (s.withRecord e).entries ⟨s.records.size⟩ = e := by
  simp [Store.entries, Store.withRecord]

theorem Store.cell_withThunk (s : Store) (c : Computation) :
    (s.withThunk c).cell ⟨s.thunks.size⟩ = .pending c := by
  simp [Store.cell, Store.withThunk]

theorem advances_withRecord (s : Store) (e : Entries) : s.Advances (s.withRecord e) where
  size := by simp [Store.withRecord]
  defers := fun _ _ h => h
  entries := by
    intro r hr
    have hkept : (s.withRecord e).entries r = s.entries r := by
      simp [Store.entries, Store.withRecord, Array.getElem?_push, Nat.ne_of_lt hr]
    rw [hkept]
    exact List.forall₂_same.mpr fun _ _ => ⟨rfl, .inl rfl⟩

theorem advances_withThunk (s : Store) (c : Computation) : s.Advances (s.withThunk c) where
  size := Nat.le_refl _
  defers := by
    intro t r h
    have hkept : (s.withThunk c).cell t = s.cell t := by
      simp [Store.cell, Store.withThunk, Array.getElem?_push, Nat.ne_of_lt h.lt]
    simpa only [Store.Defers, hkept] using h
  entries := fun _ _ => List.forall₂_same.mpr fun _ _ => ⟨rfl, .inl rfl⟩

/-- The records and the datatypes that a store has stay as they are, and what constructors have
deferred stays so. -/
structure Store.Widens (s s' : Store) : Prop where
  records : ∀ (i : ℕ) (e : Entries), s.records[i]? = some e → s'.records[i]? = some e
  datatypes : ∀ (i : ℕ) (r : RecordRef), s.datatypes[i]? = some r → s'.datatypes[i]? = some r
  defers : ∀ t r, s.Defers t r → s'.Defers t r

theorem Store.Widens.refl (s : Store) : s.Widens s :=
  ⟨fun _ _ h => h, fun _ _ h => h, fun _ _ h => h⟩

theorem Store.Widens.trans {s s' s'' : Store} (h : s.Widens s') (h' : s'.Widens s'') :
    s.Widens s'' :=
  ⟨fun i e he => h'.records i e (h.records i e he),
    fun i r hr => h'.datatypes i r (h.datatypes i r hr),
    fun t r ht => h'.defers t r (h.defers t r ht)⟩

theorem getElem?_push_of_eq_some {α : Type} {xs : Array α} {i : ℕ} {a b : α} (h : xs[i]? = some a) :
    (xs.push b)[i]? = some a := by
  have hi : i < xs.size := (Array.getElem?_eq_some_iff.mp h).1
  rw [Array.getElem?_push, if_neg (Nat.ne_of_lt hi), h]

theorem widens_withRecord (s : Store) (e : Entries) : s.Widens (s.withRecord e) :=
  ⟨fun _ _ h => getElem?_push_of_eq_some h, fun _ _ h => h, (advances_withRecord s e).defers⟩

theorem Tree.RepresentsTable.representsAll {trees : Table Tree} {t : Table Value}
    (h : Tree.RepresentsTable reg s trees t) :
    Tree.RepresentsAll reg s trees (Entries.ofTable t) := by
  induction h with
  | nil => rfl
  | @cons e e' trees t he _ ih =>
    obtain ⟨name, v⟩ := e'
    obtain ⟨rfl, hv⟩ := he
    exact ⟨v, Entries.ofTable t, rfl, hv, ih⟩

/-- What a constructor makes: a new record, which it defers when it is lazy. -/
def Constructor.wrap (c : Constructor) (defer : RecordRef → Computation) (t : Table Value) :
    Run Value := do
  let r ← newRecord (.ofTable t)
  if c.lazy then return .thunk (← newThunk (defer r)) else return .record r

theorem Constructor.outcome_wrap_of_strict {c : Constructor} (h : c.lazy = false)
    (defer : RecordRef → Computation) (t : Table Value) (s : Store) :
    outcome (c.wrap defer t) s = (.ok (.record ⟨s.records.size⟩), s.withRecord (.ofTable t)) := by
  simp only [Constructor.wrap, h]
  rfl

theorem Constructor.outcome_wrap_of_lazy {c : Constructor} (h : c.lazy = true)
    (defer : RecordRef → Computation) (t : Table Value) (s : Store) :
    outcome (c.wrap defer t) s = (.ok (.thunk ⟨s.thunks.size⟩),
      (s.withRecord (.ofTable t)).withThunk (defer ⟨s.records.size⟩)) := by
  simp only [Constructor.wrap, h]
  rfl

theorem outcome_wrap {c : Constructor} (hc : reg.Declares c) {trees : Table Tree}
    {t : Table Value} (hmakes : c.Makes trees) (h : Tree.RepresentsTable reg s trees t)
    {d : RecordRef → Computation}
    (hdefer : ∀ r, d r = .constant r ∨ d r = .variant r) :
    ∃ v s', outcome (c.wrap d t) s = (.ok v, s') ∧ s.Advances s' ∧
      (Tree.record trees).Represents reg s' v := by
  have hs₁ := advances_withRecord s (.ofTable t)
  have hall : Tree.RepresentsAll reg (s.withRecord (.ofTable t)) trees
      ((s.withRecord (.ofTable t)).entries ⟨s.records.size⟩) := by
    rw [s.entries_withRecord]
    exact (h.mono hs₁).representsAll
  have hr : s.records.size < (s.withRecord (.ofTable t)).records.size := by simp [Store.withRecord]
  cases hlazy : c.lazy with
  | false =>
    exact ⟨.record ⟨s.records.size⟩, _, c.outcome_wrap_of_strict hlazy d t s, hs₁,
      c, ⟨s.records.size⟩, hc, hmakes, hr, .inl rfl, hall⟩
  | true =>
    have hs₂ := advances_withThunk (s.withRecord (.ofTable t)) (d ⟨s.records.size⟩)
    have hdefers : ((s.withRecord (.ofTable t)).withThunk (d ⟨s.records.size⟩)).Defers
        ⟨s.thunks.size⟩ ⟨s.records.size⟩ := by
      have hcell := (s.withRecord (.ofTable t)).cell_withThunk (d ⟨s.records.size⟩)
      rcases hdefer ⟨s.records.size⟩ with hk | hk
      · exact .inl (hk ▸ hcell)
      · exact .inr (.inl (hk ▸ hcell))
    exact ⟨.thunk ⟨s.thunks.size⟩, _, c.outcome_wrap_of_lazy hlazy d t s, hs₁.trans hs₂, c,
      ⟨s.records.size⟩, hc, hmakes, hr, .inr ⟨hlazy, _, rfl, hdefers⟩,
      hall.mono hs₂ (hs₂.entries _ hr)⟩

/-- What the value of a constructor is: a factory itself, or what represents the constant. -/
def Constructor.HasValue (reg : Registry) (s : Store) (c : Constructor) (v : Value) : Prop :=
  (c.isConstant = false ∧ v = .constructor c) ∨
    (c.isConstant = true ∧ (Tree.record (c.trees [])).Represents reg s v)

theorem Constructor.fields_of_isConstant {c : Constructor} (h : c.isConstant = true) :
    c.fields = [] := by
  obtain ⟨_, _, _, shape⟩ := c
  cases shape with
  | constant => rfl
  | factory fields => cases h

theorem Constructor.make_of_isConstant {c : Constructor} (h : c.isConstant = true) :
    c.make = c.wrap .constant [("", .text c.key)] := by
  obtain ⟨_, _, _, shape⟩ := c
  cases shape with
  | constant => rfl
  | factory fields => cases h

theorem Constructor.make_of_not_isConstant {c : Constructor} (h : c.isConstant = false) :
    c.make = pure (.constructor c) := by
  obtain ⟨_, _, _, shape⟩ := c
  cases shape with
  | constant => cases h
  | factory fields => rfl

theorem Constructor.build_eq_wrap {c : Constructor} {args : List Value}
    (h : args.length = c.fields.length) :
    c.build args =
      c.wrap .variant (Table.put (Table.ofList (c.fields.zip args)) "" (.text c.key)) := by
  rw [Constructor.build, if_pos h]
  rfl

/-- Whether a value is that of a constant: a record without fields, deferred when the constant is
lazy. -/
def Store.HoldsConstant (s : Store) (c : Constructor) (v : Value) : Prop :=
  ∃ r : RecordRef, r.index < s.records.size ∧ s.entries r = c.entries [] ∧
    if c.lazy then ∃ t, v = .thunk t ∧ s.Defers t r else v = .record r

theorem Store.HoldsConstant.mono {s s' : Store} (hs : s.Widens s') {c : Constructor} {v : Value}
    (h : s.HoldsConstant c v) : s'.HoldsConstant c v := by
  obtain ⟨r, hr, hentries, hv⟩ := h
  have hthere := hs.records _ _ (Store.getElem?_records hr)
  refine ⟨r, (Array.getElem?_eq_some_iff.mp hthere).1, ?_, ?_⟩
  · rw [Store.entries, hthere, Option.getD_some, hentries]
  · cases hlazy : c.lazy with
    | false => simpa [hlazy] using hv
    | true =>
      simp only [hlazy, if_true] at hv ⊢
      obtain ⟨t, rfl, ht⟩ := hv
      exact ⟨t, rfl, hs.defers t r ht⟩

theorem outcome_make {c : Constructor} (hc : reg.Declares c) (s : Store) :
    ∃ v s', outcome c.make s = (.ok v, s') ∧ s.Advances s' ∧ c.HasValue reg s' v := by
  cases hk : c.isConstant with
  | false =>
    refine ⟨.constructor c, s, ?_, .refl s, .inl ⟨hk, rfl⟩⟩
    rw [Constructor.make_of_not_isConstant hk, outcome_pure]
  | true =>
    have hfields := Constructor.fields_of_isConstant hk
    have htrees : c.trees [] = [("", .atom (.text c.key))] := by
      rw [Constructor.trees, hfields]
      rfl
    have htable : Tree.RepresentsTable reg s (c.trees []) [("", .text c.key)] := by
      rw [htrees]
      exact .cons ⟨rfl, rfl, rfl⟩ .nil
    obtain ⟨v, s', hv, hs, hrep⟩ := outcome_wrap hc (c.makes_trees (by rw [hfields]; rfl)) htable
      (d := .constant) (fun _ => .inl rfl)
    exact ⟨v, s', by rw [Constructor.make_of_isConstant hk, hv], hs, .inr ⟨hk, hrep⟩⟩

/-- Entering what represents trees under the same names. -/
theorem Tree.RepresentsTable.enter {trees entries : Table Tree} {t values : Table Value}
    (h : Tree.RepresentsTable reg s trees t)
    (hentries : Tree.RepresentsTable reg s entries values) :
    Tree.RepresentsTable reg s (entries.foldl (fun t e => Table.put t e.1 e.2) trees)
      (values.foldl (fun t e => Table.put t e.1 e.2) t) := by
  induction hentries generalizing trees t with
  | nil => exact h
  | @cons e e' entries values he _ ih =>
    rw [List.foldl_cons, List.foldl_cons, he.1]
    exact ih (h.put e.1 he.2)

theorem Tree.RepresentsTable.zip {trees : List Tree} {args : List Value}
    (h : List.Forall₂ (fun tree v => tree.Represents reg s v) trees args) (names : List String) :
    Tree.RepresentsTable reg s (names.zip trees) (names.zip args) := by
  induction h generalizing names with
  | nil =>
    rw [List.zip_nil_right, List.zip_nil_right]
    exact .nil
  | cons hv _ ih =>
    cases names with
    | nil => exact .nil
    | cons name names => exact .cons ⟨rfl, hv⟩ (ih names)

/-- What a factory builds of values that represent trees. -/
theorem outcome_build_constructor {c : Constructor} (hc : reg.Declares c) {trees : List Tree}
    {args : List Value} (hargs : List.Forall₂ (fun tree v => tree.Represents reg s v) trees args)
    (hlength : args.length = c.fields.length) :
    ∃ v s', outcome (c.build args) s = (.ok v, s') ∧ s.Advances s' ∧
      (Tree.record (c.trees trees)).Represents reg s' v := by
  have hempty : Tree.RepresentsTable reg s [] [] := .nil
  have hkey : (Tree.atom (.text c.key)).Represents reg s (.text c.key) := ⟨rfl, rfl⟩
  have htable := (hempty.enter (.zip hargs c.fields)).put "" hkey
  obtain ⟨v, s', hv, hs, hrep⟩ := outcome_wrap hc
    (c.makes_trees (hargs.length_eq.trans hlength)) htable (d := .variant) (fun _ => .inr rfl)
  refine ⟨v, s', ?_, hs, hrep⟩
  rw [Constructor.build_eq_wrap hlength]
  exact hv

/-! ### Building terms -/

/-- The values of constructors, by name. -/
def HaveValues (reg : Registry) (s : Store) (constructors : Table Constructor)
    (values : Table Value) : Prop :=
  List.Forall₂ (fun e e' => e'.1 = e.1 ∧ e.2.HasValue reg s e'.2) constructors values

theorem Constructor.HasValue.mono {s' : Store} (hs : s.Advances s') {c : Constructor} {v : Value}
    (h : c.HasValue reg s v) : c.HasValue reg s' v :=
  h.imp_right fun h => ⟨h.1, h.2.mono hs⟩

theorem HaveValues.mono {s' : Store} (hs : s.Advances s') {constructors : Table Constructor}
    {values : Table Value} (h : HaveValues reg s constructors values) :
    HaveValues reg s' constructors values :=
  List.Forall₂.imp (fun _ _ he => ⟨he.1, he.2.mono hs⟩) h

theorem HaveValues.get? {constructors : Table Constructor} {values : Table Value}
    (h : HaveValues reg s constructors values) {name : String} {c : Constructor}
    (hc : constructors.get? name = some c) :
    ∃ v, values.get? name = some v ∧ c.HasValue reg s v := by
  induction h with
  | nil => cases hc
  | @cons e e' constructors values he _ ih =>
    rw [Table.get?] at hc
    by_cases hk : e.1 = name
    · rw [if_pos hk, Option.some.injEq] at hc
      subst hc
      exact ⟨e'.2, by rw [Table.get?, if_pos (he.1.trans hk)], he.2⟩
    · rw [if_neg hk] at hc
      obtain ⟨v, hv, hvalue⟩ := ih hc
      exact ⟨v, by rw [Table.get?, if_neg (he.1 ▸ hk), hv], hvalue⟩

theorem outcome_makeValues {constructors : Table Constructor}
    (hdeclared : ∀ e ∈ constructors, reg.Declares e.2) (s : Store) :
    ∃ values s',
      outcome (constructors.mapM fun e => return (e.1, ← e.2.make)) s = (.ok values, s') ∧
      s.Advances s' ∧ HaveValues reg s' constructors values := by
  induction constructors generalizing s with
  | nil => exact ⟨[], s, rfl, .refl s, .nil⟩
  | cons e constructors ih =>
    obtain ⟨v, s₁, hv, hs₁, hvalue⟩ := outcome_make (hdeclared e List.mem_cons_self) s
    obtain ⟨values, s₂, hvalues, hs₂, hall⟩ :=
      ih (fun e he => hdeclared e (List.mem_cons_of_mem _ he)) s₁
    refine ⟨(e.1, v) :: values, s₂, ?_, hs₁.trans hs₂, .cons ⟨rfl, hvalue.mono hs₂⟩ hall⟩
    rw [List.mapM_cons, bind_assoc, outcome_bind_ok hv, pure_bind, outcome_bind_ok hvalues,
      outcome_pure]

mutual

/-- What is built of a term represents its tree. -/
theorem outcome_build {values : Table Value} :
    ∀ (t : Term), t.isWellFormed reg = true → ∀ {s : Store},
      HaveValues reg s reg.constructors values →
      ∃ v s', outcome (t.build values) s = (.ok v, s') ∧ s.Advances s' ∧
        (t.tree reg).Represents reg s' v
  | .atom v, h, s, _ => ⟨v, s, rfl, .refl s, rfl, h⟩
  | .node name args, h, s, hvalues => by
    rw [Term.isWellFormed, Bool.and_eq_true, Option.any_eq_true] at h
    obtain ⟨⟨c, hc, hlength⟩, hargs⟩ := h
    have hdeclares : reg.Declares c := ⟨name, by rw [Registry.resolve?, hc]⟩
    obtain ⟨vs, s₁, hbuilt, hs₁, hreps⟩ := outcome_buildAll args hargs hvalues
    obtain ⟨v, hv, hvalue⟩ := (hvalues.mono hs₁).get? hc
    rw [Term.build, outcome_bind_ok hbuilt, hv, Term.tree, hc]
    rcases hvalue with ⟨_, rfl⟩ | ⟨hk, hrep⟩
    · have hlength' : vs.length = c.fields.length := by
        rw [← hreps.length_eq, Term.length_treeAll]
        simpa using hlength
      obtain ⟨w, s₂, hw, hs₂, hrep⟩ := outcome_build_constructor hdeclares hreps hlength'
      exact ⟨w, s₂, hw, hs₁.trans hs₂, hrep⟩
    · -- A constant takes no arguments and has its value already.
      obtain rfl : args = [] := by
        rw [Constructor.fields_of_isConstant hk] at hlength
        exact List.eq_nil_of_length_eq_zero (by simpa using hlength)
      refine ⟨v, s₁, ?_, hs₁, hrep⟩
      obtain ⟨_, r, _, _, _, rfl | ⟨_, t, rfl, _⟩, _⟩ := hrep <;> rfl

theorem outcome_buildAll {values : Table Value} :
    ∀ (terms : List Term), Term.areWellFormed reg terms = true → ∀ {s : Store},
      HaveValues reg s reg.constructors values →
      ∃ vs s', outcome (Term.buildAll values terms) s = (.ok vs, s') ∧ s.Advances s' ∧
        List.Forall₂ (fun tree v => tree.Represents reg s' v) (Term.treeAll reg terms) vs
  | [], _, s, _ => ⟨[], s, rfl, .refl s, .nil⟩
  | t :: rest, h, s, hvalues => by
    rw [Term.areWellFormed, Bool.and_eq_true] at h
    obtain ⟨v, s₁, hv, hs₁, hrep⟩ := outcome_build t h.1 hvalues
    obtain ⟨vs, s₂, hvs, hs₂, hreps⟩ := outcome_buildAll rest h.2 (hvalues.mono hs₁)
    refine ⟨v :: vs, s₂, ?_, hs₁.trans hs₂, .cons (hrep.mono hs₂) hreps⟩
    rw [Term.buildAll, outcome_bind_ok hv, outcome_bind_ok hvs, outcome_pure]

end

/-- What a registry builds of well-formed terms represents their trees. -/
theorem outcome_construct (hnames : (Table.names reg.constructors).Nodup) {terms : List Term}
    (h : Term.areWellFormed reg terms = true) (s : Store) :
    ∃ vs s', outcome (reg.construct terms) s = (.ok vs, s') ∧
      List.Forall₂ (fun tree v => tree.Represents reg s' v) (Term.treeAll reg terms) vs := by
  have hdeclared : ∀ e ∈ reg.constructors, reg.Declares e.2 := fun e he =>
    ⟨e.1, by rw [Registry.resolve?, Table.get?_of_mem hnames he]⟩
  obtain ⟨values, s₁, hvalues, _, hall⟩ := outcome_makeValues hdeclared s
  obtain ⟨vs, s₂, hvs, _, hreps⟩ := outcome_buildAll terms h hall
  refine ⟨vs, s₂, ?_, hreps⟩
  rw [Registry.construct, Registry.makeValues, outcome_bind_ok hvalues, hvs]

end Build

end LazyMatch
