import LazyMatch.Proofs.Forcing
import LazyMatch.Proofs.Selection

/-!
# Columns that decide nothing

A cell that is made of wildcards, variables, and names and alternations of these binds what stands
in its place and asks nothing about it. When a whole column is made of such cells, two dispatches
whose arguments differ only there go the same way: they force the same values in the same order and
stop, fail or select a rule together. They differ only in what the cells of the column bind.

* `Phrase.isBlind`: a cell that asks nothing, `Phrase.variables` the names that it binds;
* `AgreeOff`: bindings that differ at most under some names;
* `Alike`: outcomes that differ at most in what is bound; `alike_matches` for one value and two sets
  of bindings, `alike_of_isBlind` for two values;
* `column_independent`: dispatch on arguments that differ in one column.
-/

namespace LazyMatch

/-! ### Cells that ask nothing -/

mutual

/-- Whether a phrase is made of wildcards, variables, escaped names, and names and alternations of
these. -/
def Phrase.isBlind (r : Registry) : Phrase → Bool
  | .name _ text => text = "_" || (r.resolve? text).isNone
  | .defer _ (.phrase (.name _ _)) => true
  | .named _ inner _ => inner.isBlind r
  | .either _ alternatives => Phrase.areBlind r alternatives
  | _ => false

/-- Whether this holds of several phrases. -/
def Phrase.areBlind (r : Registry) : List Phrase → Bool
  | [] => true
  | p :: rest => p.isBlind r && Phrase.areBlind r rest

end

mutual

/-- The names that such a phrase binds. -/
def Phrase.variables : Phrase → List String
  | .name _ text | .defer _ (.phrase (.name _ text)) => if text = "_" then [] else [text]
  | .named _ inner text => text :: inner.variables
  | .either _ alternatives => Phrase.variablesAll alternatives
  | _ => []

/-- The names that several phrases bind. -/
def Phrase.variablesAll : List Phrase → List String
  | [] => []
  | p :: rest => p.variables ++ Phrase.variablesAll rest

end

mutual

/-- Whether a test neither forces nor compares, but only binds. -/
def Test.isBlind : Test → Bool
  | .wild | .bind _ => true
  | .named inner _ => inner.isBlind
  | .either options => Test.areBlind options
  | _ => false

/-- Whether this holds of several tests. -/
def Test.areBlind : List Test → Bool
  | [] => true
  | t :: rest => t.isBlind && Test.areBlind rest

end

mutual

/-- The names that such a test binds. -/
def Test.variables : Test → List String
  | .bind name => [name]
  | .named inner name => name :: inner.variables
  | .either options => Test.variablesAll options
  | _ => []

/-- The names that several tests bind. -/
def Test.variablesAll : List Test → List String
  | [] => []
  | t :: rest => t.variables ++ Test.variablesAll rest

end

theorem Test.areBlind_eq (options : List Test) :
    Test.areBlind options = options.all Test.isBlind := by
  induction options with
  | nil => rfl
  | cons t rest ih => rw [Test.areBlind, List.all_cons, ih]

section Resolved

variable {r : Registry}

theorem blind_ofValue (stamp : ℕ) (text : String) :
    (Test.ofValue (.phrase (.name stamp text))).isBlind = true ∧
      (Test.ofValue (.phrase (.name stamp text))).variables =
        if text = "_" then [] else [text] := by
  by_cases ht : text = "_"
  · simp [Test.ofValue, ht, Test.isBlind, Test.variables]
  · simp [Test.ofValue, ht, Test.isBlind, Test.variables]

mutual

/-- The test of a phrase that asks nothing asks nothing, and binds the same names. -/
theorem blind_of_ofPhrase :
    ∀ (p : Phrase) {q : Pattern}, Pattern.ofPhrase r.resolver p = .ok q → p.isBlind r = true →
      q.test.isBlind = true ∧ q.test.variables = p.variables
  | .name stamp text, q, h, hblind => by
    rcases ofPhrase_name h with ⟨rfl, rfl⟩ | ⟨_, _, rfl⟩ | ⟨c, ht, hc, _⟩ | ⟨c, ht, hc, _⟩
    · exact ⟨rfl, rfl⟩
    · exact blind_ofValue stamp text
    · simp [Phrase.isBlind, ht, hc] at hblind
    · simp [Phrase.isBlind, ht, hc] at hblind
  | .defer stamp (.phrase (.name stamp' text)), q, h, _ => by
    cases h
    exact blind_ofValue stamp' text
  | .named stamp inner name, q, h, hblind => by
    obtain ⟨q', hq', rfl⟩ := map_eq_ok.mp h
    obtain ⟨htest, hvariables⟩ := blind_of_ofPhrase inner hq' hblind
    exact ⟨htest, congrArg (name.text :: ·) hvariables⟩
  | .either stamp alternatives, q, h, hblind => by
    obtain ⟨qs, hqs, rfl⟩ := ofPhrase_either h
    exact blind_of_ofPhrases alternatives hqs hblind

theorem blind_of_ofPhrases :
    ∀ (ps : List Phrase) {qs : List Pattern}, Pattern.ofPhrases r.resolver ps = .ok qs →
      Phrase.areBlind r ps = true →
      Test.areBlind (Pattern.tests qs) = true ∧
        Test.variablesAll (Pattern.tests qs) = Phrase.variablesAll ps
  | [], qs, h, _ => by
    cases h
    exact ⟨rfl, rfl⟩
  | p :: rest, qs, h, hblind => by
    obtain ⟨q, hq, h⟩ := bind_eq_ok.mp h
    obtain ⟨qs', hqs, h⟩ := bind_eq_ok.mp h
    cases h
    obtain ⟨hp, hrest⟩ := Bool.and_eq_true_iff.mp hblind
    obtain ⟨htest, hvariables⟩ := blind_of_ofPhrase p hq hp
    obtain ⟨htests, hall⟩ := blind_of_ofPhrases rest hqs hrest
    exact ⟨Bool.and_eq_true_iff.mpr ⟨htest, htests⟩, congrArg₂ (· ++ ·) hvariables hall⟩

end

end Resolved

/-! ### Outcomes that differ in what is bound -/

/-- Bindings under the same names, with the same values except under some of the names. -/
def AgreeOff (N : String → Prop) (b b' : Bindings) : Prop :=
  List.Forall₂ (fun e e' => e.1 = e'.1 ∧ (¬N e.1 → e.2 = e'.2)) b b'

/-- Outcomes that stop alike, have no answer alike, or have answers in relation, in one store. -/
inductive Alike {α : Type} (R : α → α → Prop) :
    Except Stop (Option α) × Store → Except Stop (Option α) × Store → Prop
  | stop (e : Stop) (s : Store) : Alike R (.error e, s) (.error e, s)
  | nothing (s : Store) : Alike R (.ok none, s) (.ok none, s)
  | answer {a a' : α} (h : R a a') (s : Store) : Alike R (.ok (some a), s) (.ok (some a'), s)

section AgreeOff

variable {N : String → Prop} {b b' : Bindings}

theorem AgreeOff.refl (N : String → Prop) (b : Bindings) : AgreeOff N b b :=
  List.forall₂_same.mpr fun _ _ => ⟨rfl, fun _ => rfl⟩

theorem AgreeOff.names_eq (h : AgreeOff N b b') : Table.names b = Table.names b' := by
  induction h with
  | nil => rfl
  | cons he _ ih =>
    simp only [Table.names, List.map_cons] at ih ⊢
    rw [he.1, ih]

theorem AgreeOff.get?_eq (h : AgreeOff N b b') {name : String} (hname : ¬N name) :
    Table.get? b name = Table.get? b' name := by
  induction h with
  | nil => rfl
  | @cons e e' _ _ he _ ih =>
    obtain ⟨key, v⟩ := e
    obtain ⟨key', v'⟩ := e'
    obtain ⟨rfl, hv⟩ := he
    by_cases hkey : key = name
    · have hvalue : v = v' := hv (hkey ▸ hname)
      simp [Table.get?, hkey, hvalue]
    · simp [Table.get?, hkey, ih]

/-- Writing one value under a name, or any two under a name that is excepted. -/
theorem AgreeOff.put (h : AgreeOff N b b') (name : String) {v v' : Value}
    (hv : ¬N name → v = v') : AgreeOff N (b.put name v) (b'.put name v') := by
  induction h with
  | nil => exact .cons ⟨rfl, hv⟩ .nil
  | @cons e e' _ _ he hrest ih =>
    obtain ⟨key, w⟩ := e
    obtain ⟨key', w'⟩ := e'
    obtain ⟨rfl, hw⟩ := he
    by_cases hkey : key = name
    · simp only [Table.put, hkey, if_true]
      exact .cons ⟨rfl, hv⟩ hrest
    · simp only [Table.put, hkey, if_false]
      exact .cons ⟨rfl, hw⟩ ih

end AgreeOff

section Alike

variable {α β : Type} {R : α → α → Prop} {S : β → β → Prop}

/-- A computation that goes on alike, whichever answer in relation it is given. -/
theorem Alike.bind {x y : Run (Option α)} {f g : Option α → Run (Option β)} {s : Store}
    (h : Alike R (outcome x s) (outcome y s))
    (hnone : ∀ t, Alike S (outcome (f none) t) (outcome (g none) t))
    (hsome : ∀ a a' t, R a a' → Alike S (outcome (f (some a)) t) (outcome (g (some a')) t)) :
    Alike S (outcome (x >>= f) s) (outcome (y >>= g) s) := by
  rw [outcome_bind, outcome_bind]
  rcases hx : outcome x s with ⟨e | o, t⟩ <;> rcases hy : outcome y s with ⟨e' | o', t'⟩ <;>
    rw [hx, hy] at h
  · cases h
    exact .stop _ _
  · cases h
  · cases h
  · cases h with
    | nothing => exact hnone t
    | answer ha => exact hsome _ _ t ha

theorem Alike.store_eq {x y : Except Stop (Option α) × Store} (h : Alike R x y) : x.2 = y.2 := by
  cases h <;> rfl

/-- A first link that is the same in both. -/
theorem Alike.after {γ : Type} {x : Run γ} {f g : γ → Run (Option β)} {s : Store}
    (h : ∀ c t, Alike S (outcome (f c) t) (outcome (g c) t)) :
    Alike S (outcome (x >>= f) s) (outcome (x >>= g) s) := by
  rw [outcome_bind, outcome_bind]
  rcases outcome x s with ⟨e | c, t⟩
  · exact .stop e t
  · exact h c t

end Alike

/-! ### Matching -/

section Matching

variable {force : Value → Run Value} {N : String → Prop}

mutual

/-- Matching one value does not look at the bindings so far. -/
theorem alike_matches :
    ∀ (t : Test) (v : Value) {b b' : Bindings} (s : Store), AgreeOff N b b' →
      Alike (AgreeOff N) (outcome (t.matches force v b) s) (outcome (t.matches force v b') s)
  | .wild, v, b, b', s, h => .answer h s
  | .bind name, v, b, b', s, h => .answer (h.put name fun _ => rfl) s
  | .equal w, v, b, b', s, h => by
    rw [Test.matches, Test.matches]
    refine Alike.after fun t s' => ?_
    rcases t.equal? v w with _ | _ | _
    · exact .stop _ _
    · exact .nothing _
    · exact .answer h _
  | .tag key, v, b, b', s, h => by
    rw [Test.matches, Test.matches]
    refine Alike.after fun t s' => ?_
    cases t.hasTag v key with
    | false => exact .nothing _
    | true => exact .answer h _
  | .fields key subs, v, b, b', s, h => by
    rw [Test.matches, Test.matches]
    refine Alike.after fun t s' => ?_
    cases htag : t.hasTag v key with
    | false => cases v <;> exact .nothing _
    | true =>
      obtain ⟨ρ, rfl⟩ := hasTag_cases htag
      exact alike_matchFields subs ρ s' h
  | .named inner name, v, b, b', s, h => by
    rw [Test.matches, Test.matches]
    exact (alike_matches inner v s h).bind (fun t => .nothing t) fun _ _ t hb =>
      .answer (hb.put name fun _ => rfl) t
  | .either options, v, b, b', s, h => alike_matchFirst options v s h
  | .strict inner, v, b, b', s, h => by
    rw [Test.matches, Test.matches]
    exact Alike.after fun w s' => alike_matches inner w s' h

theorem alike_matchFields :
    ∀ (subs : List (String × Test)) (ρ : RecordRef) {b b' : Bindings} (s : Store), AgreeOff N b b' →
      Alike (AgreeOff N) (outcome (Test.matchFields force subs ρ b) s)
        (outcome (Test.matchFields force subs ρ b') s)
  | [], ρ, b, b', s, h => .answer h s
  | (name, sub) :: rest, ρ, b, b', s, h => by
    rw [Test.matchFields, Test.matchFields]
    refine Alike.after fun t s' => ?_
    cases t.field? ρ name with
    | none => exact .stop _ _
    | some v =>
      exact (alike_matches sub v s' h).bind (fun t => .nothing t) fun _ _ t hb =>
        alike_matchFields rest ρ t hb

theorem alike_matchFirst :
    ∀ (options : List Test) (v : Value) {b b' : Bindings} (s : Store), AgreeOff N b b' →
      Alike (AgreeOff N) (outcome (Test.matchFirst force options v b) s)
        (outcome (Test.matchFirst force options v b') s)
  | [], v, b, b', s, h => .nothing s
  | t :: rest, v, b, b', s, h => by
    rw [Test.matchFirst, Test.matchFirst]
    exact (alike_matches t v s h).bind (fun s' => alike_matchFirst rest v s' h) fun _ _ s' hb =>
      .answer hb s'

end

mutual

/-- Matching a test that asks nothing does not look at the value, but binds it. -/
theorem alike_of_isBlind :
    ∀ (t : Test), t.isBlind = true → (∀ name ∈ t.variables, N name) →
      ∀ (v v' : Value) {b b' : Bindings} (s : Store), AgreeOff N b b' →
        Alike (AgreeOff N) (outcome (t.matches force v b) s) (outcome (t.matches force v' b') s)
  | .wild, _, _, v, v', b, b', s, h => .answer h s
  | .bind name, _, hN, v, v', b, b', s, h =>
    .answer (h.put name fun hname => absurd (hN name List.mem_cons_self) hname) s
  | .named inner name, hblind, hN, v, v', b, b', s, h => by
    obtain ⟨hname, hinner⟩ := List.forall_mem_cons.mp hN
    rw [Test.matches, Test.matches]
    exact (alike_of_isBlind inner hblind hinner v v' s h).bind (fun t => .nothing t) fun _ _ t hb =>
      .answer (hb.put name fun hn => absurd hname hn) t
  | .either options, hblind, hN, v, v', b, b', s, h => alike_of_areBlind options hblind hN v v' s h

theorem alike_of_areBlind :
    ∀ (options : List Test), Test.areBlind options = true →
      (∀ name ∈ Test.variablesAll options, N name) →
      ∀ (v v' : Value) {b b' : Bindings} (s : Store), AgreeOff N b b' →
        Alike (AgreeOff N) (outcome (Test.matchFirst force options v b) s)
          (outcome (Test.matchFirst force options v' b') s)
  | [], _, _, v, v', b, b', s, h => .nothing s
  | t :: rest, hblind, hN, v, v', b, b', s, h => by
    obtain ⟨ht, hrest⟩ := Bool.and_eq_true_iff.mp hblind
    obtain ⟨hNt, hNrest⟩ := List.forall_mem_append.mp hN
    rw [Test.matchFirst, Test.matchFirst]
    exact (alike_of_isBlind t ht hNt v v' s h).bind
      (fun s' => alike_of_areBlind rest hrest hNrest v v' s' h) fun _ _ s' hb => .answer hb s'

end

/-- A row of tests that ask nothing wherever the values differ. -/
theorem alike_matchVector {tests : List Test} {values values' : List Value}
    (hlength : values.length = values'.length)
    (hblind : ∀ k : ℕ, values[k]? ≠ values'[k]? → ∀ t, tests[k]? = some t →
      t.isBlind = true ∧ ∀ name ∈ t.variables, N name)
    {b b' : Bindings} (s : Store) (h : AgreeOff N b b') :
    Alike (AgreeOff N) (outcome (matchVector force tests values b) s)
      (outcome (matchVector force tests values' b') s) := by
  induction tests generalizing values values' b b' s with
  | nil => exact .answer h s
  | cons t tests ih =>
    cases values with
    | nil =>
      obtain rfl := List.eq_nil_of_length_eq_zero hlength.symm
      exact .answer h s
    | cons v values =>
      cases values' with
      | nil => cases hlength
      | cons v' values' =>
        have hfirst : Alike (AgreeOff N) (outcome (t.matches force v b) s)
            (outcome (t.matches force v' b') s) := by
          by_cases hv : v = v'
          · subst hv
            exact alike_matches t v s h
          · obtain ⟨ht, hN⟩ := hblind 0 (by simpa using hv) t rfl
            exact alike_of_isBlind t ht hN v v' s h
        rw [matchVector, matchVector]
        refine hfirst.bind (fun s' => .nothing s') fun _ _ s' hb => ?_
        refine ih (by simpa using hlength) (fun k hk t' ht' => ?_) s' hb
        exact hblind (k + 1) (by simpa using hk) t' ht'

/-- The plain rows of a row test. -/
def RowTest.rows : RowTest → List (List Test)
  | .row tests => [tests]
  | .group alternatives => alternatives
  | .otherwise => []

/-- Whether the tests of a row at a position ask nothing and bind at most these names. -/
def RowTest.BlindAt (N : String → Prop) (k : ℕ) (row : RowTest) : Prop :=
  ∀ tests ∈ row.rows, ∀ t, tests[k]? = some t → t.isBlind = true ∧ ∀ name ∈ t.variables, N name

section Rows

variable {values values' : List Value} (hlength : values.length = values'.length)
include hlength

theorem alike_matchGroup {alternatives : List (List Test)}
    (hblind : ∀ k : ℕ, values[k]? ≠ values'[k]? → (RowTest.group alternatives).BlindAt N k)
    (s : Store) :
    Alike (AgreeOff N) (outcome (matchGroup force values alternatives) s)
      (outcome (matchGroup force values' alternatives) s) := by
  induction alternatives generalizing s with
  | nil => exact .nothing s
  | cons tests rest ih =>
    rw [matchGroup, matchGroup]
    have hfirst : Alike (AgreeOff N) (outcome (matchVector force tests values []) s)
        (outcome (matchVector force tests values' []) s) :=
      alike_matchVector hlength (fun k hk => hblind k hk tests List.mem_cons_self) s (.refl N [])
    exact hfirst.bind
      (fun s' => ih (fun k hk tests' h => hblind k hk tests' (List.mem_cons_of_mem _ h)) s')
      fun _ _ s' hb => .answer hb s'

theorem alike_rowTest {row : RowTest} (hblind : ∀ k : ℕ, values[k]? ≠ values'[k]? → row.BlindAt N k)
    (s : Store) :
    Alike (AgreeOff N) (outcome (row.matches force values) s)
      (outcome (row.matches force values') s) := by
  cases row with
  | row tests =>
    exact alike_matchVector hlength (fun k hk => hblind k hk tests List.mem_cons_self) s
      (.refl N [])
  | group alternatives => exact alike_matchGroup hlength hblind s
  | otherwise => exact .answer (.refl N []) s

/-- Rows that ask nothing wherever the values differ are selected alike; each may bind names of its
own there. -/
theorem alike_select {α : Type} {names : ℕ → String → Prop} {n : ℕ} {rows : List (TestRow α)}
    (hblind : ∀ k : ℕ, values[k]? ≠ values'[k]? → ∀ j (row : TestRow α), rows[j]? = some row →
      row.test.BlindAt (names (n + j)) k)
    (s : Store) :
    Alike (fun a a' => a.1 = a'.1 ∧ AgreeOff (names a.1) a.2 a'.2)
      (outcome (select force values (numbered n rows)) s)
      (outcome (select force values' (numbered n rows)) s) := by
  induction rows generalizing n s with
  | nil => exact .nothing s
  | cons row rows ih =>
    rw [numbered_cons, select, select]
    have hfirst : Alike (AgreeOff (names n)) (outcome (row.test.matches force values) s)
        (outcome (row.test.matches force values') s) :=
      alike_rowTest hlength (fun k hk => hblind k hk 0 row rfl) s
    refine hfirst.bind (fun s' => ih (fun k hk j row' h => ?_) s')
      fun _ _ s' hb => .answer ⟨rfl, hb⟩ s'
    rw [Nat.add_assoc, Nat.add_comm 1 j]
    exact hblind k hk (j + 1) row' h

end Rows

end Matching

/-! ### Forcing the arguments -/

/-- The walk over arguments hands on whatever stands where nothing is forced. -/
theorem forceWhere_set (force : Value → Run Value) {need : List Bool} {k : ℕ}
    (hk : need[k]? ≠ some true) (args : List Value) (w : Value) :
    forceWhere force need (args.set k w) =
      forceWhere force need args >>= fun values => pure (values.set k w) := by
  induction need generalizing args k with
  | nil => simp [forceWhere]
  | cons needed need ih =>
    cases args with
    | nil => simp [forceWhere]
    | cons v args =>
      cases k with
      | zero =>
        obtain rfl : needed = false := by simpa using hk
        rw [List.set_cons_zero, forceWhere_cons, forceWhere_cons]
        simp
      | succ k =>
        rw [List.set_cons_succ, forceWhere_cons, forceWhere_cons, ih (by simpa using hk)]
        simp

mutual

/-- What asks nothing does not ask for a lazy constructor. -/
theorem Phrase.asksLazy_of_isBlind {r : Registry} :
    ∀ (p : Phrase), p.isBlind r = true → p.asksLazy r = false
  | .name _ text, h => by
    cases hc : r.resolve? text with
    | none => simp [Phrase.asksLazy, hc]
    | some c =>
      obtain rfl : text = "_" := by simpa [Phrase.isBlind, hc] using h
      simp [Phrase.asksLazy]
  | .defer _ _, _ => rfl
  | .named _ inner _, h => Phrase.asksLazy_of_isBlind inner h
  | .either _ alternatives, h => Phrase.asksLazyAny_of_areBlind alternatives h

theorem Phrase.asksLazyAny_of_areBlind {r : Registry} :
    ∀ (ps : List Phrase), Phrase.areBlind r ps = true → Phrase.asksLazyAny r ps = false
  | [], _ => rfl
  | p :: rest, h => by
    obtain ⟨hp, hrest⟩ := Bool.and_eq_true_iff.mp h
    rw [Phrase.asksLazyAny, Phrase.asksLazy_of_isBlind p hp,
      Phrase.asksLazyAny_of_areBlind rest hrest, Bool.or_self]

end

/-! ### A column of rules -/

/-- Whether the cells of a row at a position ask nothing. -/
def RuleRow.isBlindAt (r : Registry) (k : ℕ) (row : RuleRow) : Bool :=
  row.rows.all fun plain => (plain.cells[k]?).all (·.isBlind r)

/-- Whether a cell of a row at a position binds a name. -/
def RuleRow.BindsAt (k : ℕ) (row : RuleRow) (name : String) : Prop :=
  ∃ plain ∈ row.rows, ∃ p, plain.cells[k]? = some p ∧ name ∈ p.variables

/-- The names that the cells of a column bind in the rule at a position. -/
def columnNames (rules : List (Rule Value)) (k i : ℕ) (name : String) : Prop :=
  ∃ rule, rules[i]? = some rule ∧ rule.row.BindsAt k name

section Column

variable {r : Registry} {rules : List (Rule Value)} {rows : List PatternRow} {arity k : ℕ}
  {c : Compiled Value}

/-- The patterns of a column that asks nothing stem from cells that ask nothing. -/
theorem exists_blind_of_cell {rule : RuleRow} {row : PatternRow}
    (h : PatternRow.ofRow r.resolver rule = .ok row) (hblind : rule.isBlindAt r k = true)
    {cells : List Pattern} (hcells : cells ∈ row.rows) {q : Pattern} (hq : cells[k]? = some q) :
    ∃ plain ∈ rule.rows, ∃ p, plain.cells[k]? = some p ∧ p.isBlind r = true ∧
      Pattern.ofPhrase r.resolver p = .ok q := by
  obtain ⟨plain, hplain, hphrases⟩ := exists_of_mem_right (rows_of_ofRow h) hcells
  have hps := ofPhrases_eq_ok.mp hphrases
  obtain ⟨hk', rfl⟩ := List.getElem?_eq_some_iff.mp hq
  have hk : k < plain.cells.length := hps.length_eq ▸ hk'
  have hcell := List.all_eq_true.mp hblind plain hplain
  rw [List.getElem?_eq_getElem hk, Option.all_some] at hcell
  exact ⟨plain, hplain, plain.cells[k], List.getElem?_eq_getElem hk, hcell, hps.get hk hk'⟩

theorem blindAt_of_ofRow {rule : RuleRow} {row : PatternRow}
    (h : PatternRow.ofRow r.resolver rule = .ok row) (hblind : rule.isBlindAt r k = true) :
    row.test.BlindAt (rule.BindsAt k) k := by
  have hcell : ∀ cells ∈ row.rows, ∀ t, (cells.map Pattern.test)[k]? = some t →
      t.isBlind = true ∧ ∀ name ∈ t.variables, rule.BindsAt k name := by
    intro cells hcells t ht
    rw [List.getElem?_map, Option.map_eq_some_iff] at ht
    obtain ⟨q, hq, rfl⟩ := ht
    obtain ⟨plain, hplain, p, hp, hpblind, hres⟩ := exists_blind_of_cell h hblind hcells hq
    obtain ⟨htest, hvariables⟩ := blind_of_ofPhrase p hres hpblind
    exact ⟨htest, fun name hname => ⟨plain, hplain, p, hp, hvariables ▸ hname⟩⟩
  intro tests htests
  cases row with
  | row cells =>
    obtain rfl := List.mem_singleton.mp htests
    exact hcell cells List.mem_cons_self
  | group rows =>
    obtain ⟨cells, hcells, rfl⟩ := List.mem_map.mp htests
    exact hcell cells hcells
  | otherwise => cases htests

/-- A column that asks nothing is not in demand. -/
theorem Compiles.not_demanded (h : Compiles r.resolver rules rows arity c)
    (hblind : ∀ rule ∈ rules, rule.row.isBlindAt r k = true) :
    (demandOf (plainRows rows) arity)[k]? ≠ some true := by
  intro hdemand
  obtain ⟨_, cells, hcells, q, hq, hdemands⟩ := demandOf_eq_true_iff.mp hdemand
  obtain ⟨row, hrow, hcells⟩ := List.mem_flatMap.mp hcells
  obtain ⟨rule, hrule, hres⟩ := exists_of_mem_right h.resolved hrow
  obtain ⟨_, _, p, _, hp, hphrase⟩ := exists_blind_of_cell hres (hblind rule hrule) hcells hq
  rw [demands_of_ofPhrase p hphrase, Phrase.asksLazy_of_isBlind p hp] at hdemands
  cases hdemands

/-- What the plan leaves at a column that asks nothing is what stood there. -/
theorem Compiles.run_plan_set (h : Compiles r.resolver rules rows arity c)
    (hblind : ∀ rule ∈ rules, rule.row.isBlindAt r k = true) (force : Value → Run Value)
    {args : List Value} (hargs : args.length = arity) (w : Value) :
    c.plan.run force (args.set k w) =
      c.plan.run force args >>= fun values => pure (values.set k w) := by
  rw [h.run_plan force hargs, h.run_plan force (by simpa using hargs),
    forceWhere_set force (h.not_demanded hblind)]

/-- The row of a rule that asks nothing in a column asks nothing there. -/
theorem Compiles.blindAt_row (h : Compiles r.resolver rules rows arity c) {j : ℕ}
    (hblind : ∀ rule, rules[j]? = some rule → rule.row.isBlindAt r k = true)
    {row : TestRow Value} (hrow : c.rows[j]? = some row) :
    row.test.BlindAt (columnNames rules k j) k := by
  intro tests htests t ht
  obtain ⟨row', rule, hrow', hrule, rfl⟩ := h.exists_of_row hrow
  obtain ⟨row'', hrow'', hres⟩ := h.exists_of_rule hrule
  cases hrow'.symm.trans hrow''
  obtain ⟨htest, hnames⟩ := blindAt_of_ofRow hres (hblind rule hrule) tests htests t ht
  exact ⟨htest, fun name hname => ⟨rule, hrule, hnames name hname⟩⟩

/-- Dispatch chooses alike when the arguments differ in a column that asks nothing. -/
theorem Compiles.alike_choose (h : Compiles r.resolver rules rows arity c)
    (hblind : ∀ rule ∈ rules, rule.row.isBlindAt r k = true) (force : Value → Run Value)
    {args : List Value} (hargs : args.length = arity) (w : Value) (s : Store) :
    Alike (fun a a' => a.1 = a'.1 ∧ AgreeOff (columnNames rules k a.1) a.2 a'.2)
      (outcome (c.choose force args) s) (outcome (c.choose force (args.set k w)) s) := by
  rw [Compiled.choose, Compiled.choose, h.run_plan_set hblind force hargs, bind_assoc]
  refine Alike.after fun values s' => ?_
  rw [pure_bind]
  refine alike_select (by simp) (fun l hl j row hrow => ?_) s'
  obtain rfl : l = k := by
    by_contra hne
    exact hl (List.getElem?_set_ne (Ne.symm hne)).symm
  rw [Nat.zero_add]
  exact h.blindAt_row (fun rule hrule => hblind rule (List.mem_of_getElem? hrule)) hrow

/-- From a test that asks nothing, inspections stay with its value and with such tests. -/
theorem blind_of_reaches {force : Value → Run Value} {i j : Inspection} {path : List Turn}
    (h : i.Reaches force path j) (hi : i.test.isBlind = true) :
    j.value = i.value ∧ j.test.isBlind = true := by
  induction h with
  | refl => exact ⟨rfl, hi⟩
  | tail _ hasks ih =>
    obtain ⟨hvalue, hblind⟩ := ih
    rw [← hvalue]
    cases hasks with
    | inner => exact ⟨rfl, hblind⟩
    | option hoption =>
      obtain ⟨htest, hsame⟩ := hoption.test
      rw [Test.isBlind, Test.areBlind_eq] at hblind
      exact ⟨hsame, List.all_eq_true.mp hblind _ (List.mem_of_getElem? htest)⟩
    | field => cases hblind
    | forced => cases hblind

/-- The inspections of a column that asks nothing are all of the argument itself and ask nothing. -/
theorem Compiles.blind_of_opens (h : Compiles r.resolver rules rows arity c)
    (hblind : ∀ rule ∈ rules, rule.row.isBlindAt r k = true) {force : Value → Run Value}
    {name : String} {lazy : Bool} {args : List Value} (hargs : args.length = arity) {s : Store}
    {site : Site} (hsite : site.column = k) {i j : Inspection} {path : List Turn}
    (hopens : (Function.ofCompiled name lazy c).Opens force args s site i)
    (hreaches : i.Reaches force path j) :
    args[k]? = some j.value ∧ j.test.isBlind = true := by
  obtain ⟨values, s', hrun, hasked⟩ := hopens
  obtain ⟨row, s₁, hrow, hasked⟩ := hasked.row
  simp only [Function.ofCompiled, List.getElem?_map, Option.map_eq_some_iff] at hrow
  obtain ⟨_, hrow, rfl⟩ := hrow
  obtain ⟨row', rule, hrow', hrule, rfl⟩ := h.exists_of_row hrow
  obtain ⟨row'', hrow'', hres⟩ := h.exists_of_rule hrule
  cases hrow'.symm.trans hrow''
  obtain ⟨cells, q, hcells, hq, htest, hvalue⟩ := PatternRow.exists_of_asked hasked
  rw [hsite] at hq hvalue
  obtain ⟨_, _, p, _, hp, hphrase⟩ := exists_blind_of_cell hres
    (hblind rule (List.mem_of_getElem? hrule)) (List.mem_of_getElem? hcells) hq
  obtain ⟨hjvalue, hjtest⟩ := blind_of_reaches hreaches
    (htest ▸ (blind_of_ofPhrase p hphrase hp).1)
  rw [show (Function.ofCompiled name lazy c).plan = c.plan from rfl, h.run_plan force hargs] at hrun
  exact ⟨hjvalue ▸ getElem?_of_forceWhere (h.not_demanded hblind) hrun hvalue, hjtest⟩

end Column

/-- Each binding of a plan forces a parameter in demand. -/
theorem exists_of_mem_bindingsFrom {n : ℕ} {need : List Bool} {e : String × String}
    (he : e ∈ bindingsFrom n need) :
    ∃ i, need[i]? = some true ∧ e = (forcedName (n + i), argName (n + i)) := by
  induction need generalizing n with
  | nil => cases he
  | cons needed need ih =>
    rw [bindingsFrom_cons] at he
    rcases List.mem_append.mp he with he | he
    · cases needed with
      | false => cases he
      | true => exact ⟨0, rfl, by simpa using he⟩
    · obtain ⟨i, hi, rfl⟩ := ih he
      exact ⟨i + 1, hi, by rw [Nat.add_assoc, Nat.add_comm 1 i]⟩

/-- Force a value when it has been written to the log. -/
def recorded (force : Value → Run Value) (v : Value) : Run Value := do
  modify fun s => { s with log := s.log.push v }
  force v

/-- **A column that asks nothing decides nothing.** When the cells of a column are made of
wildcards, variables, escaped names, and names and alternations of these, arguments that differ only
there are dispatched alike, however values are forced: both stop for the same reason, or no rule is
found for either, or the same rule is selected, with bindings under the same names that differ at
most under those that the cells of the column bind. The same values are forced in the same order.
The plan does not force the argument in the column, and every test put to it in dispatch neither
forces nor compares. -/
theorem column_independent {r : Registry} {name : String} {rules : List (Rule Value)}
    {c : Compiled Value} (hc : Compiled.ofRules r.resolver name rules = .ok c) {k : ℕ}
    (hblind : ∀ rule ∈ rules, rule.row.isBlindAt r k = true) {args : List Value}
    (hargs : args.length = (Function.ofCompiled name false c).arity) (w : Value)
    (force : Value → Run Value) (s : Store) :
    ((∃ e s', Stops force name c args s e s' ∧ Stops force name c (args.set k w) s e s') ∨
      (∃ values s', FindsNone force name c args s values s' ∧
        FindsNone force name c (args.set k w) s (values.set k w) s') ∨
      ∃ i rule b b' s', rules[i]? = some rule ∧ Selects force name rules c args s i b s' ∧
        Selects force name rules c (args.set k w) s i b' s' ∧ Table.names b = Table.names b' ∧
        ∀ bound, ¬rule.row.BindsAt k bound → Table.get? b bound = Table.get? b' bound) ∧
    (outcome (c.choose (recorded force) args) s).2.log =
      (outcome (c.choose (recorded force) (args.set k w)) s).2.log ∧
    (∀ e ∈ c.plan.bindings, e.2 ≠ argName k) ∧
    ∀ (lazy : Bool) (site : Site) (i j : Inspection) (path : List Turn), site.column = k →
      (Function.ofCompiled name lazy c).Opens force args s site i → i.Reaches force path j →
      args[k]? = some j.value ∧ j.test.isBlind = true := by
  obtain ⟨rows, arity, h⟩ := Compiled.exists_of_ofRules hc
  rw [h.arity_ofCompiled] at hargs
  refine ⟨?_, ?_, ?_, fun lazy site i j path hsite hopens hreaches =>
    h.blind_of_opens hblind hargs hsite hopens hreaches⟩
  · have halike := h.alike_choose hblind force hargs w s
    rcases hrun : outcome (c.choose force args) s with ⟨e | _ | ⟨i, b⟩, s'⟩ <;>
      rcases hrun' : outcome (c.choose force (args.set k w)) s with ⟨e' | _ | ⟨i', b'⟩, s''⟩ <;>
      rw [hrun, hrun'] at halike <;> cases halike
    · exact .inl ⟨e, s', stops_of_choose name hrun, stops_of_choose name hrun'⟩
    · refine .inr (.inl ?_)
      obtain ⟨values, s₁, hplan, _⟩ := outcome_bind_eq_ok hrun
      have hplan' : outcome (c.plan.run force (args.set k w)) s = (.ok (values.set k w), s₁) := by
        rw [h.run_plan_set hblind force hargs, outcome_bind_ok hplan, outcome_pure]
      exact ⟨values, s', findsNone_of_choose name hplan hrun, findsNone_of_choose name hplan' hrun'⟩
    · rename_i hrel
      obtain ⟨rfl, hagree⟩ := hrel
      have hselects := h.selects name hrun
      obtain ⟨rule, hrule, _⟩ := hselects.dispatch
      refine .inr (.inr ⟨i, rule, b, b', s', hrule, hselects, h.selects name hrun',
        hagree.names_eq, fun bound hbound => hagree.get?_eq ?_⟩)
      rintro ⟨rule', hrule', hbinds⟩
      cases hrule.symm.trans hrule'
      exact hbound hbinds
  · -- Forcing that writes down what it forces is a way to force, too.
    have halike := h.alike_choose hblind (recorded force) hargs w s
    exact congrArg Store.log halike.store_eq
  · rw [h.plan_eq]
    rintro e he hname
    obtain ⟨i, hi, rfl⟩ := exists_of_mem_bindingsFrom he
    rw [Nat.zero_add] at hname
    exact h.not_demanded hblind (argName_injective hname ▸ hi)

/-- The head of a stream, or what stands in front of an empty one. -/
def frontRules : List (Rule Value) :=
  [⟨.row (.mk 1 [.either 2 [.named 3 (.name 4 "_") ⟨103, "x"⟩, .defer 5 (.phrase (.name 6 "x"))],
      .compound 7 ⟨107, "Cons"⟩ [.name 8 "head", .name 9 "_"]]), .bool true⟩,
    ⟨.row (.mk 10 [.name 11 "front", .name 12 "Nil"]), .bool false⟩]

/-- A deferred value whose computation fails, and a lazy stream of the element seven. -/
def frontStore : Store where
  records := #[[(.text "head", .int 7), (.text "tail", .null), (.text "", .text "Stream.Cons")]]
  thunks := #[.pending (.expr none [] (.fail "never asked")), .pending (.variant ⟨0⟩)]

/-- In front of a stream anything may stand: the first rule is selected, and the head is bound. -/
theorem column_independent_front :
    ∃ c b b' s', Compiled.ofRules streams.resolver "front" frontRules = .ok c ∧
      (∀ rule ∈ frontRules, rule.row.isBlindAt streams 0 = true) ∧
      Selects (Env.force {} 3) "front" frontRules c [.thunk ⟨0⟩, .thunk ⟨1⟩] frontStore 0 b s' ∧
      Selects (Env.force {} 3) "front" frontRules c [.int 3, .thunk ⟨1⟩] frontStore 0 b' s' ∧
      Table.get? b "head" = Table.get? b' "head" := by
  obtain ⟨c, hc⟩ : ∃ c, Compiled.ofRules streams.resolver "front" frontRules = .ok c := ⟨_, rfl⟩
  have hblind : ∀ rule ∈ frontRules, rule.row.isBlindAt streams 0 = true := by decide
  have hposition : (outcome (c.choose (Env.force {} 3) [.thunk ⟨0⟩, .thunk ⟨1⟩])
      frontStore).1.toOption.map (·.map Prod.fst) = some (some 0) := by
    cases hc
    decide +kernel
  have hlength : [Value.thunk ⟨0⟩, .thunk ⟨1⟩].length =
      (Function.ofCompiled "front" false c).arity := by
    cases hc
    rfl
  rcases (column_independent hc hblind hlength (.int 3) (Env.force {} 3) frontStore).1 with
    ⟨e, s', h, _⟩ | ⟨values, s', h, _⟩ | ⟨i, rule, b, b', s', hrule, h, h', _, hget⟩
  · rw [h.choose] at hposition
    cases hposition
  · rw [h.choose] at hposition
    cases hposition
  · rw [h.choose] at hposition
    cases hposition
    cases hrule
    refine ⟨c, b, b', s', hc, hblind, h, h', hget "head" ?_⟩
    rintro ⟨plain, hplain, p, hp, hname⟩
    obtain rfl := List.mem_singleton.mp hplain
    cases hp
    revert hname
    decide

end LazyMatch
