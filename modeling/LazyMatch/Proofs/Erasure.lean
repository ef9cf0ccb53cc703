import LazyMatch.Proofs.Compilation
import LazyMatch.Proofs.Lowering

/-!
# Leaving laziness aside

Erasing the laziness of every constructor gives the registry in which all of them are strict.
Declarations that differ in laziness alone have one erasure, and compiling rules commutes with it:
a fault stays the same fault, and the tests differ only in where they force. `Test.relax` takes the
forcing out of a test, and `Compiled.outline` is what is then left of compiled rules.

* `Registry.declareAll` declares datatypes in order, `Declaration.outline` is what a declaration
  says besides laziness;
* `erase_eq_of_declareAll`: same outlines, same erasure;
* `outline_ofRules_erase`: rules compile to one outline in a registry and in its erasure;
* `Declares`: the constructors of a registry, told apart by their keys (`DistinctKeys`).
-/

namespace LazyMatch

/-! ### Registries -/

/-- A constructor, strict. -/
def Constructor.erase (c : Constructor) : Constructor := { c with lazy := false }

@[simp] theorem Constructor.key_erase (c : Constructor) : c.erase.key = c.key := rfl

@[simp] theorem Constructor.name_erase (c : Constructor) : c.erase.name = c.name := rfl

@[simp] theorem Constructor.fields_erase (c : Constructor) : c.erase.fields = c.fields := rfl

@[simp] theorem Constructor.isConstant_erase (c : Constructor) :
    c.erase.isConstant = c.isConstant := rfl

/-- A datatype with all its constructors strict. -/
def Datatype.erase (d : Datatype) : Datatype :=
  { d with constructors := d.constructors.map fun e => (e.1, e.2.erase) }

/-- A registry with all its constructors strict. -/
def Registry.erase (r : Registry) : Registry where
  datatypes := r.datatypes.map fun e => (e.1, e.2.erase)
  constructors := r.constructors.map fun e => (e.1, e.2.erase)

/-- Tags resolve to the same constructors, strict. -/
theorem Registry.resolve?_erase (r : Registry) (tag : String) :
    r.erase.resolve? tag = (r.resolve? tag).map Constructor.erase := by
  unfold Registry.resolve?
  rw [Registry.erase, Table.get?_map]
  cases r.constructors.get? tag with
  | some c => rfl
  | none =>
    cases Registry.qualified? tag with
    | none => rfl
    | some e =>
      simp only [Registry.datatype?, Table.get?_map, Option.map_none]
      cases r.datatypes.get? e.1 with
      | none => rfl
      | some d => simp [Datatype.erase, Table.get?_map]

/-- The constructors of a datatype are entered one after the other. -/
theorem Registry.constructors_enter (r : Registry) (d : Datatype) :
    (r.enter d).constructors =
      (d.variants.map fun c => (c.name, c)).foldl (fun t e => Table.put t e.1 e.2)
        r.constructors := by
  rw [List.foldl_map]
  rfl

theorem Datatype.variants_erase (d : Datatype) :
    d.erase.variants = d.variants.map Constructor.erase := by
  simp [Datatype.variants, Datatype.erase, Function.comp_def]

theorem Registry.erase_enter (r : Registry) (d : Datatype) :
    (r.enter d).erase = r.erase.enter d.erase := by
  have hdatatypes : (r.enter d).erase.datatypes = (r.erase.enter d.erase).datatypes :=
    (Table.put_map Datatype.erase r.datatypes d.name d).symm
  have hconstructors : (r.enter d).erase.constructors = (r.erase.enter d.erase).constructors := by
    have hpairs : (d.erase.variants.map fun c => (c.name, c)) =
        (d.variants.map fun c => (c.name, c)).map fun e => (e.1, e.2.erase) := by
      simp [Datatype.variants_erase, Function.comp_def]
    rw [Registry.constructors_enter, hpairs]
    rw [Registry.erase, Registry.constructors_enter]
    exact (Table.foldl_put_map Constructor.erase _ _).symm
  exact congrArg₂ Registry.mk hdatatypes hconstructors

/-! ### Declarations -/

/-- A declaration of a datatype. -/
structure Declaration where
  name : String
  specs : List Spec
  mode : Datum

/-- A description without the mark that makes it lazy. -/
def Spec.bare : Spec → Spec
  | .marked inner => inner
  | spec => spec

/-- What a declaration says besides laziness: the datatype with all its constructors strict. -/
def Declaration.outline (d : Declaration) : Datatype :=
  ⟨d.name, d.specs.filterMap fun spec =>
    spec.bare.constructor?.map fun (name, shape) => (name, ⟨d.name, name, false, shape⟩)⟩

/-- Declare datatypes in order. -/
def Registry.declareAll (r : Registry) : List Declaration → Except DeclarationFault Registry
  | [] => .ok r
  | d :: rest => do
    let (_, r') ← r.declare d.name d.specs d.mode
    r'.declareAll rest

theorem unmarked_eq_ok {datatype : String} {lazy : Bool} {spec : Spec} {c : Constructor}
    (h : Registry.unmarked datatype lazy spec = .ok c) :
    spec.constructor? = some (c.name, c.shape) ∧ c = ⟨datatype, c.name, lazy, c.shape⟩ := by
  unfold Registry.unmarked at h
  split at h
  · rename_i hspec
    cases h
    exact ⟨hspec, rfl⟩
  · cases h

/-- A description gives the constructor that it gives without its mark, laziness aside. -/
theorem constructorOf_eq_ok {datatype : String} {mode : Mode} {spec : Spec} {c : Constructor}
    (h : Registry.constructorOf datatype mode spec = .ok c) :
    spec.bare.constructor? = some (c.name, c.shape) ∧
      c.erase = ⟨datatype, c.name, false, c.shape⟩ := by
  have hbare : ∃ lazy, Registry.unmarked datatype lazy spec.bare = .ok c := by
    cases spec with
    | marked inner =>
      simp only [Registry.constructorOf] at h
      split at h
      · cases h
      · exact ⟨true, h⟩
    | datum d => exact ⟨_, h⟩
    | tuple items => exact ⟨_, h⟩
  obtain ⟨lazy, hbare⟩ := hbare
  obtain ⟨hspec, hc⟩ := unmarked_eq_ok hbare
  exact ⟨hspec, by rw [hc]; rfl⟩

theorem constructorsOf_eq_ok {r : Registry} {datatype : String} {mode : Mode} {specs : List Spec}
    {taken : List String} {cs : List Constructor}
    (h : r.constructorsOf datatype mode specs taken = .ok cs) :
    (cs.map fun c => (c.name, c.erase)) = specs.filterMap fun spec =>
      spec.bare.constructor?.map fun (name, shape) => (name, ⟨datatype, name, false, shape⟩) := by
  induction specs generalizing taken cs with
  | nil =>
    cases h
    rfl
  | cons spec specs ih =>
    unfold Registry.constructorsOf at h
    obtain ⟨c, hc, h⟩ := bind_eq_ok.mp h
    split at h
    · cases h
    obtain ⟨cs', hcs, h⟩ := bind_eq_ok.mp h
    cases h
    obtain ⟨hspec, hc⟩ := constructorOf_eq_ok hc
    rw [List.map_cons, ih hcs, List.filterMap_cons, hspec, hc]
    rfl

/-- What a declaration enters, if it succeeds. -/
theorem declare_eq_ok {r r' : Registry} {d : Declaration} {datatype : Datatype}
    (h : r.declare d.name d.specs d.mode = .ok (datatype, r')) :
    r' = r.enter datatype ∧ datatype.erase = d.outline := by
  unfold Registry.declare at h
  split at h
  · rename_i mode _
    split at h
    · cases h
    obtain ⟨cs, hcs, h⟩ := bind_eq_ok.mp h
    cases h
    refine ⟨rfl, ?_⟩
    rw [Declaration.outline, ← constructorsOf_eq_ok hcs]
    simp [Datatype.erase, Function.comp_def]
  · cases h

/-- Declarations with the same outlines fill registries with the same erasure. -/
theorem erase_declareAll {ds : List Declaration} {r r' : Registry}
    (h : r.declareAll ds = .ok r') :
    r'.erase = (ds.map Declaration.outline).foldl Registry.enter r.erase := by
  induction ds generalizing r with
  | nil =>
    cases h
    rfl
  | cons d ds ih =>
    obtain ⟨⟨datatype, r₁⟩, hd, h⟩ := bind_eq_ok.mp h
    obtain ⟨rfl, houtline⟩ := declare_eq_ok hd
    rw [ih h, Registry.erase_enter, houtline, List.map_cons, List.foldl_cons]

theorem erase_eq_of_declareAll {ds₁ ds₂ : List Declaration} {r r₁ r₂ : Registry}
    (hsame : ds₁.map Declaration.outline = ds₂.map Declaration.outline)
    (h₁ : r.declareAll ds₁ = .ok r₁) (h₂ : r.declareAll ds₂ = .ok r₂) : r₁.erase = r₂.erase := by
  rw [erase_declareAll h₁, erase_declareAll h₂, hsame]

/-! ### The constructors of a registry -/

/-- Whether some tag resolves to a constructor. -/
def Registry.Declares (r : Registry) (c : Constructor) : Prop := ∃ tag, r.resolve? tag = some c

/-- Different constructors have different keys. -/
def Registry.DistinctKeys (r : Registry) : Prop :=
  ∀ c c', r.Declares c → r.Declares c' → c.key = c'.key → c = c'

/-- All constructors of a registry are among the given ones. -/
structure Registry.Within (r : Registry) (cs : List Constructor) : Prop where
  bare : ∀ e ∈ r.constructors, e.2 ∈ cs
  own : ∀ d ∈ r.datatypes, ∀ e ∈ d.2.constructors, e.2 ∈ cs

theorem Registry.Within.enter {r : Registry} {cs : List Constructor} (h : r.Within cs)
    (d : Datatype) : (r.enter d).Within (cs ++ d.variants) where
  bare := by
    intro e he
    rw [Registry.constructors_enter] at he
    rcases Table.mem_of_mem_foldl_put he with he | he
    · exact List.mem_append_left _ (h.bare e he)
    · obtain ⟨c, hc, rfl⟩ := List.mem_map.mp he
      exact List.mem_append_right _ hc
  own := by
    intro d' hd' e he
    rcases Table.mem_of_mem_put hd' with rfl | hd'
    · exact List.mem_append_right _ (List.mem_map_of_mem he)
    · exact List.mem_append_left _ (h.own d' hd' e he)

theorem within_declareAll {ds : List Declaration} {r r' : Registry} {cs : List Constructor}
    (hcs : r.Within cs) (h : r.declareAll ds = .ok r') :
    ∃ new, r'.Within (cs ++ new) ∧
      new.map Constructor.erase = ds.flatMap fun d => d.outline.variants := by
  induction ds generalizing r cs with
  | nil =>
    cases h
    exact ⟨[], by simpa using hcs, rfl⟩
  | cons d ds ih =>
    obtain ⟨⟨datatype, r₁⟩, hd, h⟩ := bind_eq_ok.mp h
    obtain ⟨rfl, houtline⟩ := declare_eq_ok hd
    obtain ⟨new, hnew, hmap⟩ := ih (hcs.enter datatype) h
    refine ⟨datatype.variants ++ new, by simpa using hnew, ?_⟩
    rw [List.map_append, hmap, List.flatMap_cons, ← houtline]
    rw [Datatype.variants_erase]

/-- The constructors of a registry have different names. -/
theorem nodup_names_declareAll {ds : List Declaration} {r r' : Registry}
    (hnames : (Table.names r.constructors).Nodup) (h : r.declareAll ds = .ok r') :
    (Table.names r'.constructors).Nodup := by
  induction ds generalizing r with
  | nil =>
    cases h
    exact hnames
  | cons d ds ih =>
    obtain ⟨⟨datatype, r₁⟩, hd, h⟩ := bind_eq_ok.mp h
    obtain ⟨rfl, _⟩ := declare_eq_ok hd
    refine ih ?_ h
    rw [Registry.constructors_enter]
    exact Table.nodup_foldl_put hnames _

/-- When no key is declared twice, the constructors of the registry have different keys. -/
theorem distinctKeys_of_declareAll {ds : List Declaration} {r : Registry}
    (hkeys : ((ds.flatMap fun d => d.outline.variants).map Constructor.key).Nodup)
    (h : Registry.empty.declareAll ds = .ok r) : r.DistinctKeys := by
  have hempty : Registry.empty.Within [] := ⟨by simp [Registry.empty], by simp [Registry.empty]⟩
  obtain ⟨cs, hcs, hmap⟩ := within_declareAll hempty h
  have hnodup : (cs.map Constructor.key).Nodup := by
    rw [← hmap, List.map_map] at hkeys
    exact hkeys
  rintro c c' ⟨tag, hc⟩ ⟨tag', hc'⟩ hkey
  exact List.inj_on_of_nodup_map hnodup (Registry.forall_resolve? hcs.bare hcs.own hc)
    (Registry.forall_resolve? hcs.bare hcs.own hc') hkey

/-! ### Patterns -/

mutual

/-- A pattern with all its constructors strict. -/
def Pattern.erase : Pattern → Pattern
  | .wildcard token => .wildcard token
  | .constant token c => .constant token c.erase
  | .factory token c fields => .factory token c.erase (Pattern.eraseAll fields)
  | .deferred token content => .deferred token content
  | .named token inner name => .named token inner.erase name
  | .either token alternatives => .either token (Pattern.eraseAll alternatives)
  | .verbatim token => .verbatim token

/-- Patterns with all their constructors strict. -/
def Pattern.eraseAll : List Pattern → List Pattern
  | [] => []
  | p :: rest => p.erase :: Pattern.eraseAll rest

end

theorem Pattern.eraseAll_eq (ps : List Pattern) : Pattern.eraseAll ps = ps.map Pattern.erase := by
  induction ps with
  | nil => rfl
  | cons p rest ih => rw [Pattern.eraseAll, ih, List.map_cons]

theorem Pattern.isWildcard_erase (p : Pattern) : p.erase.isWildcard = p.isWildcard := by
  cases p <;> rfl

mutual

theorem Pattern.demands_erase : ∀ p : Pattern, p.erase.demands = false
  | .wildcard _ | .constant _ _ | .factory _ _ _ | .deferred _ _ | .verbatim _ => rfl
  | .named _ inner _ => by rw [Pattern.erase, Pattern.demands, Pattern.demands_erase inner]
  | .either _ alternatives => by
    rw [Pattern.erase, Pattern.demands, Pattern.demandsAny_eraseAll alternatives]

theorem Pattern.demandsAny_eraseAll :
    ∀ ps : List Pattern, Pattern.demandsAny (Pattern.eraseAll ps) = false
  | [] => rfl
  | p :: rest => by
    rw [Pattern.eraseAll, Pattern.demandsAny, Pattern.demands_erase p,
      Pattern.demandsAny_eraseAll rest, Bool.or_self]

end

mutual

theorem Pattern.names?_erase : ∀ p : Pattern, p.erase.names? = p.names?
  | .wildcard _ | .constant _ _ | .deferred _ _ | .verbatim _ => rfl
  | .factory _ _ fields => by
    rw [Pattern.erase, Pattern.names?, Pattern.names?, Pattern.namesAll?_eraseAll fields]
  | .named _ inner _ => by
    rw [Pattern.erase, Pattern.names?, Pattern.names?, Pattern.names?_erase inner]
  | .either _ [] => rfl
  | .either _ (first :: _) => by
    rw [Pattern.erase, Pattern.eraseAll, Pattern.names?, Pattern.names?, Pattern.names?_erase first]

theorem Pattern.namesAll?_eraseAll :
    ∀ ps : List Pattern, Pattern.namesAll? (Pattern.eraseAll ps) = Pattern.namesAll? ps
  | [] => rfl
  | p :: rest => by
    rw [Pattern.eraseAll, Pattern.namesAll?, Pattern.namesAll?, Pattern.names?_erase p,
      Pattern.namesAll?_eraseAll rest]

end

theorem agree_erase (token : Phrase) (ps : List Pattern) :
    agree token (ps.map Pattern.erase) = agree token ps := by
  have hnames : (ps.map Pattern.erase).mapM Pattern.names? = ps.mapM Pattern.names? := by
    rw [List.mapM_map]
    exact congrArg (ps.mapM ·) (funext Pattern.names?_erase)
  rw [agree, hnames, agree]

mutual

/-- A phrase resolves to the same pattern, strict, or to the same fault. -/
theorem ofPhrase_erase (r : Registry) : ∀ p : Phrase,
    Pattern.ofPhrase r.erase.resolver p = (Pattern.ofPhrase r.resolver p).map Pattern.erase
  | .name stamp text => by
    unfold Pattern.ofPhrase
    by_cases ht : text = "_"
    · simp only [ht, if_true]
      rfl
    · simp only [ht, if_false, Registry.resolver, Registry.resolve?_erase]
      cases hc : r.resolve? text with
      | none => rfl
      | some c => cases hk : c.isConstant <;> simp [bind, Except.bind, Except.map, hk] <;> rfl
  | .compound stamp head fields => by
    unfold Pattern.ofPhrase
    simp only [Registry.resolver, Registry.resolve?_erase]
    cases hc : r.resolve? head with
    | none => rfl
    | some c =>
      cases hk : c.isConstant with
      | true => cases fields <;> simp [bind, Except.bind, Except.map, hk] <;> rfl
      | false =>
        simp only [Option.map_some, bind, Except.bind, Constructor.isConstant_erase, hk,
          ofPhrases_erase r fields]
        cases Pattern.ofPhrases r.resolver fields <;> rfl
  | .named stamp inner name => by
    unfold Pattern.ofPhrase
    rw [ofPhrase_erase r inner]
    cases Pattern.ofPhrase r.resolver inner <;> rfl
  | .either stamp alternatives => by
    unfold Pattern.ofPhrase
    rw [ofPhrases_erase r alternatives]
    cases Pattern.ofPhrases r.resolver alternatives with
    | error f => rfl
    | ok qs =>
      simp only [Except.map, bind, Except.bind, Pattern.eraseAll_eq, agree_erase]
      cases agree (.either stamp alternatives) qs with
      | error f => rfl
      | ok u => simp [pure, Except.pure, Pattern.erase, Pattern.eraseAll_eq]
  | .literal _ _ | .defer _ _ | .row _ | .group _ _ _ | .otherwise => rfl

theorem ofPhrases_erase (r : Registry) : ∀ ps : List Phrase,
    Pattern.ofPhrases r.erase.resolver ps = (Pattern.ofPhrases r.resolver ps).map Pattern.eraseAll
  | [] => rfl
  | p :: rest => by
    unfold Pattern.ofPhrases
    rw [ofPhrase_erase r p, ofPhrases_erase r rest]
    cases Pattern.ofPhrase r.resolver p with
    | error f => rfl
    | ok q => cases Pattern.ofPhrases r.resolver rest <;> rfl

end

/-- A row with all its constructors strict. -/
def PatternRow.erase : PatternRow → PatternRow
  | .row cells => .row (cells.map Pattern.erase)
  | .group rows => .group (rows.map (·.map Pattern.erase))
  | .otherwise => .otherwise

theorem PatternRow.rows_erase (row : PatternRow) :
    row.erase.rows = row.rows.map (·.map Pattern.erase) := by
  cases row <;> rfl

theorem column_erase (rows : List (List Pattern)) (i : ℕ) :
    column (rows.map (·.map Pattern.erase)) i = (column rows i).map (·.map Pattern.erase) := by
  have hcells : (rows.map (·.map Pattern.erase)).mapM (·[i]?) =
      (rows.mapM (·[i]?)).map (·.map Pattern.erase) := by
    induction rows with
    | nil => rfl
    | cons row rows ih =>
      simp only [List.map_cons, List.mapM_cons, List.getElem?_map, ih]
      cases row[i]? with
      | none => rfl
      | some p => cases rows.mapM (·[i]?) <;> rfl
  rw [column, hcells, column]
  cases rows.mapM (·[i]?) <;> rfl

/-- A row resolves to the same row, strict, or to the same fault. -/
theorem ofRow_erase (r : Registry) (row : RuleRow) :
    PatternRow.ofRow r.erase.resolver row =
      (PatternRow.ofRow r.resolver row).map PatternRow.erase := by
  have hcells (plain : Row) : Pattern.ofPhrases r.erase.resolver plain.cells =
      (Pattern.ofPhrases r.resolver plain.cells).map (·.map Pattern.erase) := by
    rw [ofPhrases_erase, funext Pattern.eraseAll_eq]
  cases row with
  | row plain =>
    rw [PatternRow.ofRow, hcells, PatternRow.ofRow]
    cases Pattern.ofPhrases r.resolver plain.cells <;> rfl
  | group stamp first rest =>
    rw [PatternRow.ofRow, mapM_map_of_forall hcells, PatternRow.ofRow]
    cases (first :: rest).mapM fun plain => Pattern.ofPhrases r.resolver plain.cells with
    | error f => rfl
    | ok rows =>
      -- A column agrees on its names whether its constructors are lazy or not.
      have hagree (token : Phrase) (i : ℕ) :
          (do agree token (← column (rows.map (·.map Pattern.erase)) i)) =
            (do agree token (← column rows i)) := by
        rw [column_erase]
        cases column rows i with
        | error f => rfl
        | ok cells => exact agree_erase token cells
      simp only [Except.map, bind, Except.bind] at hagree ⊢
      simp only [hagree]
      split <;> rfl
  | otherwise => rfl

/-! ### Tests -/

mutual

/-- A test without the forcing. -/
def Test.relax : Test → Test
  | .wild => .wild
  | .bind name => .bind name
  | .equal v => .equal v
  | .tag key => .tag key
  | .fields key subs => .fields key (Test.relaxFields subs)
  | .named inner name => .named inner.relax name
  | .either options => .either (Test.relaxAll options)
  | .strict inner => inner.relax

/-- The tests of fields without the forcing. -/
def Test.relaxFields : List (String × Test) → List (String × Test)
  | [] => []
  | (name, t) :: rest => (name, t.relax) :: Test.relaxFields rest

/-- Tests without the forcing. -/
def Test.relaxAll : List Test → List Test
  | [] => []
  | t :: rest => t.relax :: Test.relaxAll rest

end

theorem Test.relaxFields_eq (subs : List (String × Test)) :
    Test.relaxFields subs = subs.map fun e => (e.1, e.2.relax) := by
  induction subs with
  | nil => rfl
  | cons e subs ih => rw [Test.relaxFields, ih, List.map_cons]

theorem Test.relax_ofValue (v : Value) : (Test.ofValue v).relax = .ofValue v := by
  unfold Test.ofValue
  split
  · split <;> rfl
  · rfl
  · rfl

mutual

/-- The test of a pattern that is strict throughout forces nothing, and asks the same otherwise. -/
theorem Pattern.test_erase : ∀ p : Pattern, p.erase.test = p.test.relax
  | .wildcard _ | .constant _ _ => rfl
  | .factory _ c fields => by
    rw [Pattern.erase, Pattern.test, Pattern.test, Test.relax, Constructor.key_erase,
      Constructor.fields_erase]
    exact congrArg _ (Pattern.testFields_erase fields c.fields [])
  | .deferred _ content => (Test.relax_ofValue content).symm
  | .named _ inner _ => by
    rw [Pattern.erase, Pattern.test, Pattern.test, Test.relax, Pattern.test_erase inner]
  | .either _ alternatives => by
    rw [Pattern.erase, Pattern.test, Pattern.test, Test.relax, Pattern.tests_erase alternatives]
  | .verbatim token => (Test.relax_ofValue (.phrase token)).symm

theorem Pattern.testFields_erase :
    ∀ (ps : List Pattern) (names : List String) (subs : Table Test),
      Pattern.testFields names (Pattern.eraseAll ps) (Test.relaxFields subs) =
        Test.relaxFields (Pattern.testFields names ps subs)
  | [], names, subs => by cases names <;> rfl
  | p :: ps, [], subs => rfl
  | p :: ps, name :: names, subs => by
    rw [Pattern.eraseAll, Pattern.testFields, Pattern.testFields, Pattern.isWildcard_erase]
    cases p.isWildcard with
    | true => exact Pattern.testFields_erase ps names subs
    | false =>
      have hput (t : Test) : Table.put (Test.relaxFields subs) name t.relax =
          Test.relaxFields (Table.put subs name t) := by
        simp only [Test.relaxFields_eq, Table.put_map Test.relax]
      have hnested : (if p.demands = true then Test.strict p.test else p.test).relax =
          p.test.relax := by split <;> rfl
      simp only [Bool.false_eq_true, if_false, Pattern.demands_erase, Pattern.test_erase p]
      rw [← hnested, hput]
      exact Pattern.testFields_erase ps names _

theorem Pattern.tests_erase :
    ∀ ps : List Pattern, Pattern.tests (Pattern.eraseAll ps) = Test.relaxAll (Pattern.tests ps)
  | [] => rfl
  | p :: rest => by
    rw [Pattern.eraseAll, Pattern.tests, Pattern.tests, Test.relaxAll, Pattern.test_erase p,
      Pattern.tests_erase rest]

end

/-- What a row asks without the forcing. -/
def RowTest.relax : RowTest → RowTest
  | .row tests => .row (tests.map Test.relax)
  | .group alternatives => .group (alternatives.map (·.map Test.relax))
  | .otherwise => .otherwise

theorem PatternRow.test_erase (row : PatternRow) : row.erase.test = row.test.relax := by
  cases row <;>
    simp [PatternRow.erase, PatternRow.test, RowTest.relax, Function.comp_def, Pattern.test_erase]

/-! ### Compiled rules -/

variable {α : Type}

theorem patternRows_erase (r : Registry) (name : String) (rules : List (Rule α)) :
    patternRows r.erase.resolver name rules =
      (patternRows r.resolver name rules).map (·.map PatternRow.erase) := by
  induction rules with
  | nil => rfl
  | cons rule rules ih =>
    rw [patternRows, ofRow_erase, ih, patternRows]
    cases PatternRow.ofRow r.resolver rule.row with
    | error f => cases f <;> rfl
    | ok row => cases patternRows r.resolver name rules <;> rfl

theorem columnsOf_erase (flat : List (List Pattern)) (arity : ℕ) :
    columnsOf (flat.map (·.map Pattern.erase)) arity =
      (columnsOf flat arity).map (·.map (·.map Pattern.erase)) :=
  mapM_map_of_forall (column_erase flat) _

/-- What compiled rules are without the forcing: their parameters, and their tests relaxed. -/
def Compiled.outline (c : Compiled α) : List String × List (TestRow α) :=
  (c.plan.params, c.rows.map fun row => ⟨row.test.relax, row.action⟩)

theorem plainRows_erase (rows : List PatternRow) :
    plainRows (rows.map PatternRow.erase) = (plainRows rows).map (·.map Pattern.erase) := by
  simp [plainRows, List.flatMap_map, List.map_flatMap, PatternRow.rows_erase]

/-- Rules compile to the same outline with all constructors strict, or to the same fault. -/
theorem outline_ofRules_erase (r : Registry) (name : String) (rules : List (Rule α)) :
    (Compiled.ofRules r.resolver name rules).map Compiled.outline =
      (Compiled.ofRules r.erase.resolver name rules).map fun c => (c.plan.params, c.rows) := by
  have hplan {n : ℕ} {need : List Bool} (h : need.length = n) :
      ∃ plan, Plan.ofDemand (standardNames n) need = .ok plan ∧ plan.params = standardNames n := by
    rw [Plan.ofDemand, if_pos (by simp [standardNames, h])]
    exact ⟨_, rfl, rfl⟩
  unfold Compiled.ofRules patternsAndDemand
  rw [patternRows_erase]
  cases ruleWidth rules with
  | error f => cases f <;> rfl
  | ok arity =>
    cases hw : requireWidth (arity : Int) rules with
    | error f => cases f <;> simp only [hw, bind, Except.bind, located, Except.map]
    | ok u =>
      cases patternRows r.resolver name rules with
      | error f => cases f <;> simp only [hw, bind, Except.bind, located, Except.map]
      | ok rows =>
        simp only [hw, bind, Except.bind, located, Except.map, columnDemand, plainRows_erase,
          columnsOf_erase]
        cases columnsOf (plainRows rows) arity with
        | error f => cases f <;> rfl
        | ok columns =>
          obtain ⟨plan, hplan₁, hparams₁⟩ :=
            hplan (show (columns.map (·.any Pattern.demands)).length = columns.length by simp)
          obtain ⟨strict, hplan₂, hparams₂⟩ :=
            hplan (show ((columns.map (·.map Pattern.erase)).map (·.any Pattern.demands)).length =
              columns.length by simp)
          have htests : ((rows.map PatternRow.erase).zip rules).map
                (fun e => (⟨e.1.test, e.2.action⟩ : TestRow α)) =
              ((rows.zip rules).map fun e => (⟨e.1.test, e.2.action⟩ : TestRow α)).map
                fun row => ⟨row.test.relax, row.action⟩ := by
            simp [List.zip_map_left, Function.comp_def, PatternRow.test_erase]
          simp only [List.length_map, hplan₁, hplan₂, pure, Except.pure, Compiled.outline, hparams₁,
            hparams₂, htests]

/-- Registries that differ in laziness alone refuse rules with one fault, or compile them to one
outline. -/
theorem ofRules_of_erase_eq {r₁ r₂ : Registry} (h : r₁.erase = r₂.erase) (name : String)
    (rules : List (Rule α)) :
    (∃ f, Compiled.ofRules r₁.resolver name rules = .error f ∧
      Compiled.ofRules r₂.resolver name rules = .error f) ∨
    ∃ c₁ c₂, Compiled.ofRules r₁.resolver name rules = .ok c₁ ∧
      Compiled.ofRules r₂.resolver name rules = .ok c₂ ∧ c₁.outline = c₂.outline := by
  have h₁ := outline_ofRules_erase r₁ name rules
  rw [h, ← outline_ofRules_erase r₂ name rules] at h₁
  cases hc₁ : Compiled.ofRules r₁.resolver name rules with
  | error f₁ =>
    cases hc₂ : Compiled.ofRules r₂.resolver name rules with
    | error f₂ =>
      rw [hc₁, hc₂] at h₁
      cases h₁
      exact .inl ⟨f₁, rfl, rfl⟩
    | ok c₂ =>
      rw [hc₁, hc₂] at h₁
      cases h₁
  | ok c₁ =>
    cases hc₂ : Compiled.ofRules r₂.resolver name rules with
    | error f₂ =>
      rw [hc₁, hc₂] at h₁
      cases h₁
    | ok c₂ =>
      rw [hc₁, hc₂] at h₁
      exact .inr ⟨c₁, c₂, rfl, rfl, Except.ok.inj h₁⟩

end LazyMatch
