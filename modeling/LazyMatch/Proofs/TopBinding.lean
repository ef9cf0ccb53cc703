import LazyMatch.Proofs.Independence
import LazyMatch.Proofs.Refusal

/-!
# What an action is given for a whole argument

A name at the top of a cell stands for the whole argument in its column. It is written by the match,
and the match works on the values that the force plan leaves: where some row asks for a lazy
constructor the argument has been forced, for every row. So the name is given what forcing answered
there, and the argument itself in all other columns.

* `Phrase.TopBinds`, `Row.TopBinds`: a name at the top of a cell that no other cell binds;
* `Test.Writes`, `binds_of_writes`: the names that a test writes are bound by its phrase;
* `get?_of_matches`: a test leaves all other names alone;
* `Row.Matched.exists_given`: what the row that has matched gives to a name at the top;
* `top_names_exact`: what a name at the top of a column is given, and when that is the argument.
-/

namespace LazyMatch

/-! ### Names that stand for a whole argument -/

/-- A phrase binds a name to the whole value: as a variable, as what an escape holds or as the name
that a part goes by, behind further names, and in every alternative. -/
inductive Phrase.TopBinds (r : Registry) (x : String) : Phrase → Prop
  | var (stamp : ℕ) : x ≠ "_" → r.resolve? x = none → TopBinds r x (.name stamp x)
  | escape (stamp stamp' : ℕ) : x ≠ "_" → TopBinds r x (.defer stamp (.phrase (.name stamp' x)))
  | label (stamp stamp' : ℕ) (inner : Phrase) : TopBinds r x (.named stamp inner ⟨stamp', x⟩)
  | inner {stamp : ℕ} {p : Phrase} {name : Ident} :
      TopBinds r x p → TopBinds r x (.named stamp p name)
  | alternatives {stamp : ℕ} {alternatives : List Phrase} :
      alternatives ≠ [] → (∀ p ∈ alternatives, TopBinds r x p) →
      TopBinds r x (.either stamp alternatives)

/-- A row binds a name at the top of one column, and in no other cell. -/
def Row.TopBinds (r : Registry) (plain : Row) (k : ℕ) (x : String) : Prop :=
  ∃ cell, plain.cells[k]? = some cell ∧ cell.TopBinds r x ∧
    ∀ j other, j ≠ k → plain.cells[j]? = some other → ¬ other.Binds r x

/-! ### Names that a test writes -/

/-- A test writes a name when it matches, or may do so. -/
inductive Test.Writes (x : String) : Test → Prop
  | bind : Writes x (.bind x)
  | label (inner : Test) : Writes x (.named inner x)
  | inner {t : Test} {name : String} : Writes x t → Writes x (.named t name)
  | field {key name : String} {subs : List (String × Test)} {t : Test} :
      (name, t) ∈ subs → Writes x t → Writes x (.fields key subs)
  | option {options : List Test} {t : Test} : t ∈ options → Writes x t → Writes x (.either options)
  | strict {t : Test} : Writes x t → Writes x (.strict t)

section Matching

variable {force : Value → Run Value} {x : String}

mutual

/-- A test leaves the names alone that it does not write. -/
theorem get?_of_matches :
    ∀ (t : Test) {v : Value} {b b' : Bindings} {s s' : Store}, ¬ t.Writes x →
      outcome (t.matches force v b) s = (.ok (some b'), s') →
      Table.get? b' x = Table.get? b x
  | .wild, v, b, b', s, s', _, h => by
    cases h
    rfl
  | .bind name, v, b, b', s, s', hx, h => by
    cases h
    have hname : x ≠ name := by
      rintro rfl
      exact hx .bind
    exact Table.get?_put_of_ne b hname v
  | .equal w, v, b, b', s, s', _, h => by
    rw [Test.matches, outcome_get_bind] at h
    split at h <;> cases h
    rfl
  | .tag key, v, b, b', s, s', _, h => by
    rw [Test.matches, outcome_get_bind, outcome_pure] at h
    split at h <;> cases h
    rfl
  | .fields key subs, v, b, b', s, s', hx, h => by
    rw [Test.matches, outcome_get_bind] at h
    split at h
    · exact get?_of_matchFields subs (fun e he ht => hx (.field he ht)) h
    · cases h
  | .named inner name, v, b, b', s, s', hx, h => by
    rw [Test.matches] at h
    obtain ⟨o, s₁, ho, h⟩ := outcome_bind_eq_ok h
    cases o with
    | none => cases h
    | some b₁ =>
      cases h
      have hname : x ≠ name := fun hname => hx (hname ▸ .label inner)
      rw [Table.get?_put_of_ne b₁ hname]
      exact get?_of_matches inner (fun ht => hx (.inner ht)) ho
  | .either options, v, b, b', s, s', hx, h => by
    rw [Test.matches] at h
    exact get?_of_matchFirst options (fun t ht hw => hx (.option ht hw)) h
  | .strict inner, v, b, b', s, s', hx, h => by
    rw [Test.matches] at h
    obtain ⟨w, s₁, _, h⟩ := outcome_bind_eq_ok h
    exact get?_of_matches inner (fun ht => hx (.strict ht)) h

theorem get?_of_matchFields :
    ∀ (subs : List (String × Test)) {ref : RecordRef} {b b' : Bindings} {s s' : Store},
      (∀ e ∈ subs, ¬ e.2.Writes x) →
      outcome (Test.matchFields force subs ref b) s = (.ok (some b'), s') →
      Table.get? b' x = Table.get? b x
  | [], ref, b, b', s, s', _, h => by
    cases h
    rfl
  | (name, t) :: rest, ref, b, b', s, s', hx, h => by
    rw [Test.matchFields, outcome_get_bind] at h
    split at h
    · cases h
    · obtain ⟨o, s₁, ho, h⟩ := outcome_bind_eq_ok h
      cases o with
      | none => cases h
      | some b₁ =>
        rw [List.forall_mem_cons] at hx
        rw [get?_of_matchFields rest hx.2 h, get?_of_matches t hx.1 ho]

theorem get?_of_matchFirst :
    ∀ (options : List Test) {v : Value} {b b' : Bindings} {s s' : Store},
      (∀ t ∈ options, ¬ t.Writes x) →
      outcome (Test.matchFirst force options v b) s = (.ok (some b'), s') →
      Table.get? b' x = Table.get? b x
  | [], v, b, b', s, s', _, h => by cases h
  | t :: rest, v, b, b', s, s', hx, h => by
    rw [Test.matchFirst] at h
    rw [List.forall_mem_cons] at hx
    obtain ⟨o, s₁, ho, h⟩ := outcome_bind_eq_ok h
    cases o with
    | none => exact get?_of_matchFirst rest hx.2 h
    | some b₁ =>
      cases h
      exact get?_of_matches t hx.1 ho

end

end Matching

section Resolved

variable {r : Registry} {x : String}

theorem Test.writes_ofValue {content : Value} (h : (Test.ofValue content).Writes x) :
    x ∈ Pattern.contentNames content := by
  unfold Test.ofValue at h
  unfold Pattern.contentNames
  split at h
  · split at h
    · cases h
    · rename_i ht
      cases h
      simp [ht]
  · cases h
  · cases h

theorem Pattern.writes_nested {q : Pattern} (h : q.nested.Writes x) : q.test.Writes x := by
  cases hd : q.demands with
  | true =>
    rw [Pattern.nested_of_demands hd] at h
    cases h with
    | strict h => exact h
  | false => rwa [Pattern.nested_of_not_demands hd] at h

mutual

/-- What the test of a phrase writes, the phrase binds. -/
theorem binds_of_writes :
    ∀ (p : Phrase) {q : Pattern}, Pattern.ofPhrase r.resolver p = .ok q → q.test.Writes x →
      p.Binds r x
  | .name stamp text, q, h, hx => by
    rcases ofPhrase_name h with ⟨_, rfl⟩ | ⟨ht, hc, rfl⟩ | ⟨c, _, _, _, rfl⟩ | ⟨c, _, _, _, rfl⟩
    · cases hx
    · have hname := Test.writes_ofValue hx
      rw [Pattern.contentNames, if_neg ht, List.mem_singleton] at hname
      exact Phrase.binds_name.mpr ⟨hname, ht, hc⟩
    · cases hx
    · rw [Pattern.test, Pattern.testFields_eq, subPatterns_nil_right] at hx
      obtain _ | _ | _ | ⟨hmem, _⟩ := hx
      cases hmem
  | .compound stamp head parts, q, h, hx => by
    obtain ⟨c, _, ⟨_, _, rfl⟩ | ⟨_, qs, hqs, rfl⟩⟩ := ofPhrase_compound h
    · cases hx
    · rw [Pattern.test, Pattern.testFields_eq_map] at hx
      obtain _ | _ | _ | ⟨hmem, hx⟩ := hx
      obtain ⟨⟨name, q⟩, hq, heq⟩ := List.mem_map.mp hmem
      cases heq
      have hq : q ∈ qs := (List.of_mem_zip (mem_zip_of_mem_fieldPatterns hq)).2
      obtain ⟨p, hp, hx⟩ := exists_binds_of_writes parts hqs hq (Pattern.writes_nested hx)
      exact .field hp hx
  | .named stamp inner name, q, h, hx => by
    obtain ⟨q', hq', rfl⟩ := map_eq_ok.mp h
    rw [Pattern.test] at hx
    cases hx with
    | label => exact .label stamp name.stamp inner
    | inner hx => exact .inner (binds_of_writes inner hq' hx)
  | .either stamp alternatives, q, h, hx => by
    obtain ⟨qs, hqs, rfl⟩ := ofPhrase_either h
    rw [Pattern.test, Pattern.tests_eq] at hx
    obtain _ | _ | _ | _ | ⟨hmem, hx⟩ := hx
    obtain ⟨q, hq, rfl⟩ := List.mem_map.mp hmem
    obtain ⟨p, hp, hx⟩ := exists_binds_of_writes alternatives hqs hq hx
    exact .alternative hp hx
  | .defer stamp content, q, h, hx => by
    cases h
    exact Phrase.binds_defer.mpr (Test.writes_ofValue hx)
  | .literal _ _, q, h, hx | .row _, q, h, hx | .group _ _ _, q, h, hx | .otherwise, q, h, hx => by
    cases h
    cases Test.writes_ofValue hx

theorem exists_binds_of_writes :
    ∀ (ps : List Phrase) {qs : List Pattern}, Pattern.ofPhrases r.resolver ps = .ok qs →
      ∀ {q : Pattern}, q ∈ qs → q.test.Writes x → ∃ p ∈ ps, p.Binds r x
  | [], qs, h, q, hq, _ => by
    cases h
    cases hq
  | p :: rest, qs, h, q, hq, hx => by
    obtain ⟨q₀, hq₀, h⟩ := bind_eq_ok.mp h
    obtain ⟨qs', hqs, h⟩ := bind_eq_ok.mp h
    cases h
    rcases List.mem_cons.mp hq with rfl | hq
    · exact ⟨p, List.mem_cons_self, binds_of_writes p hq₀ hx⟩
    · obtain ⟨p', hp', hx⟩ := exists_binds_of_writes rest hqs hq hx
      exact ⟨p', List.mem_cons_of_mem _ hp', hx⟩

end

end Resolved

/-! ### What a name at the top is given -/

section Given

variable {r : Registry} {force : Value → Run Value} {x : String}

/-- The first alternative that matches gives the value to a name that all of them give it to. -/
theorem get?_of_matchFirst_of_forall {tests : List Test} {v : Value}
    (hall : ∀ t ∈ tests, ∀ {b b' : Bindings} {s s' : Store},
      outcome (t.matches force v b) s = (.ok (some b'), s') → Table.get? b' x = some v)
    {b b' : Bindings} {s s' : Store}
    (h : outcome (Test.matchFirst force tests v b) s = (.ok (some b'), s')) :
    Table.get? b' x = some v := by
  induction tests generalizing s with
  | nil => cases h
  | cons t tests ih =>
    rw [List.forall_mem_cons] at hall
    rw [Test.matchFirst] at h
    obtain ⟨o, s₁, ho, h⟩ := outcome_bind_eq_ok h
    cases o with
    | none => exact ih hall.2 h
    | some b₁ =>
      cases h
      exact hall.1 ho

/-- A name at the top of a phrase is given the value that the phrase is matched with. -/
theorem Phrase.TopBinds.get? {p : Phrase} (hp : p.TopBinds r x) :
    ∀ {q : Pattern}, Pattern.ofPhrase r.resolver p = .ok q →
      ∀ {v : Value} {b b' : Bindings} {s s' : Store},
        outcome (q.test.matches force v b) s = (.ok (some b'), s') → Table.get? b' x = some v := by
  induction hp with
  | var stamp hx hnone =>
    intro q hq v b b' s s' h
    rcases ofPhrase_name hq with ⟨ht, _⟩ | ⟨_, _, rfl⟩ | ⟨c, _, hc, _⟩ | ⟨c, _, hc, _⟩
    · exact absurd ht hx
    · rw [Pattern.test, Test.ofValue, if_neg hx, Test.matches] at h
      cases h
      exact Table.get?_put_self b x v
    · cases hnone.symm.trans hc
    · cases hnone.symm.trans hc
  | escape stamp stamp' hx =>
    intro q hq v b b' s s' h
    cases hq
    rw [Pattern.test, Test.ofValue, if_neg hx, Test.matches] at h
    cases h
    exact Table.get?_put_self b x v
  | label stamp inner =>
    intro q hq v b b' s s' h
    obtain ⟨q', _, rfl⟩ := map_eq_ok.mp hq
    rw [Pattern.test, Test.matches] at h
    obtain ⟨o, s₁, _, h⟩ := outcome_bind_eq_ok h
    cases o with
    | none => cases h
    | some b₁ =>
      cases h
      exact Table.get?_put_self b₁ x v
  | @inner stamp p name _ ih =>
    intro q hq v b b' s s' h
    obtain ⟨q', hq', rfl⟩ := map_eq_ok.mp hq
    rw [Pattern.test, Test.matches] at h
    obtain ⟨o, s₁, ho, h⟩ := outcome_bind_eq_ok h
    cases o with
    | none => cases h
    | some b₁ =>
      cases h
      -- Both names stand for the same value, so it does not matter which is written last.
      by_cases hname : x = name
      · rw [hname]
        exact Table.get?_put_self b₁ name v
      · rw [Table.get?_put_of_ne b₁ hname]
        exact ih hq' ho
  | @alternatives stamp alternatives _ _ ih =>
    intro q hq v b b' s s' h
    obtain ⟨qs, hqs, rfl⟩ := ofPhrase_either hq
    rw [Pattern.test, Pattern.tests_eq, Test.matches] at h
    refine get?_of_matchFirst_of_forall (fun t ht b b' s s' h => ?_) h
    obtain ⟨q', hq', rfl⟩ := List.mem_map.mp ht
    obtain ⟨p, hp, hres⟩ := exists_of_mem_right (ofPhrases_eq_ok.mp hqs) hq'
    exact ih p hp hres h

/-- Cells that do not bind a name leave it alone. -/
theorem get?_of_matchVector {ps : List Phrase} {cells : List Pattern}
    (hcells : List.Forall₂ (fun p q => Pattern.ofPhrase r.resolver p = .ok q) ps cells)
    (hx : ∀ p ∈ ps, ¬ p.Binds r x) {values : List Value} {b b' : Bindings} {s s' : Store}
    (h : outcome (matchVector force (cells.map Pattern.test) values b) s = (.ok (some b'), s')) :
    Table.get? b' x = Table.get? b x := by
  induction hcells generalizing values b s with
  | nil =>
    rw [List.map_nil, matchVector] at h
    · cases h
      rfl
    · simp
  | @cons p q ps cells hq _ ih =>
    rw [List.forall_mem_cons] at hx
    cases values with
    | nil =>
      cases h
      rfl
    | cons v values =>
      rw [List.map_cons, matchVector] at h
      obtain ⟨o, s₁, ho, h⟩ := outcome_bind_eq_ok h
      cases o with
      | none => cases h
      | some b₁ =>
        rw [ih hx.2 h]
        exact get?_of_matches q.test (fun hw => hx.1 (binds_of_writes p hq hw)) ho

/-- A name at the top of one cell that no later cell binds is given the value in that column. -/
theorem get?_of_matchVector_top {ps : List Phrase} {cells : List Pattern}
    (hcells : List.Forall₂ (fun p q => Pattern.ofPhrase r.resolver p = .ok q) ps cells)
    {k : ℕ} {cell : Phrase} (hcell : ps[k]? = some cell) (htop : cell.TopBinds r x)
    (hx : ∀ (j : ℕ) (other : Phrase), j ≠ k → ps[j]? = some other → ¬ other.Binds r x)
    {values : List Value} (hlength : values.length = ps.length) {b b' : Bindings} {s s' : Store}
    (h : outcome (matchVector force (cells.map Pattern.test) values b) s = (.ok (some b'), s')) :
    Table.get? b' x = values[k]? := by
  induction hcells generalizing values b s k with
  | nil => cases hcell
  | @cons p q ps cells hq hcells ih =>
    obtain _ | ⟨v, values⟩ := values
    · cases hlength
    rw [List.map_cons, matchVector] at h
    obtain ⟨o, s₁, ho, h⟩ := outcome_bind_eq_ok h
    cases o with
    | none => cases h
    | some b₁ =>
      cases k with
      | zero =>
        cases hcell
        have hlater : ∀ p' ∈ ps, ¬ p'.Binds r x := by
          intro p' hp'
          obtain ⟨j, hj⟩ := List.mem_iff_getElem?.mp hp'
          exact hx (j + 1) p' (Nat.succ_ne_zero j) hj
        rw [get?_of_matchVector hcells hlater h, htop.get? hq ho]
        rfl
      | succ k =>
        exact ih hcell (fun j other hj => hx (j + 1) other (by omega)) (by simpa using hlength) h

/-- A rule that matches does so by one of its plain rows, unless it has none. -/
theorem exists_plain_of_matches {row : RuleRow} {prow : PatternRow}
    (hrow : PatternRow.ofRow r.resolver row = .ok prow) {values : List Value} {b : Bindings}
    {s s' : Store} (h : outcome (prow.test.matches force values) s = (.ok (some b), s')) :
    row.rows = [] ∨ ∃ plain ∈ row.rows, ∃ cells s₀,
      Pattern.ofPhrases r.resolver plain.cells = .ok cells ∧
      outcome (matchVector force (cells.map Pattern.test) values []) s₀ = (.ok (some b), s') := by
  have hrows := rows_of_ofRow hrow
  cases row with
  | row plain =>
    obtain ⟨cells, hcells, rfl⟩ := map_eq_ok.mp hrow
    exact .inr ⟨plain, List.mem_cons_self, cells, s, hcells, h⟩
  | group stamp first rest =>
    simp only [PatternRow.ofRow, bind_eq_ok] at hrow
    obtain ⟨rows, _, _, _, hrow⟩ := hrow
    cases hrow
    obtain ⟨tests, htests, s₀, hmatch⟩ := exists_of_matchGroup h
    obtain ⟨cells, hmem, rfl⟩ := List.mem_map.mp htests
    obtain ⟨plain, hplain, hcells⟩ := exists_of_mem_right hrows hmem
    exact .inr ⟨plain, hplain, cells, s₀, hcells, hmatch⟩
  | otherwise => exact .inl rfl

end Given

/-- What forcing answers is the value itself exactly when that is not deferred. -/
theorem force_eq_self_iff {env : Env} {fuel : ℕ} {v w : Value} {t t' : Store}
    (h : outcome (env.force fuel v) t = (.ok w, t')) : w = v ↔ v.isDeferred = false := by
  constructor
  · rintro rfl
    exact not_isDeferred_of_force h
  · intro hv
    cases fuel with
    | zero => cases h
    | succ fuel =>
      rw [Env.force, perform, step, forceLayers_of_not_isDeferred hv, outcome_pure] at h
      cases h
      rfl

/-- Whether a plain row is the one by which bindings have come about: it has matched what the plan
leaves of the arguments, from no bindings on. -/
def Row.Matched (r : Registry) (force : Value → Run Value) (c : Compiled Value) (args : List Value)
    (s : Store) (b : Bindings) (s' : Store) (plain : Row) : Prop :=
  ∃ values s₁ cells s₂, outcome (c.plan.run force args) s = (.ok values, s₁) ∧
    Pattern.ofPhrases r.resolver plain.cells = .ok cells ∧
    outcome (matchVector force (cells.map Pattern.test) values []) s₂ = (.ok (some b), s')

/-- What the row that has matched gives to a name at the top of a column: what forcing the argument
answered, if some row asks for a lazy constructor there, and otherwise the argument. -/
theorem Row.Matched.exists_given {r : Registry} {rules : List (Rule Value)} {rows : List PatternRow}
    {arity : ℕ} {c : Compiled Value} (h : Compiles r.resolver rules rows arity c) {env : Env}
    {fuel : ℕ} {args : List Value} (hargs : args.length = arity) {s s' : Store} {b : Bindings}
    {plain : Row} (hplain : plain.Matched r (env.force fuel) c args s b s')
    (hwidth : plain.cells.length = arity) {k : ℕ} {x : String} (htop : plain.TopBinds r k x) :
    ∃ arg w, args[k]? = some arg ∧ Table.get? b x = some w ∧
      (asksLazyAt r rules k = true →
        w.isDeferred = false ∧ ∃ t t', outcome (env.force fuel arg) t = (.ok w, t')) ∧
      (w = arg ↔ (asksLazyAt r rules k = false ∨ arg.isDeferred = false)) := by
  obtain ⟨values, s₁, cells, s₂, hplan, hcells, hmatch⟩ := hplain
  obtain ⟨cell, hcell, htop, hother⟩ := htop
  rw [h.run_plan _ hargs, demandOf_eq_asksLazyAt h.resolved] at hplan
  have hlength : values.length = arity := by
    rw [length_of_forceWhere (by simpa using hargs.symm) hplan, hargs]
  have hget := get?_of_matchVector_top (ofPhrases_eq_ok.mp hcells) hcell htop hother
    (hlength.trans hwidth.symm) hmatch
  obtain ⟨hk, _⟩ := List.getElem?_eq_some_iff.mp hcell
  have hk : k < arity := hwidth ▸ hk
  obtain ⟨w, hw⟩ : ∃ w, values[k]? = some w := ⟨_, List.getElem?_eq_getElem (hlength ▸ hk)⟩
  rw [hw] at hget
  have hneed : ((List.range arity).map (asksLazyAt r rules))[k]? =
      some (asksLazyAt r rules k) := by simp [hk]
  cases hasks : asksLazyAt r rules k with
  | false =>
    have harg := getElem?_of_forceWhere (by rw [hneed, hasks]; simp) hplan hw
    exact ⟨w, w, harg, hget, by simp, by simp⟩
  | true =>
    obtain ⟨arg, t, t', harg, hforce⟩ := exists_force_of_forceWhere (hasks ▸ hneed) hplan hw
    refine ⟨arg, w, harg, hget, fun _ => ⟨not_isDeferred_of_force hforce, t, t', hforce⟩, ?_⟩
    simpa using force_eq_self_iff hforce

/-- **What an action is given for a whole argument.** When dispatch of compiled rules selects a
rule, one of its plain rows has matched, if it has any, and for that row the following holds. A name
that it binds at the top of a column and in no other cell is among the bindings that the action is
handed. If some row of the rules asks for a lazy constructor in the column, it is given what forcing
the argument answered, which is never deferred. It is given the very argument exactly if no row asks
for a lazy constructor there or the argument is not deferred. And this is what a parameter of that
name gets, of an action that wants its bindings. -/
theorem top_names_exact {r : Registry} {name : String} {rules : List (Rule Value)}
    {c : Compiled Value} (hc : Compiled.ofRules r.resolver name rules = .ok c) {env : Env}
    {fuel : ℕ} {args : List Value}
    (hargs : args.length = (Function.ofCompiled name false c).arity) {s s' : Store} {i : ℕ}
    {b : Bindings}
    (hchoose : outcome (c.choose (env.force fuel) args) s = (.ok (some (i, b)), s')) :
    Selects (env.force fuel) name rules c args s i b s' ∧
    ∃ rule, rules[i]? = some rule ∧
      (rule.row.rows = [] ∨ ∃ plain ∈ rule.row.rows,
        plain.Matched r (env.force fuel) c args s b s' ∧ ∀ k x, plain.TopBinds r k x →
        ∃ arg w, args[k]? = some arg ∧ Table.get? b x = some w ∧
          (asksLazyAt r rules k = true →
            w.isDeferred = false ∧ ∃ t t', outcome (env.force fuel arg) t = (.ok w, t')) ∧
          (w = arg ↔ (asksLazyAt r rules k = false ∨ arg.isDeferred = false)) ∧
          ∀ (params : List (Param Value)), ∀ p ∈ params, p.takesName = true → p.key = x →
            Table.get? (wanted params b) p.key = some w) := by
  obtain ⟨rows, arity, h⟩ := Compiled.exists_of_ofRules hc
  rw [h.arity_ofCompiled] at hargs
  refine ⟨h.selects name hchoose, ?_⟩
  obtain ⟨values, s₁, hplan, hselect⟩ := outcome_bind_eq_ok hchoose
  obtain ⟨j, row, s₂, hj, hrow, hmatch⟩ := matches_of_numbered_some hselect
  obtain rfl : i = j := by omega
  obtain ⟨prow, rule, hprow, hrule, rfl⟩ := h.exists_of_row hrow
  obtain ⟨prow', hprow', hres⟩ := h.exists_of_rule hrule
  cases hprow.symm.trans hprow'
  refine ⟨rule, hrule, (exists_plain_of_matches hres hmatch).imp_right ?_⟩
  rintro ⟨plain, hplain, cells, s₀, hcells, hmatch⟩
  have hmatched : plain.Matched r (env.force fuel) c args s b s' :=
    ⟨values, s₁, cells, s₀, hplan, hcells, hmatch⟩
  refine ⟨plain, hplain, hmatched, fun k x htop => ?_⟩
  obtain ⟨arg, w, harg, hget, hforced, hself⟩ :=
    hmatched.exists_given h hargs (h.width rule (List.mem_of_getElem? hrule) plain hplain) htop
  refine ⟨arg, w, harg, hget, hforced, hself, fun params p hp hname hkey => ?_⟩
  rw [get?_wanted hp hname, hkey, hget]

/-- The argument as it is, before a rule that asks for the empty stream. -/
def asItIsRules : List (Rule Value) :=
  [⟨.row (.mk 1 [.defer 2 (.phrase (.name 3 "x"))]), .closure ⟨0⟩⟩,
    ⟨.row (.mk 4 [.name 5 "Nil"]), .null⟩]

/-- A store with the number five, which has been put off. -/
def pendingFive : Store where
  thunks := #[.pending (.expr none [] (.constant (.int 5)))]

/-- The first rule asks for nothing, and still its name is not given the argument. -/
theorem top_names_exact_five :
    ∃ c s', Compiled.ofRules streams.resolver "f" asItIsRules = .ok c ∧
      outcome (c.choose (Env.force {} 5) [.thunk ⟨0⟩]) pendingFive =
        (.ok (some (0, [("x", .int 5)])), s') ∧
      Row.TopBinds streams (.mk 1 [.defer 2 (.phrase (.name 3 "x"))]) 0 "x" ∧
      ∃ arg w, [Value.thunk ⟨0⟩][0]? = some arg ∧ Table.get? [("x", Value.int 5)] "x" = some w ∧
        w.isDeferred = false ∧ w ≠ arg := by
  obtain ⟨c, hc⟩ : ∃ c, Compiled.ofRules streams.resolver "f" asItIsRules = .ok c := ⟨_, rfl⟩
  obtain ⟨s', hchoose⟩ : ∃ s', outcome (c.choose (Env.force {} 5) [.thunk ⟨0⟩]) pendingFive =
      (.ok (some (0, [("x", .int 5)])), s') := by
    have hchosen : (outcome (c.choose (Env.force {} 5) [.thunk ⟨0⟩]) pendingFive).1.toOption =
        some (some (0, [("x", .int 5)])) := by
      cases hc
      decide +kernel
    rcases hrun : outcome (c.choose (Env.force {} 5) [.thunk ⟨0⟩]) pendingFive with ⟨_ | o, s'⟩ <;>
      rw [hrun] at hchosen <;> cases hchosen
    exact ⟨s', rfl⟩
  have htop : Row.TopBinds streams (.mk 1 [.defer 2 (.phrase (.name 3 "x"))]) 0 "x" := by
    refine ⟨_, rfl, .escape 2 3 (by decide), fun j other hj hother => ?_⟩
    obtain _ | j := j
    · exact absurd rfl hj
    · cases hother
  have hasks : asksLazyAt streams asItIsRules 0 = true := by decide +kernel
  obtain ⟨_, rule, hrule, hgiven⟩ := top_names_exact hc (by cases hc; rfl) hchoose
  cases hrule
  rcases hgiven with hnone | ⟨plain, hplain, _, hgiven⟩
  · cases hnone
  obtain rfl := List.mem_singleton.mp hplain
  obtain ⟨arg, w, harg, hget, hforced, hself, _⟩ := hgiven 0 "x" htop
  refine ⟨c, s', hc, hchoose, htop, arg, w, harg, hget, (hforced hasks).1, fun heq => ?_⟩
  cases harg
  rcases hself.mp heq with hasks' | hplain'
  · cases hasks.symm.trans hasks'
  · cases hplain'

end LazyMatch
