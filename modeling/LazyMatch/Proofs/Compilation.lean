import LazyMatch.Proofs.ForcePlan
import LazyMatch.Proofs.Outcome

/-!
# What compiling rules goes through

Compiling succeeds when every pass does. `Compiles` collects what the passes leave behind: the
common width of the rows, the resolved rows, the demand of each column, the plan and the tests. The
proofs about compiled rules start from it and need not look into the passes again.

* `ofPhrase_name`, `ofPhrase_compound`, `ofPhrase_either`: what a phrase resolves to;
* `Compiled.exists_of_ofRules`: rules that compile went through all passes;
* `Compiles.run_plan`: running the plan forces the columns in demand, from left to right;
* `exists_of_forceWhere`: what this hands on at each position;
* `demandOf_eq_true_iff`: a column is in demand when a pattern in it demands.
-/

namespace LazyMatch

variable {α : Type}

/-! ### Lists in step -/

theorem exists_of_mem_right {β γ : Type} {R : β → γ → Prop} {bs : List β} {cs : List γ}
    (h : List.Forall₂ R bs cs) {c : γ} (hc : c ∈ cs) : ∃ b ∈ bs, R b c := by
  induction h with
  | nil => simp at hc
  | cons hR _ ih =>
    rcases List.mem_cons.mp hc with rfl | hc
    · exact ⟨_, List.mem_cons_self, hR⟩
    · obtain ⟨b, hb, hR⟩ := ih hc
      exact ⟨b, List.mem_cons_of_mem _ hb, hR⟩

theorem map_eq_map_of_forall₂ {β γ δ : Type} {R : β → γ → Prop} {bs : List β} {cs : List γ}
    (h : List.Forall₂ R bs cs) {f : β → δ} {g : γ → δ} (hfg : ∀ b c, R b c → g c = f b) :
    cs.map g = bs.map f := by
  induction h with
  | nil => rfl
  | cons hR _ ih => rw [List.map_cons, List.map_cons, hfg _ _ hR, ih]

theorem forall₂_set {β γ : Type} {R : β → γ → Prop} {bs : List β} {cs : List γ}
    (h : List.Forall₂ R bs cs) {b : β} {c : γ} (hbc : R b c) (j : ℕ) :
    List.Forall₂ R (bs.set j b) (cs.set j c) := by
  induction h generalizing j with
  | nil => exact .nil
  | cons hR hrest ih =>
    cases j with
    | zero => exact .cons hbc hrest
    | succ j => exact .cons hR (ih j)

/-! ### The passes, one by one -/

theorem located_eq_ok {β : Type} {function : Option String} {row : Option Phrase}
    {x : Except Fault β} {b : β} : located function row x = .ok b ↔ x = .ok b := by
  cases x with
  | ok a => simp [located]
  | error f => cases f <;> simp [located]

theorem patternRows_eq_ok {resolve : Resolver} {name : String} {rules : List (Rule α)}
    {rows : List PatternRow} :
    patternRows resolve name rules = .ok rows ↔
      List.Forall₂ (fun rule row => PatternRow.ofRow resolve rule.row = .ok row) rules rows := by
  induction rules generalizing rows with
  | nil => cases rows <;> simp [patternRows]
  | cons rule rules ih =>
    simp only [patternRows, bind_eq_ok, located_eq_ok, ih]
    constructor
    · rintro ⟨row, hrow, rows', hrows, h⟩
      cases h
      exact .cons hrow hrows
    · rintro (_ | ⟨hrow, hrows⟩)
      exact ⟨_, hrow, _, hrows, rfl⟩

theorem ofPhrases_eq_ok {resolve : Resolver} {phrases : List Phrase} {patterns : List Pattern} :
    Pattern.ofPhrases resolve phrases = .ok patterns ↔
      List.Forall₂ (fun p q => Pattern.ofPhrase resolve p = .ok q) phrases patterns := by
  induction phrases generalizing patterns with
  | nil => cases patterns <;> simp [Pattern.ofPhrases]
  | cons p phrases ih =>
    simp only [Pattern.ofPhrases, bind_eq_ok, ih]
    constructor
    · rintro ⟨q, hq, patterns', hps, h⟩
      cases h
      exact .cons hq hps
    · rintro (_ | ⟨hq, hps⟩)
      exact ⟨_, hq, _, hps, rfl⟩

/-- What a registry has of each of its constructors, it has of whatever a tag resolves to. -/
theorem Registry.forall_resolve? {r : Registry} {P : Constructor → Prop}
    (hbare : ∀ e ∈ r.constructors, P e.2) (hown : ∀ d ∈ r.datatypes, ∀ e ∈ d.2.constructors, P e.2)
    {tag : String} {c : Constructor} (h : r.resolve? tag = some c) : P c := by
  unfold Registry.resolve? at h
  split at h
  · rename_i c' hc
    cases h
    exact hbare _ (Table.mem_of_get? hc)
  · split at h
    · obtain ⟨d, hd, hc⟩ := Option.bind_eq_some_iff.mp h
      exact hown _ (Table.mem_of_get? hd) _ (Table.mem_of_get? hc)
    · cases h

section Resolved

variable {r : Registry}

/-- What a bare identifier resolves to. -/
theorem ofPhrase_name {stamp : ℕ} {text : String} {q : Pattern}
    (h : Pattern.ofPhrase r.resolver (.name stamp text) = .ok q) :
    (text = "_" ∧ q = .wildcard (.name stamp text)) ∨
    (text ≠ "_" ∧ r.resolve? text = none ∧ q = .verbatim (.name stamp text)) ∨
    (∃ c, text ≠ "_" ∧ r.resolve? text = some c ∧ c.isConstant = true ∧
      q = .constant (.name stamp text) c) ∨
    (∃ c, text ≠ "_" ∧ r.resolve? text = some c ∧ c.isConstant = false ∧
      q = .factory (.name stamp text) c []) := by
  unfold Pattern.ofPhrase at h
  by_cases ht : text = "_"
  · simp only [ht, if_true] at h
    cases h
    exact .inl ⟨ht, by rw [ht]⟩
  · simp only [ht, if_false, Registry.resolver] at h
    cases hc : r.resolve? text with
    | none =>
      simp only [hc] at h
      cases h
      exact .inr (.inl ⟨ht, rfl, rfl⟩)
    | some c =>
      simp only [hc, bind, Except.bind] at h
      cases hk : c.isConstant with
      | true =>
        simp only [hk] at h
        cases h
        exact .inr (.inr (.inl ⟨c, ht, rfl, hk, rfl⟩))
      | false =>
        simp only [hk] at h
        cases h
        exact .inr (.inr (.inr ⟨c, ht, rfl, hk, rfl⟩))

/-- What a structured form resolves to. -/
theorem ofPhrase_compound {stamp : ℕ} {head : Ident} {fields : List Phrase} {q : Pattern}
    (h : Pattern.ofPhrase r.resolver (.compound stamp head fields) = .ok q) :
    ∃ c, r.resolve? head = some c ∧
      ((c.isConstant = true ∧ fields = [] ∧ q = .constant (.compound stamp head fields) c) ∨
        (c.isConstant = false ∧ ∃ qs, Pattern.ofPhrases r.resolver fields = .ok qs ∧
          q = .factory (.compound stamp head fields) c qs)) := by
  unfold Pattern.ofPhrase at h
  simp only [Registry.resolver] at h
  cases hc : r.resolve? head with
  | none =>
    simp only [hc] at h
    cases h
  | some c =>
    refine ⟨c, rfl, ?_⟩
    simp only [hc, bind, Except.bind] at h
    cases hk : c.isConstant with
    | true =>
      cases fields with
      | nil =>
        simp only [hk] at h
        cases h
        exact .inl ⟨rfl, rfl, rfl⟩
      | cons p rest =>
        simp only [hk] at h
        cases h
    | false =>
      simp only [hk] at h
      cases hqs : Pattern.ofPhrases r.resolver fields with
      | error f =>
        simp only [hqs] at h
        cases h
      | ok qs =>
        simp only [hqs] at h
        cases h
        exact .inr ⟨rfl, qs, rfl, rfl⟩

/-- What an alternation resolves to. -/
theorem ofPhrase_either {stamp : ℕ} {alternatives : List Phrase} {q : Pattern}
    (h : Pattern.ofPhrase r.resolver (.either stamp alternatives) = .ok q) :
    ∃ qs, Pattern.ofPhrases r.resolver alternatives = .ok qs ∧
      q = .either (.either stamp alternatives) qs := by
  unfold Pattern.ofPhrase at h
  obtain ⟨qs, hqs, h⟩ := bind_eq_ok.mp h
  obtain ⟨_, _, h⟩ := bind_eq_ok.mp h
  cases h
  exact ⟨qs, hqs, rfl⟩

end Resolved

/-- The plain rows of a resolved row are those of the rule, resolved. -/
theorem rows_of_ofRow {resolve : Resolver} {rule : RuleRow} {row : PatternRow}
    (h : PatternRow.ofRow resolve rule = .ok row) :
    List.Forall₂ (fun plain cells => Pattern.ofPhrases resolve plain.cells = .ok cells)
      rule.rows row.rows := by
  cases rule with
  | row plain =>
    obtain ⟨cells, hcells, rfl⟩ := map_eq_ok.mp h
    exact .cons hcells .nil
  | group stamp first rest =>
    simp only [PatternRow.ofRow, bind_eq_ok] at h
    obtain ⟨rows, hrows, _, _, h⟩ := h
    cases h
    exact mapM_eq_ok.mp hrows
  | otherwise =>
    cases h
    exact .nil

/-- When the width check succeeds, every plain row has the width. -/
theorem width_of_requireWidth {arity : ℕ} {rules : List (Rule α)}
    (h : requireWidth (arity : Int) rules = .ok ()) :
    ∀ rule ∈ rules, ∀ plain ∈ rule.row.rows, plain.width = arity := by
  induction rules with
  | nil => simp
  | cons rule rules ih =>
    rw [requireWidth] at h
    split at h
    · rename_i hfind
      intro rule' hmem plain hplain
      rcases List.mem_cons.mp hmem with rfl | hmem
      · have := List.find?_eq_none.mp hfind plain hplain
        exact Int.ofNat_inj.mp (by simpa using this)
      · exact ih h rule' hmem plain hplain
    · cases h

/-- A column of rows that are wide enough. -/
theorem column_eq_ok {flat : List (List Pattern)} {i : ℕ} {cells : List Pattern}
    (h : column flat i = .ok cells) : flat.map (·[i]?) = cells.map some := by
  unfold column at h
  split at h
  · rename_i cs hcs
    cases h
    clear * - hcs
    induction flat generalizing cells with
    | nil => simp_all
    | cons row flat ih =>
      simp only [List.mapM_cons, Option.bind_eq_bind, Option.bind_eq_some_iff] at hcs
      obtain ⟨c, hc, cs, hcs, h⟩ := hcs
      cases h
      simp [hc, ih hcs]
  · cases h

/-- For each position, whether some of the rows demands there. -/
def demandOf (flat : List (List Pattern)) (arity : ℕ) : List Bool :=
  (List.range arity).map fun i => flat.any fun cells => (cells[i]?).any Pattern.demands

@[simp] theorem length_demandOf (flat : List (List Pattern)) (arity : ℕ) :
    (demandOf flat arity).length = arity := by simp [demandOf]

/-- A position is in demand when one of the rows demands there. -/
theorem demandOf_eq_true_iff {flat : List (List Pattern)} {arity i : ℕ} :
    (demandOf flat arity)[i]? = some true ↔
      i < arity ∧ ∃ cells ∈ flat, ∃ p, cells[i]? = some p ∧ p.demands = true := by
  by_cases hi : i < arity
  · simp [demandOf, hi, Option.any_eq_true]
  · simp [demandOf, hi]

theorem columnDemand_eq_ok {flat : List (List Pattern)} {arity : ℕ} {need : List Bool}
    (h : columnDemand flat arity = .ok need) : need = demandOf flat arity := by
  obtain ⟨columns, hcolumns, rfl⟩ := map_eq_ok.mp h
  refine map_eq_map_of_forall₂ (mapM_eq_ok.mp hcolumns) fun i cells hcells => ?_
  have := congrArg (·.any (·.any Pattern.demands)) (column_eq_ok hcells)
  simpa [Function.comp_def] using this.symm

/-- The walk over the arguments hands on as many as there are. -/
theorem length_of_forceWhere {force : Value → Run Value} {need : List Bool}
    {args values : List Value} (hneed : need.length = args.length) {s s' : Store}
    (h : outcome (forceWhere force need args) s = (.ok values, s')) :
    values.length = args.length := by
  induction need generalizing args values s with
  | nil =>
    obtain rfl := List.length_eq_zero_iff.mp hneed.symm
    cases h
    rfl
  | cons needed need ih =>
    obtain _ | ⟨v, args⟩ := args
    · cases hneed
    rw [forceWhere_cons] at h
    obtain ⟨w, s₁, _, h⟩ := outcome_bind_eq_ok h
    obtain ⟨rest, s₂, hrest, h⟩ := outcome_bind_eq_ok h
    cases h
    rw [List.length_cons, List.length_cons, ih (by simpa using hneed) hrest]

/-- What the walk hands on at a position is what forcing the argument answered when its turn came,
if the position is in demand, and the argument otherwise. -/
theorem exists_of_forceWhere {force : Value → Run Value} {need : List Bool}
    {args values : List Value} {s s' : Store}
    (h : outcome (forceWhere force need args) s = (.ok values, s')) {k : ℕ} {w : Value}
    (hw : values[k]? = some w) :
    ∃ needed arg t t', need[k]? = some needed ∧ args[k]? = some arg ∧
      outcome (if needed then force arg else pure arg) t = (.ok w, t') := by
  induction need generalizing args values k s with
  | nil =>
    cases h
    cases hw
  | cons needed need ih =>
    obtain _ | ⟨arg, args⟩ := args
    · cases h
      cases hw
    rw [forceWhere_cons] at h
    obtain ⟨v, s₁, hv, h⟩ := outcome_bind_eq_ok h
    obtain ⟨rest, s₂, hrest, h⟩ := outcome_bind_eq_ok h
    cases h
    cases k with
    | zero =>
      cases hw
      exact ⟨needed, arg, s, s₁, rfl, rfl, hv⟩
    | succ k => exact ih hrest hw

/-- What stands where something is forced is what forcing answered. -/
theorem exists_force_of_forceWhere {force : Value → Run Value} {need : List Bool} {k : ℕ}
    (hk : need[k]? = some true) {args values : List Value} {s s' : Store} {w : Value}
    (h : outcome (forceWhere force need args) s = (.ok values, s')) (hw : values[k]? = some w) :
    ∃ arg t t', args[k]? = some arg ∧ outcome (force arg) t = (.ok w, t') := by
  obtain ⟨needed, arg, t, t', hneeded, harg, hforce⟩ := exists_of_forceWhere h hw
  cases hk.symm.trans hneeded
  exact ⟨arg, t, t', harg, hforce⟩

/-- What stands where nothing is forced is the argument. -/
theorem getElem?_of_forceWhere {force : Value → Run Value} {need : List Bool} {k : ℕ}
    (hk : need[k]? ≠ some true) {args values : List Value} {s s' : Store} {v : Value}
    (h : outcome (forceWhere force need args) s = (.ok values, s')) (hv : values[k]? = some v) :
    args[k]? = some v := by
  obtain ⟨needed, arg, t, t', hneeded, harg, hforce⟩ := exists_of_forceWhere h hv
  cases needed with
  | true => exact absurd hneeded hk
  | false =>
    cases hforce
    exact harg

/-! ### All passes -/

/-- What the passes over rules leave behind when all of them succeed. -/
structure Compiles (resolve : Resolver) (rules : List (Rule α)) (rows : List PatternRow)
    (arity : ℕ) (c : Compiled α) : Prop where
  arity_eq : ruleWidth rules = .ok arity
  width : ∀ rule ∈ rules, ∀ plain ∈ rule.row.rows, plain.width = arity
  resolved : List.Forall₂ (fun rule row => PatternRow.ofRow resolve rule.row = .ok row) rules rows
  plan : Plan.ofDemand (standardNames arity) (demandOf (plainRows rows) arity) = .ok c.plan
  tests : c.rows = (rows.zip rules).map fun (row, rule) => ⟨row.test, rule.action⟩

/-- Rules that compile went through all passes. -/
theorem Compiled.exists_of_ofRules {resolve : Resolver} {name : String} {rules : List (Rule α)}
    {c : Compiled α} (h : Compiled.ofRules resolve name rules = .ok c) :
    ∃ rows arity, Compiles resolve rules rows arity c := by
  simp only [Compiled.ofRules, bind_eq_ok, located_eq_ok, patternsAndDemand] at h
  obtain ⟨⟨rows, need⟩, ⟨arity, harity, _, hwidth, rows', hrows, need', hneed, heq⟩, plan, hplan,
    hc⟩ := h
  cases heq
  cases hc
  obtain rfl := columnDemand_eq_ok hneed
  rw [length_demandOf] at hplan
  exact ⟨rows, arity, harity, width_of_requireWidth hwidth, patternRows_eq_ok.mp hrows, hplan, rfl⟩

namespace Compiles

variable {resolve : Resolver} {rules : List (Rule α)} {rows : List PatternRow} {arity : ℕ}
  {c : Compiled α}

/-- Every resolved plain row has the common width. -/
theorem length_cells (h : Compiles resolve rules rows arity c) {cells : List Pattern}
    (hcells : cells ∈ plainRows rows) : cells.length = arity := by
  obtain ⟨row, hrow, hcells⟩ := List.mem_flatMap.mp hcells
  obtain ⟨rule, hrule, hres⟩ := exists_of_mem_right h.resolved hrow
  obtain ⟨plain, hplain, hcells⟩ := exists_of_mem_right (rows_of_ofRow hres) hcells
  rw [← (ofPhrases_eq_ok.mp hcells).length_eq]
  exact h.width rule hrule plain hplain

/-- Running the plan forces the columns in demand, from left to right. -/
theorem run_plan {m : Type → Type} [Monad m] [LawfulMonad m] [MonadExceptOf Stop m]
    (h : Compiles resolve rules rows arity c) (force : Value → m Value) {args : List Value}
    (hargs : args.length = arity) :
    c.plan.run force args = forceWhere force (demandOf (plainRows rows) arity) args :=
  Plan.run_ofDemand force (by simpa using h.plan) (by simpa using hargs)

/-- The plan binds a fresh name for each column in demand. -/
theorem plan_eq (h : Compiles resolve rules rows arity c) :
    c.plan = ⟨standardNames arity, bindingsFrom 0 (demandOf (plainRows rows) arity),
      dispatchFrom 0 (demandOf (plainRows rows) arity)⟩ := by
  have hplan := h.plan
  have hnames := Plan.ofDemand_standardNames (demandOf (plainRows rows) arity)
  rw [length_demandOf] at hnames
  rw [hnames, Except.ok.injEq] at hplan
  exact hplan.symm

theorem arity_ofCompiled {rules : List (Rule Value)} {c : Compiled Value}
    (h : Compiles resolve rules rows arity c) (name : String) (lazy : Bool) :
    (Function.ofCompiled name lazy c).arity = arity := by
  simp [Function.arity, Function.ofCompiled, h.plan_eq, standardNames]

/-- Each rule has been resolved, in its place. -/
theorem exists_of_rule (h : Compiles resolve rules rows arity c) {i : ℕ} {rule : Rule α}
    (hrule : rules[i]? = some rule) :
    ∃ row, rows[i]? = some row ∧ PatternRow.ofRow resolve rule.row = .ok row := by
  obtain ⟨hi, rfl⟩ := List.getElem?_eq_some_iff.mp hrule
  have hi' : i < rows.length := h.resolved.length_eq ▸ hi
  exact ⟨rows[i], List.getElem?_eq_getElem hi', h.resolved.get hi hi'⟩

/-- Row by row, compiled rules have the tests of the resolved rows and the actions of the rules. -/
theorem exists_of_row (h : Compiles resolve rules rows arity c) {i : ℕ} {row : TestRow α}
    (hrow : c.rows[i]? = some row) :
    ∃ row' rule, rows[i]? = some row' ∧ rules[i]? = some rule ∧
      row = ⟨row'.test, rule.action⟩ := by
  rw [h.tests, List.getElem?_map, Option.map_eq_some_iff] at hrow
  obtain ⟨⟨row', rule⟩, hzip, rfl⟩ := hrow
  obtain ⟨hrow', hrule⟩ := List.getElem?_zip_eq_some.mp hzip
  exact ⟨row', rule, hrow', hrule, rfl⟩

end Compiles

end LazyMatch
