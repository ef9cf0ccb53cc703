import LazyMatch.Proofs.Acceptance
import LazyMatch.Proofs.Selection
import LazyMatch.Proofs.Settling
import LazyMatch.Proofs.Term

/-!
# Laziness is transparent

Two registries that differ in laziness alone compile rules alike, and on constructor terms, each
built by its own constructors, the compiled functions select the same rule. What they bind comes to
the same trees when it is forced throughout. Both follow from what one registry does: on values that
represent trees, dispatch selects what the tests accept on the trees.

* `selects_or_fails`: dispatch in one registry;
* `laziness_transparent`: dispatch in two.
-/

namespace LazyMatch

/-! ### Nothing matches -/

section Summary

variable {reg : Registry} {s : Store}

/-- What represents a record is described by its tag, or as deferred. -/
theorem summary_of_represents {trees : Table Tree} {v : Value}
    (h : (Tree.record trees).Represents reg s v) : ∃ text, s.summary v = .ok (.text text) := by
  have htag {r : RecordRef} (hr : (Tree.record trees).Represents reg s (.record r)) :
      ∃ key, s.tag (.record r) = .text key := by
    have hentries := hr.entries
    obtain ⟨c, _, _, hmakes, _⟩ := hr
    obtain ⟨w, hw, rfl, _⟩ := hentries.field hmakes.tag
    exact ⟨c.key, by simp [Store.tag, Store.field?, hw]⟩
  have hsummary {r : RecordRef} (hr : (Tree.record trees).Represents reg s (.record r))
      (hfollow : s.follow (s.thunks.size + 1) [] v = .record r) :
      ∃ text, s.summary v = .ok (.text text) := by
    obtain ⟨key, hkey⟩ := htag hr
    exact ⟨key, by simp [Store.summary, hfollow, hkey]⟩
  cases hv : v.isDeferred with
  | false =>
    obtain ⟨c, r, hc, hmakes, hr, rfl | ⟨_, t, rfl, _⟩, hall⟩ := h
    · exact hsummary ⟨c, r, hc, hmakes, hr, .inl rfl, hall⟩ rfl
    · cases hv
  | true =>
    obtain ⟨t, rfl⟩ := Value.eq_thunk_of_isDeferred hv
    obtain ⟨r, hdefers, hr⟩ := h.exists_defers
    have hpending {c : Computation} (hc : s.cell t = .pending c) :
        ∃ text, s.summary (.thunk t) = .ok (.text text) :=
      ⟨"<deferred>", by simp [Store.summary, Store.follow, hc]⟩
    -- Only what has been computed is followed, and there the record stands at once.
    rcases hdefers with hcell | hcell | hcell
    · exact hpending hcell
    · exact hpending hcell
    · refine hsummary hr ?_
      simp only [Store.follow, List.not_mem_nil, if_false, hcell]
      cases s.thunks.size <;> rfl

theorem noMatch_of_represents {trees : List Tree} {values : List Value}
    (h : List.Forall₂ (fun tree v => (∃ entries, tree = .record entries) ∧ tree.Represents reg s v)
      trees values) (name : String) :
    ∃ tags, s.noMatch name values = .fault (.noMatch name tags) := by
  have hsummaries : ∃ texts : List String, values.mapM s.summary = .ok (texts.map .text) := by
    induction h with
    | nil => exact ⟨[], rfl⟩
    | cons hv _ ih =>
      obtain ⟨⟨entries, rfl⟩, hrep⟩ := hv
      obtain ⟨text, htext⟩ := summary_of_represents hrep
      obtain ⟨texts, htexts⟩ := ih
      exact ⟨text :: texts, by rw [List.mapM_cons, htext, htexts]; rfl⟩
  obtain ⟨texts, htexts⟩ := hsummaries
  exact ⟨texts, by simp only [Store.noMatch, htexts, Value.mapM_text?_eq_some.mpr rfl]⟩

end Summary

/-! ### Dispatch in one registry -/

/-- Dispatch of compiled rules fails, since no rule matches. -/
def Fails (force : Value → Run Value) (name : String) (c : Compiled Value) (args : List Value)
    (s : Store) : Prop :=
  ∃ tags s', outcome (c.choose force args) s = (.ok none, s') ∧
    ∀ (lazy : Bool) (act : Handler → Bindings → Run Value),
      outcome ((Function.ofCompiled name lazy c).dispatch force act args) s =
        (.error (.fault (.noMatch name tags)), s')

section Dispatch

variable {reg : Registry} {name : String} {rules : List (Rule Value)} {rows : List PatternRow}
  {arity : ℕ} {c : Compiled Value}

/-- The tests of a plain row are guarded, since the columns of patterns that demand are forced. -/
theorem Compiles.guardedVector (h : Compiles reg.resolver rules rows arity c)
    {cells : List Pattern} (hcells : cells ∈ plainRows rows)
    (hguarded : ∀ q ∈ cells, ∀ forced, (q.demands = true → forced = true) →
      q.test.Guarded reg forced) :
    GuardedVector reg (demandOf (plainRows rows) arity) (cells.map Pattern.test) := by
  have hlength := h.length_cells hcells
  refine List.forall₂_iff_get.mpr ⟨by simp [hlength], fun i hi hneed => ?_⟩
  simp only [List.length_map] at hi
  rw [List.get_eq_getElem, List.getElem_map]
  refine hguarded _ (List.getElem_mem hi) _ fun hd => ?_
  have hdemand := demandOf_eq_true_iff.mpr
    ⟨hlength ▸ hi, cells, hcells, _, List.getElem?_eq_getElem hi, hd⟩
  rw [List.getElem?_eq_getElem hneed] at hdemand
  exact Option.some.inj hdemand

theorem Row.areGround_cells {r : Row} (h : r.isGround = true) :
    Phrase.areGround r.cells = true := by
  cases r
  exact h

theorem Row.isGround_of_areGround {rows : List Row} (h : Row.areGround rows = true) :
    ∀ r ∈ rows, r.isGround = true := by
  induction rows with
  | nil => simp
  | cons r rows ih =>
    rw [Row.areGround, Bool.and_eq_true] at h
    intro r' hr'
    rcases List.mem_cons.mp hr' with rfl | hr'
    · exact h.1
    · exact ih h.2 r' hr'

/-- The plain rows of a ground rule are ground. -/
theorem RuleRow.areGround_cells {row : RuleRow} (h : row.isGround = true) :
    ∀ plain ∈ row.rows, Phrase.areGround plain.cells = true := by
  intro plain hplain
  cases row with
  | row r =>
    obtain rfl := List.mem_singleton.mp hplain
    exact Row.areGround_cells h
  | group stamp first rest =>
    obtain ⟨hfirst, hrest⟩ := Bool.and_eq_true_iff.mp h
    rcases List.mem_cons.mp hplain with rfl | hplain
    · exact Row.areGround_cells hfirst
    · exact Row.areGround_cells (Row.isGround_of_areGround hrest plain hplain)
  | otherwise => cases hplain

/-- The tests of compiled rules are guarded. -/
theorem Compiles.guarded (h : Compiles reg.resolver rules rows arity c)
    (hground : ∀ rule ∈ rules, rule.row.isGround = true) :
    ∀ t ∈ c.rows, t.test.Guarded reg (demandOf (plainRows rows) arity) := by
  rw [h.tests]
  intro t ht
  obtain ⟨⟨row, rule⟩, hmem, rfl⟩ := List.mem_map.mp ht
  have hrow : row ∈ rows := (List.of_mem_zip hmem).1
  have hvector : ∀ cells ∈ row.rows,
      GuardedVector reg (demandOf (plainRows rows) arity) (cells.map Pattern.test) := by
    intro cells hcells
    obtain ⟨rule', hrule', hres⟩ := exists_of_mem_right h.resolved hrow
    obtain ⟨plain, hplain, hphrases⟩ := exists_of_mem_right (rows_of_ofRow hres) hcells
    exact h.guardedVector (List.mem_flatMap.mpr ⟨row, hrow, hcells⟩)
      (guarded_of_ofPhrases plain.cells hphrases
        (RuleRow.areGround_cells (hground rule' hrule') plain hplain))
  cases row with
  | row cells => exact hvector cells List.mem_cons_self
  | group alternatives =>
    intro tests htests
    obtain ⟨cells, hcells, rfl⟩ := List.mem_map.mp htests
    exact hvector cells hcells
  | otherwise => trivial

theorem guarded_numbered {α : Type} {need : List Bool} {rows : List (TestRow α)}
    (h : ∀ t ∈ rows, t.test.Guarded reg need) (k : ℕ) :
    ∀ t ∈ numbered k rows, t.test.Guarded reg need := by
  intro t ht
  obtain ⟨⟨row, i⟩, hmem, rfl⟩ := List.mem_map.mp ht
  exact h row (List.fst_mem_of_mem_zipIdx hmem)

/-- On values that represent the trees of terms, dispatch selects the first rule that accepts the
trees, with bindings that represent those of the trees, and it fails when there is none. -/
theorem selects_or_fails (hkeys : reg.DistinctKeys)
    (hc : Compiled.ofRules reg.resolver name rules = .ok c)
    (hground : ∀ rule ∈ rules, rule.row.isGround = true) {force : Value → Run Value}
    (hforce : Forces reg force) {trees : List Tree} {args : List Value} {s : Store}
    (hrecords : ∀ tree ∈ trees, ∃ entries, tree = .record entries)
    (hargs : List.Forall₂ (fun tree v => tree.Represents reg s v) trees args)
    (hlength : args.length = (Function.ofCompiled name false c).arity) :
    (∃ i bound b s', acceptRows trees (numbered 0 c.rows) = some (i, bound) ∧
      Selects force name rules c args s i b s' ∧ Tree.RepresentsTable reg s' bound b) ∨
    (acceptRows trees (numbered 0 c.rows) = none ∧ Fails force name c args s) := by
  obtain ⟨rows, arity, h⟩ := Compiled.exists_of_ofRules hc
  rw [h.arity_ofCompiled] at hlength
  have hneed : (demandOf (plainRows rows) arity).length = trees.length := by
    rw [length_demandOf, hargs.length_eq, hlength]
  -- After the plan the values represent the same trees, and those in demand are forced.
  obtain ⟨values, s₁, hplan, hs₁, hready⟩ := outcome_forceWhere hforce hneed hargs
  rw [← h.run_plan force hlength] at hplan
  obtain ⟨result, s', hselect, hs', hrel⟩ :=
    answers_select hkeys hforce (guarded_numbered (h.guarded hground) 0) hready
  have hchoose : outcome (c.choose force args) s = (.ok result, s') := by
    rw [Compiled.choose, outcome_bind_ok hplan, hselect]
  cases haccept : acceptRows trees (numbered 0 c.rows) with
  | some chosen =>
    rw [haccept] at hrel
    obtain ⟨i, bound⟩ := chosen
    cases hrel with
    | @some _ found hfound =>
      obtain ⟨_, b⟩ := found
      obtain ⟨rfl, hbound⟩ := hfound
      exact .inl ⟨_, bound, b, s', rfl, h.selects name hchoose, hbound⟩
  | none =>
    rw [haccept] at hrel
    cases hrel
    refine .inr ⟨rfl, ?_⟩
    obtain ⟨tags, htags⟩ := noMatch_of_represents ((hready.mono hs').represents hrecords) name
    have hnone := findsNone_of_choose name hplan hchoose
    exact ⟨tags, s', hchoose, fun lazy act => by rw [hnone.dispatch, htags]⟩

end Dispatch

theorem forces_force (reg : Registry) (env : Env) (fuel : ℕ) :
    Forces reg (env.force (fuel + 2)) := fun h => by
  obtain ⟨v', s', hforce, hs, hv', hrep⟩ := outcome_force h env
  exact ⟨v', s', hforce fuel, hs, hv', hrep⟩

/-! ### Dispatch in two registries -/

theorem numbered_relax {α : Type} (k : ℕ) (rows : List (TestRow α)) :
    numbered k (rows.map fun row => ⟨row.test.relax, row.action⟩) =
      (numbered k rows).map fun row => ⟨row.test.relax, row.action⟩ := by
  induction rows generalizing k with
  | nil => rfl
  | cons row rows ih => rw [List.map_cons, numbered_cons, numbered_cons, List.map_cons, ih]

/-- Compiled rules that differ in forcing alone accept the same trees. -/
theorem acceptRows_of_outline_eq {c₁ c₂ : Compiled Value} (h : c₁.outline = c₂.outline)
    (trees : List Tree) :
    acceptRows trees (numbered 0 c₁.rows) = acceptRows trees (numbered 0 c₂.rows) := by
  rw [← acceptRows_relax trees (numbered 0 c₁.rows), ← numbered_relax,
    show c₁.rows.map _ = c₂.rows.map _ from congrArg Prod.snd h, numbered_relax, acceptRows_relax]

theorem arity_of_outline_eq {c₁ c₂ : Compiled Value} (h : c₁.outline = c₂.outline)
    (name : String) (lazy : Bool) :
    (Function.ofCompiled name lazy c₁).arity = (Function.ofCompiled name lazy c₂).arity :=
  congrArg (fun outline => outline.1.length) h

/-- The tree of a term that applies a constructor is a record. -/
theorem Term.exists_record (r : Registry) {terms : List Term}
    (h : ∀ t ∈ terms, t.isNode = true) :
    ∀ tree ∈ Term.treeAll r terms, ∃ entries, tree = .record entries := by
  induction terms with
  | nil => simp [Term.treeAll]
  | cons t terms ih =>
    obtain ⟨ht, hterms⟩ := List.forall_mem_cons.mp h
    refine List.forall_mem_cons.mpr ⟨?_, ih hterms⟩
    cases t with
    | atom v => cases ht
    | node name args =>
      rw [Term.tree]
      cases r.constructors.get? name <;> exact ⟨_, rfl⟩

/-- Bindings in two stores that, forced throughout, have the same names and are the same trees. -/
def CompleteAlike (env₁ : Env) (b₁ : Bindings) (s₁ : Store) (env₂ : Env) (b₂ : Bindings)
    (s₂ : Store) : Prop :=
  ∃ n b₁' s₁' b₂' s₂',
    (∀ fuel, outcome (completeAll (perform env₁ (fuel + n)) b₁) s₁ = (.ok b₁', s₁')) ∧
    (∀ fuel, outcome (completeAll (perform env₂ (fuel + n)) b₂) s₂ = (.ok b₂', s₂')) ∧
    List.Forall₂ (fun e₁ e₂ => e₁.1 = e₂.1 ∧
      ∃ tree : Tree, tree.Unfolds s₁' e₁.2 ∧ tree.Unfolds s₂' e₂.2) b₁' b₂'

/-- Bindings that represent the same trees complete alike, each in its own registry and store. -/
theorem completeAlike_of_represents {r₁ r₂ : Registry} {trees : Table Tree} {b₁ b₂ : Bindings}
    {s₁ s₂ : Store} (h₁ : Tree.RepresentsTable r₁ s₁ trees b₁)
    (h₂ : Tree.RepresentsTable r₂ s₂ trees b₂) (env₁ env₂ : Env) :
    CompleteAlike env₁ b₁ s₁ env₂ b₂ s₂ := by
  obtain ⟨n₁, b₁', s₁', hrun₁, _, hall₁⟩ := outcome_completeAll env₁ h₁
  obtain ⟨n₂, b₂', s₂', hrun₂, _, hall₂⟩ := outcome_completeAll env₂ h₂
  refine ⟨n₁ + n₂, b₁', s₁', b₂', s₂', fun fuel => ?_, fun fuel => ?_, ?_⟩
  · rw [show fuel + (n₁ + n₂) = fuel + n₂ + n₁ by omega, hrun₁]
  · rw [show fuel + (n₁ + n₂) = fuel + n₁ + n₂ by omega, hrun₂]
  · refine forall₂_trans (fun e₁ e e₂ he₁ he₂ => ?_) hall₁.flip hall₂
    exact ⟨he₁.1.trans he₂.1.symm, e.2, he₁.2.unfolds, he₂.2.unfolds⟩

/-- Declarations that differ in laziness alone, with distinct keys, compile rules with ground
literals alike: both registries refuse the rules for the same reason, or both accept them. On
constructor terms that each registry builds for itself, the two functions then select the same rule,
with bindings that are the same once they are forced throughout, or both find no match. -/
theorem laziness_transparent {ds₁ ds₂ : List Declaration} {r₁ r₂ : Registry}
    (hsame : ds₁.map Declaration.outline = ds₂.map Declaration.outline)
    (hkeys : ((ds₁.flatMap fun d => d.outline.variants).map Constructor.key).Nodup)
    (h₁ : Registry.empty.declareAll ds₁ = .ok r₁) (h₂ : Registry.empty.declareAll ds₂ = .ok r₂)
    (name : String) {rules : List (Rule Value)}
    (hground : ∀ rule ∈ rules, rule.row.isGround = true) :
    (∃ f, Compiled.ofRules r₁.resolver name rules = .error f ∧
      Compiled.ofRules r₂.resolver name rules = .error f) ∨
    ∃ c₁ c₂, Compiled.ofRules r₁.resolver name rules = .ok c₁ ∧
      Compiled.ofRules r₂.resolver name rules = .ok c₂ ∧
      ∀ terms, Term.areWellFormed r₁ terms = true → (∀ t ∈ terms, t.isNode = true) →
        terms.length = (Function.ofCompiled name false c₁).arity →
        ∀ s, ∃ args₁ s₁ args₂ s₂, outcome (r₁.construct terms) s = (.ok args₁, s₁) ∧
          outcome (r₂.construct terms) s = (.ok args₂, s₂) ∧
          ∀ env₁ env₂ fuel₁ fuel₂,
            (∃ i b₁ t₁ b₂ t₂,
              Selects (env₁.force (fuel₁ + 2)) name rules c₁ args₁ s₁ i b₁ t₁ ∧
              Selects (env₂.force (fuel₂ + 2)) name rules c₂ args₂ s₂ i b₂ t₂ ∧
              CompleteAlike env₁ b₁ t₁ env₂ b₂ t₂) ∨
            (Fails (env₁.force (fuel₁ + 2)) name c₁ args₁ s₁ ∧
              Fails (env₂.force (fuel₂ + 2)) name c₂ args₂ s₂) := by
  have herase := erase_eq_of_declareAll hsame h₁ h₂
  rcases ofRules_of_erase_eq herase name rules with hfault | ⟨c₁, c₂, hc₁, hc₂, houtline⟩
  · exact .inl hfault
  refine .inr ⟨c₁, c₂, hc₁, hc₂, fun terms hterms hnodes harity s => ?_⟩
  have hkeys₁ := distinctKeys_of_declareAll hkeys h₁
  have hkeys₂ : r₂.DistinctKeys := by
    rw [← List.flatMap_map (f := Declaration.outline) (g := Datatype.variants), hsame,
      List.flatMap_map] at hkeys
    exact distinctKeys_of_declareAll hkeys h₂
  have hterms₂ : Term.areWellFormed r₂ terms = true := by
    rw [← Term.areWellFormed_erase, ← herase, Term.areWellFormed_erase, hterms]
  have htrees : Term.treeAll r₂ terms = Term.treeAll r₁ terms := by
    rw [← Term.treeAll_erase, ← herase, Term.treeAll_erase]
  have hempty : (Table.names Registry.empty.constructors).Nodup := List.nodup_nil
  obtain ⟨args₁, s₁, hargs₁, hreps₁⟩ :=
    outcome_construct (nodup_names_declareAll hempty h₁) hterms s
  obtain ⟨args₂, s₂, hargs₂, hreps₂⟩ :=
    outcome_construct (nodup_names_declareAll hempty h₂) hterms₂ s
  rw [htrees] at hreps₂
  have hlength : (Term.treeAll r₁ terms).length = (Function.ofCompiled name false c₁).arity := by
    rw [Term.length_treeAll, harity]
  refine ⟨args₁, s₁, args₂, s₂, hargs₁, hargs₂, fun env₁ env₂ fuel₁ fuel₂ => ?_⟩
  have hside₁ := selects_or_fails hkeys₁ hc₁ hground (forces_force r₁ env₁ fuel₁)
    (Term.exists_record r₁ hnodes) hreps₁ (hreps₁.length_eq ▸ hlength)
  have hside₂ := selects_or_fails hkeys₂ hc₂ hground (forces_force r₂ env₂ fuel₂)
    (Term.exists_record r₁ hnodes) hreps₂
    (hreps₂.length_eq ▸ hlength.trans (arity_of_outline_eq houtline name false))
  -- What is accepted is the same on both sides, so that both select or both fail.
  rw [← acceptRows_of_outline_eq houtline] at hside₂
  rcases hside₁ with ⟨i, bound, b₁, t₁, haccept, hselects₁, hbound₁⟩ | ⟨haccept, hfails₁⟩
  · obtain ⟨i', bound', b₂, t₂, haccept', hselects₂, hbound₂⟩ | ⟨haccept', _⟩ := hside₂
    · rw [haccept, Option.some.injEq, Prod.mk.injEq] at haccept'
      obtain ⟨rfl, rfl⟩ := haccept'
      exact .inl ⟨i, b₁, t₁, b₂, t₂, hselects₁, hselects₂,
        completeAlike_of_represents hbound₁ hbound₂ env₁ env₂⟩
    · cases haccept.symm.trans haccept'
  · obtain ⟨_, _, _, _, haccept', _⟩ | ⟨_, hfails₂⟩ := hside₂
    · cases haccept.symm.trans haccept'
    · exact .inr ⟨hfails₁, hfails₂⟩

/-- Streams, declared in a mode: lazy, strict, or as marked. -/
def declaredStreams (mode : String) : List Declaration :=
  [⟨"Stream", [.datum (.text "Nil"),
    .tuple [.datum (.text "Cons"), .datum (.text "head"), .datum (.text "tail")]], .text mode⟩]

/-- Streams of at least two elements, the second of them being eight. -/
def secondRules : List (Rule Value) :=
  [⟨.row (.mk 1 [.compound 2 ⟨102, "Cons"⟩ [.name 3 "first",
      .named 4 (.compound 5 ⟨105, "Cons"⟩ [.literal 6 (.int 8), .name 7 "_"]) ⟨104, "rest"⟩]]),
    .bool true⟩,
    ⟨.otherwise, .bool false⟩]

/-- The stream of seven and eight. -/
def sevenEight : Term :=
  .node "Cons" [.atom (.int 7), .node "Cons" [.atom (.int 8), .node "Nil" []]]

/-- Lazy and strict streams are matched alike: the first rule is selected. -/
theorem laziness_transparent_streams :
    ∃ r₁ r₂ c₁ c₂, Registry.empty.declareAll (declaredStreams "all") = .ok r₁ ∧
      Registry.empty.declareAll (declaredStreams "none") = .ok r₂ ∧
      Compiled.ofRules r₁.resolver "second" secondRules = .ok c₁ ∧
      Compiled.ofRules r₂.resolver "second" secondRules = .ok c₂ ∧
      ∃ args₁ s₁ args₂ s₂, outcome (r₁.construct [sevenEight]) {} = (.ok args₁, s₁) ∧
        outcome (r₂.construct [sevenEight]) {} = (.ok args₂, s₂) ∧
        ∃ b₁ t₁ b₂ t₂,
          Selects (Env.force {} 2) "second" secondRules c₁ args₁ s₁ 0 b₁ t₁ ∧
          Selects (Env.force {} 2) "second" secondRules c₂ args₂ s₂ 0 b₂ t₂ ∧
          CompleteAlike {} b₁ t₁ {} b₂ t₂ := by
  obtain ⟨r₁, h₁⟩ : ∃ r, Registry.empty.declareAll (declaredStreams "all") = .ok r := ⟨_, rfl⟩
  obtain ⟨r₂, h₂⟩ : ∃ r, Registry.empty.declareAll (declaredStreams "none") = .ok r := ⟨_, rfl⟩
  have hsame : (declaredStreams "all").map Declaration.outline =
      (declaredStreams "none").map Declaration.outline := rfl
  have hground : ∀ rule ∈ secondRules, rule.row.isGround = true := by decide
  rcases laziness_transparent hsame (by decide) h₁ h₂ "second" hground with
    ⟨f, hf, _⟩ | ⟨c₁, c₂, hc₁, hc₂, h⟩
  · cases h₁
    cases hf
  obtain ⟨args₁, s₁, args₂, s₂, hargs₁, hargs₂, hmatch⟩ := h [sevenEight] (by cases h₁; decide)
    (by decide) (by cases h₁; cases hc₁; rfl) {}
  refine ⟨r₁, r₂, c₁, c₂, h₁, h₂, hc₁, hc₂, args₁, s₁, args₂, s₂, hargs₁, hargs₂, ?_⟩
  have hchoose : (outcome (r₁.construct [sevenEight] >>=
      c₁.choose (Env.force {} 2)) {}).1.toOption.map (·.map Prod.fst) =
        some (some 0) := by
    cases h₁
    cases hc₁
    decide +kernel
  rw [outcome_bind_ok hargs₁] at hchoose
  rcases hmatch {} {} 0 0 with ⟨i, b₁, t₁, b₂, t₂, h₁, h₂, halike⟩ | ⟨⟨_, _, hnone, _⟩, _⟩
  · rw [h₁.choose] at hchoose
    obtain rfl : i = 0 := by simpa [Except.toOption] using hchoose
    exact ⟨b₁, t₁, b₂, t₂, h₁, h₂, halike⟩
  · rw [hnone] at hchoose
    cases hchoose

end LazyMatch
