import LazyMatch.Proofs.Reading
import LazyMatch.Proofs.Registration

/-!
# Tags

The key of a constructor joins the names of its datatype and of itself by a dot, while only the bare
names are kept apart. Names are any texts, dots included, so that two constructors may share a key,
and a key may be read as something else. Here is exactly when.

* `Constructor.Overlaps`: the name of one constructor runs into the datatype of another;
* `Constructor.key_eq_iff`: only then do different constructors share a key, and
  `variant_matched_iff`: only then does a pattern of one match what the other has made;
* `Registry.Records.resolve?_key_iff`: when a key stands for its constructor, and
  `lookup_after_declarations`: what further declarations can do to that.
-/

namespace LazyMatch

/-! ### Keys -/

/-- Whether the names of two constructors run into each other: the datatype of the second begins
with the datatype of the first, goes on after a dot, and the name of the first takes up the rest. -/
def Constructor.Overlaps (c d : Constructor) : Prop :=
  ∃ middle, d.datatype = c.datatype ++ "." ++ middle ∧ c.name = middle ++ "." ++ d.name

/-- Two ways to cut a text at a separator. -/
theorem append_cons_eq_append_cons {sep : Char} {head tail head' tail' : List Char} :
    head ++ sep :: tail = head' ++ sep :: tail' ↔
      (head = head' ∧ tail = tail') ∨
        (∃ middle, head' = head ++ sep :: middle ∧ tail = middle ++ sep :: tail') ∨
        ∃ middle, head = head' ++ sep :: middle ∧ tail' = middle ++ sep :: tail := by
  constructor
  · intro h
    -- One of the heads begins with the other, and what lies between starts at a separator.
    rcases List.append_eq_append_iff.mp h with ⟨between, hhead, htail⟩ | ⟨between, hhead, htail⟩
    · cases between with
      | nil =>
        rw [List.append_nil] at hhead
        exact .inl ⟨hhead.symm, (List.cons.inj htail).2⟩
      | cons c middle =>
        obtain ⟨rfl, hrest⟩ := List.cons.inj htail
        exact .inr (.inl ⟨middle, hhead, hrest⟩)
    · cases between with
      | nil =>
        rw [List.append_nil] at hhead
        exact .inl ⟨hhead, (List.cons.inj htail).2.symm⟩
      | cons c middle =>
        obtain ⟨rfl, hrest⟩ := List.cons.inj htail
        exact .inr (.inr ⟨middle, hhead, hrest⟩)
  · rintro (⟨rfl, rfl⟩ | ⟨middle, rfl, rfl⟩ | ⟨middle, rfl, rfl⟩) <;> simp

theorem Constructor.toList_key (c : Constructor) :
    c.key.toList = c.datatype.toList ++ '.' :: c.name.toList := by
  simp [Constructor.key]

theorem Constructor.overlaps_iff {c d : Constructor} :
    c.Overlaps d ↔ ∃ middle : List Char, d.datatype.toList = c.datatype.toList ++ '.' :: middle ∧
      c.name.toList = middle ++ '.' :: d.name.toList := by
  constructor
  · rintro ⟨middle, hdatatype, hname⟩
    exact ⟨middle.toList, by simp [hdatatype], by simp [hname]⟩
  · rintro ⟨middle, hdatatype, hname⟩
    refine ⟨String.ofList middle, ?_, ?_⟩
    · rw [← String.toList_inj]
      simp [hdatatype]
    · rw [← String.toList_inj]
      simp [hname]

/-- Constructors share a key when they are named alike or their names run into each other. -/
theorem Constructor.key_eq_iff {c d : Constructor} :
    c.key = d.key ↔
      (c.datatype = d.datatype ∧ c.name = d.name) ∨ c.Overlaps d ∨ d.Overlaps c := by
  rw [← String.toList_inj, Constructor.toList_key, Constructor.toList_key,
    append_cons_eq_append_cons, String.toList_inj, String.toList_inj, ← Constructor.overlaps_iff,
    ← Constructor.overlaps_iff]

theorem Constructor.key_ne_name (c : Constructor) : c.key ≠ c.name := by
  intro h
  have hlength := congrArg (fun text => text.toList.length) h
  simp only [Constructor.toList_key, List.length_append, List.length_cons] at hlength
  omega

section Records

variable {r : Registry} {accepted : List Declaration} {c d : Constructor}

/-- Among the constructors of a registry, names that run into each other are all that can go
wrong. -/
theorem Registry.Records.key_eq_iff (h : r.Records accepted) (hc : r.Holds c) (hd : r.Holds d) :
    c.key = d.key ↔ c = d ∨ c.Overlaps d ∨ d.Overlaps c := by
  rw [Constructor.key_eq_iff]
  constructor
  · rintro (⟨-, hname⟩ | hoverlap)
    · exact .inl (h.eq_of_name_eq hc hd hname)
    · exact .inr hoverlap
  · rintro (rfl | hoverlap)
    · exact .inl ⟨rfl, rfl⟩
    · exact .inr hoverlap

theorem Registry.Records.get?_eq_none_iff (h : r.Records accepted) {name : String} :
    r.constructors.get? name = none ↔ ∀ d, r.Holds d → d.name ≠ name := by
  constructor
  · rintro hfind d hd rfl
    rw [h.get?_name hd] at hfind
    cases hfind
  · intro hfree
    cases hfind : r.constructors.get? name with
    | none => rfl
    | some d => exact absurd (h.of_get? hfind).2 (hfree d (h.of_get? hfind).1)

/-- A key stands for its constructor when there is no dot in the constructor's name, at which the
key would be cut, and no constructor goes by the key as its bare name. -/
theorem Registry.Records.resolve?_key_iff (h : r.Records accepted) (hc : r.Holds c) :
    r.resolve? c.key = some c ↔
      '.' ∉ c.name.toList ∧ ∀ d, r.Holds d → d.name ≠ c.key := by
  constructor
  · intro hresolve
    have hbare : r.constructors.get? c.key = none := by
      cases hfind : r.constructors.get? c.key with
      | none => rfl
      | some d =>
        -- A bare name is found first, and the key of a constructor is not its own bare name.
        rw [Registry.resolve?, hfind] at hresolve
        cases hresolve
        exact absurd (h.of_get? hfind).2.symm c.key_ne_name
    refine ⟨?_, h.get?_eq_none_iff.mp hbare⟩
    rw [Registry.resolve?, hbare] at hresolve
    cases hqualified : Registry.qualified? c.key with
    | none => simp only [hqualified] at hresolve; cases hresolve
    | some parts =>
      obtain ⟨datatype, name⟩ := parts
      simp only [hqualified] at hresolve
      obtain ⟨-, -, rfl⟩ := h.find_iff.mp hresolve
      exact (qualified?_eq_some_iff.mp hqualified).2
  · rintro ⟨hdot, hfree⟩
    have hbare := h.get?_eq_none_iff.mpr hfree
    have hqualified : Registry.qualified? c.key = some (c.datatype, c.name) :=
      qualified?_eq_some_iff.mpr ⟨rfl, hdot⟩
    rw [Registry.resolve?, hbare, hqualified]
    exact h.find_iff.mpr ⟨hc, rfl, rfl⟩

end Records

/-! ### Further declarations -/

theorem Session.declaring_append (session : Session) (ds later : List Declaration) :
    session.declaring (ds ++ later) = (session.declaring ds).declaring later := by
  induction ds generalizing session with
  | nil => rfl
  | cons d ds ih => exact ih _

/-- A registry keeps its constructors through further declarations. -/
theorem Session.Keeps.holds_declaring {session : Session} {accepted : List Declaration}
    (h : session.Keeps accepted) {c : Constructor} (hc : session.env.registry.Holds c)
    (later : List Declaration) : (session.declaring later).env.registry.Holds c := by
  induction later generalizing session accepted with
  | nil => exact hc
  | cons d later ih =>
    rw [Session.declaring]
    by_cases hd : session.env.registry.Admits d
    · obtain ⟨cs, hcs⟩ := hd
      obtain ⟨notes, session', hattempt, hregistry, hkeeps⟩ := h.accepts hcs
      rw [hattempt]
      refine ih hkeeps ?_
      obtain ⟨e, he, hmem⟩ := hc
      rw [hregistry]
      refine ⟨e, ?_, hmem⟩
      rw [(h.records.enter hcs).2]
      exact List.mem_append_left _ he
    · obtain ⟨f, hattempt⟩ := h.refuses hd
      rw [hattempt]
      exact ih h hc

/-- Looking up a tag answers the constructor that it resolves to, and nothing else. -/
theorem Session.Keeps.lookup_eq_iff {session : Session} {accepted : List Declaration}
    (h : session.Keeps accepted) (evaluate : Env → Task → Run Value) {tag : String}
    {c : Constructor} :
    runFrom (Session.lookup evaluate tag) session = (.ok (.constructor c), session) ↔
      session.env.registry.resolve? tag = some c := by
  rw [Session.lookup, runFrom_bind_ok (h.resolve? evaluate tag)]
  cases session.env.registry.resolve? tag with
  | none =>
    constructor
    · intro hlookup
      cases hlookup
    · intro hresolve
      cases hresolve
  | some d =>
    constructor
    · intro hlookup
      cases hlookup
      rfl
    · intro hresolve
      cases hresolve
      rfl

/-- **What a tag stands for, after further declarations.** Whatever is declared later, accepted or
refused, a bare name keeps standing for its constructor. The key does as long as there is no dot in
the constructor's name and no constructor goes by the key as its bare name, and only then. -/
theorem lookup_after_declarations (evaluate : Env → Task → Run Value) (ds later : List Declaration)
    {c : Constructor} (hc : (Session.declaring {} ds).env.registry.Holds c) :
    let session := Session.declaring {} (ds ++ later)
    runFrom (Session.lookup evaluate c.name) session = (.ok (.constructor c), session) ∧
      (runFrom (Session.lookup evaluate c.key) session = (.ok (.constructor c), session) ↔
        '.' ∉ c.name.toList ∧ ∀ d, session.env.registry.Holds d → d.name ≠ c.key) := by
  intro session
  have hkeeps : session.Keeps (Session.accepting {} (ds ++ later)) :=
    Session.keeps_new.declaring (ds ++ later)
  have hholds : session.env.registry.Holds c := by
    have hlater := (Session.keeps_new.declaring ds).holds_declaring hc later
    rwa [← Session.declaring_append] at hlater
  constructor
  · exact (hkeeps.lookup_eq_iff evaluate).mpr (hkeeps.records.resolve?_name hholds)
  · rw [hkeeps.lookup_eq_iff evaluate]
    exact hkeeps.records.resolve?_key_iff hholds

/-- A later constructor that goes by the key of an earlier one takes the key from it, but not the
bare name. -/
theorem lookup_after_declarations_taken :
    let earlier : Constructor := ⟨"A", "D", false, .constant⟩
    let session := Session.declaring {}
      ([⟨"A", [.datum (.text "D")], .text "none"⟩] ++ [⟨"E", [.datum (.text "A.D")], .text "none"⟩])
    runFrom (Session.lookup (fun env => perform env 9) "D") session =
        (.ok (.constructor earlier), session) ∧
      runFrom (Session.lookup (fun env => perform env 9) "A.D") session ≠
        (.ok (.constructor earlier), session) := by
  intro earlier session
  have h := lookup_after_declarations (fun env => perform env 9)
    [⟨"A", [.datum (.text "D")], .text "none"⟩] [⟨"E", [.datum (.text "A.D")], .text "none"⟩]
    (c := earlier) (by decide +kernel)
  refine ⟨h.1, fun hkey => ?_⟩
  exact (h.2.mp hkey).2 ⟨"E", "A.D", false, .constant⟩ (by decide +kernel) rfl

/-! ### What a pattern matches -/

/-- What a constructor makes: the value of a constant, or what a factory builds of its fields. -/
def Constructor.variant (c : Constructor) (args : List Value) : Run Value :=
  if c.isConstant then c.make else c.build args

/-- What a constructor makes, once forced, is a record with the constructor's key for a tag. -/
theorem outcome_force_wrap {c : Constructor} {t : Table Value}
    (ht : t.get? "" = some (.text c.key)) {defer : RecordRef → Computation}
    (hdefer : ∀ r again, compute again (defer r) = pure (.record r)) (env : Env) (fuel : ℕ)
    (s : Store) :
    ∃ v s₁ r s₂, outcome (c.wrap defer t) s = (.ok v, s₁) ∧
      outcome (env.force (fuel + 2) v) s₁ = (.ok (.record r), s₂) ∧
      s₂.tag (.record r) = .text c.key := by
  have htag : ∀ s' : Store, s'.records = (s.withRecord (.ofTable t)).records →
      s'.tag (.record ⟨s.records.size⟩) = .text c.key := by
    intro s' hrecords
    have hentries : s'.entries ⟨s.records.size⟩ = .ofTable t := by
      rw [Store.entries, hrecords]
      exact s.entries_withRecord _
    rw [Store.tag, Store.field?, hentries, Entries.get?_ofTable, ht, Option.getD_some]
  cases hlazy : c.lazy with
  | false =>
    exact ⟨.record ⟨s.records.size⟩, _, _, _, c.outcome_wrap_of_strict hlazy defer t s,
      outcome_force_of_not_isDeferred rfl env (fuel + 1) _, htag _ rfl⟩
  | true =>
    let ref : ThunkRef := ⟨s.thunks.size⟩
    let c₁ := defer ⟨s.records.size⟩
    let s₁ := (s.withRecord (.ofTable t)).withThunk c₁
    have hcell : s₁.cell ref = .pending c₁ := Store.cell_withThunk _ _
    have hcompute : outcome (compute (perform env fuel) c₁) (s₁.setCell ref (.running c₁)) =
        (.ok (.record ⟨s.records.size⟩), s₁.setCell ref (.running c₁)) := by
      rw [hdefer]
      rfl
    have hresolve := outcome_resolve_pending hcell hcompute (by simp)
    have hforce : outcome (env.force (fuel + 2) (.thunk ref)) s₁ =
        outcome (resolve (perform env fuel) ref) s₁ := by
      rw [Env.force, perform, step, forceLayers, if_neg (by simp)]
      exact (outcome_bind_ok hresolve _).trans hresolve.symm
    exact ⟨.thunk ref, s₁, ⟨s.records.size⟩, _, c.outcome_wrap_of_lazy hlazy defer t s,
      hforce.trans hresolve, htag _ rfl⟩

theorem outcome_force_variant (c : Constructor) {args : List Value}
    (hargs : args.length = c.fields.length) (env : Env) (fuel : ℕ) (s : Store) :
    ∃ v s₁ r s₂, outcome (c.variant args) s = (.ok v, s₁) ∧
      outcome (env.force (fuel + 2) v) s₁ = (.ok (.record r), s₂) ∧
      s₂.tag (.record r) = .text c.key := by
  cases hk : c.isConstant with
  | true =>
    rw [Constructor.variant, if_pos hk, Constructor.make_of_isConstant hk]
    exact outcome_force_wrap rfl (fun _ _ => rfl) env fuel s
  | false =>
    rw [Constructor.variant, hk, if_neg Bool.false_ne_true, Constructor.build_eq_wrap hargs]
    exact outcome_force_wrap (Table.get?_put_self _ _ _) (fun _ _ => rfl) env fuel s

/-- A tag without patterns for the fields is a pattern that asks for the key of its constructor. -/
theorem ofPhrase_compound_nil {r : Registry} {tag : String} {d : Constructor}
    (h : r.resolve? tag = some d) (stamp stamp' : ℕ) :
    ∃ q, Pattern.ofPhrase r.resolver (.compound stamp ⟨stamp', tag⟩ []) = .ok q ∧
      (q.test = .tag d.key ∨ q.test = .fields d.key []) := by
  cases hk : d.isConstant with
  | true =>
    refine ⟨.constant (.compound stamp ⟨stamp', tag⟩ []) d, ?_, .inl rfl⟩
    simp [Pattern.ofPhrase, Registry.resolver, h, hk, bind, Except.bind, pure, Except.pure]
  | false =>
    refine ⟨.factory (.compound stamp ⟨stamp', tag⟩ []) d [], ?_, .inr ?_⟩
    · simp [Pattern.ofPhrase, Pattern.ofPhrases, Registry.resolver, h, hk, bind, Except.bind, pure,
        Except.pure]
    · rw [Pattern.test]
      cases d.fields <;> rfl

/-- **What the pattern of a constructor matches.** Whatever was declared, a pattern that names a
constructor and has no patterns for its fields matches what a constructor has made, once that is
forced, exactly when it is the same constructor or the names of the two run into each other. -/
theorem variant_matched_iff (ds : List Declaration) {c d : Constructor}
    (hc : (Session.declaring {} ds).env.registry.Holds c)
    (hd : (Session.declaring {} ds).env.registry.Holds d) (args : List Value)
    (hargs : args.length = c.fields.length) (env : Env) (fuel stamp stamp' : ℕ) (s : Store) :
    ∃ q v w s₁ s₂ o,
      Pattern.ofPhrase (Session.declaring {} ds).env.registry.resolver
        (.compound stamp ⟨stamp', d.name⟩ []) = .ok q ∧
      outcome (c.variant args) s = (.ok v, s₁) ∧
      outcome (env.force (fuel + 2) v) s₁ = (.ok w, s₂) ∧
      outcome (q.test.matches (env.force (fuel + 2)) w []) s₂ = (.ok o, s₂) ∧
      (o.isSome = true ↔ c = d ∨ c.Overlaps d ∨ d.Overlaps c) := by
  have hrecords := (Session.keeps_new.declaring ds).records
  obtain ⟨q, hq, htest⟩ := ofPhrase_compound_nil (hrecords.resolve?_name hd) stamp stamp'
  obtain ⟨v, s₁, r, s₂, hv, hw, htag⟩ := outcome_force_variant c hargs env fuel s
  have hmatches : outcome (q.test.matches (env.force (fuel + 2)) (.record r) []) s₂ =
      (.ok (if s₂.hasTag (.record r) d.key then some [] else none), s₂) := by
    rcases htest with htest | htest
    · rw [htest, Test.matches, outcome_get_bind, outcome_pure]
    · rw [htest, matches_fields_nil, outcome_get_bind, outcome_pure]
  refine ⟨q, v, .record r, s₁, s₂, _, hq, hv, hw, hmatches, ?_⟩
  rw [← hrecords.key_eq_iff hc hd, Store.hasTag, htag]
  by_cases hkey : c.key = d.key
  · simp [hkey]
  · simp [hkey]

/-- The pattern of one constructor matches the value of another when the datatype of the one begins
with the other's. -/
theorem variant_matched_iff_dotted :
    let ds : List Declaration := [⟨"A", [.datum (.text "B.C")], .text "none"⟩,
      ⟨"A.B", [.datum (.text "C")], .text "none"⟩]
    let c : Constructor := ⟨"A", "B.C", false, .constant⟩
    ∃ q v w s₁ s₂ o,
      Pattern.ofPhrase (Session.declaring {} ds).env.registry.resolver (.compound 0 ⟨100, "C"⟩ []) =
        .ok q ∧
      outcome (c.variant []) {} = (.ok v, s₁) ∧
      outcome (Env.force {} 2 v) s₁ = (.ok w, s₂) ∧
      outcome (q.test.matches (Env.force {} 2) w []) s₂ = (.ok o, s₂) ∧ o.isSome = true := by
  intro ds c
  obtain ⟨q, v, w, s₁, s₂, o, hq, hv, hw, ho, hmatched⟩ := variant_matched_iff ds (c := c)
    (d := ⟨"A.B", "C", false, .constant⟩) (by decide +kernel) (by decide +kernel)
    [] rfl {} 0 0 100 {}
  exact ⟨q, v, w, s₁, s₂, o, hq, hv, hw, ho, hmatched.mpr (.inr (.inl ⟨"B", rfl, rfl⟩))⟩

end LazyMatch
