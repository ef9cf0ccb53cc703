import LazyMatch.Proofs.Omission
import LazyMatch.Proofs.Refusal
import LazyMatch.Proofs.Term

/-!
# Constructor forms

A form applies constructors to forms, each to as many as it has fields, down to variables. Patterns
of this kind take apart what constructors put together. A phrase that reads as a form resolves, and
the test that comes of it is the form's own: it asks for the tag of each constructor and for all of
its fields in order, forcing in place what is headed by a lazy constructor.

* `Phrase.form?` reads a phrase as a form;
* `Form.test` is the test of a form, and `ofPhrase_of_form` that of a phrase that reads as one;
* `choose_of_form`: the function of one rule over a form matches what the form matches.
-/

namespace LazyMatch

/-- Constructors applied to forms, down to variables. -/
inductive Form where
  | slot (name : String)
  | node (c : Constructor) (parts : List Form)

namespace Form

/-- Whether a form is headed by a lazy constructor. -/
def isLazy : Form → Bool
  | .slot _ => false
  | .node c _ => c.lazy

mutual

/-- The variables of a form, from left to right. -/
def slots : Form → List String
  | .slot x => [x]
  | .node _ parts => slotsAll parts

/-- The variables of several forms. -/
def slotsAll : List Form → List String
  | [] => []
  | f :: rest => f.slots ++ slotsAll rest

end

mutual

/-- The constructors of a form. -/
def constructors : Form → List Constructor
  | .slot _ => []
  | .node c parts => c :: constructorsAll parts

/-- The constructors of several forms. -/
def constructorsAll : List Form → List Constructor
  | [] => []
  | f :: rest => f.constructors ++ constructorsAll rest

end

mutual

/-- Whether every constructor in a form has distinct, non-empty field names and is applied to as
many forms. -/
def Full : Form → Prop
  | .slot _ => True
  | .node c parts =>
    c.fields.Nodup ∧ "" ∉ c.fields ∧ parts.length = c.fields.length ∧ AllFull parts

/-- Whether this holds of several forms. -/
def AllFull : List Form → Prop
  | [] => True
  | f :: rest => f.Full ∧ AllFull rest

end

mutual

/-- What a form asks of a value: nothing of what stands for a variable, the tag of a constant, and
the tag and all fields of what a factory makes. -/
def test : Form → Test
  | .slot x => .bind x
  | .node c parts => if c.isConstant then .tag c.key else .fields c.key (tests c.fields parts)

/-- What forms ask of fields. -/
def tests : List String → List Form → List (String × Test)
  | name :: names, f :: rest =>
    (name, if f.isLazy then .strict f.test else f.test) :: tests names rest
  | _, _ => []

end

/-- What a form asks of a value that may be deferred. -/
def nested (f : Form) : Test := if f.isLazy then .strict f.test else f.test

end Form

mutual

/-- Read a phrase as a form. -/
def Phrase.form? (r : Registry) : Phrase → Option Form
  | .name _ text =>
    if text = "_" then none
    else match r.resolve? text with
      | none => some (.slot text)
      | some c => if c.fields = [] then some (.node c []) else none
  | .compound _ head parts =>
    match r.resolve? head, Phrase.forms? r parts with
    | some c, some forms => if parts.length = c.fields.length then some (.node c forms) else none
    | _, _ => none
  | _ => none

/-- Read several phrases as forms. -/
def Phrase.forms? (r : Registry) : List Phrase → Option (List Form)
  | [] => some []
  | p :: rest =>
    match p.form? r, Phrase.forms? r rest with
    | some f, some forms => some (f :: forms)
    | _, _ => none

end

/-- The factories of a registry have distinct and non-empty field names. -/
def Registry.PlainFields (r : Registry) : Prop :=
  ∀ tag c, r.resolve? tag = some c → c.fields.Nodup ∧ "" ∉ c.fields

section Resolving

variable {r : Registry}

/-- What a name reads as: a variable, or a constructor without fields. -/
theorem Phrase.form?_name {stamp : ℕ} {text : String} {f : Form}
    (h : (Phrase.name stamp text).form? r = some f) :
    text ≠ "_" ∧ ((r.resolve? text = none ∧ f = .slot text) ∨
      ∃ c, r.resolve? text = some c ∧ c.fields = [] ∧ f = .node c []) := by
  rw [Phrase.form?] at h
  split at h
  · cases h
  · rename_i ht
    refine ⟨ht, ?_⟩
    split at h
    · rename_i hnone
      cases h
      exact .inl ⟨hnone, rfl⟩
    · rename_i c hc
      split at h
      · rename_i hfields
        cases h
        exact .inr ⟨c, hc, hfields, rfl⟩
      · cases h

/-- What a structured form reads as. -/
theorem Phrase.form?_compound {stamp : ℕ} {head : Ident} {parts : List Phrase} {f : Form}
    (h : (Phrase.compound stamp head parts).form? r = some f) :
    ∃ c forms, r.resolve? head = some c ∧ Phrase.forms? r parts = some forms ∧
      parts.length = c.fields.length ∧ f = .node c forms := by
  rw [Phrase.form?] at h
  split at h
  · rename_i c forms hc hforms
    split at h
    · rename_i hlength
      cases h
      exact ⟨c, forms, hc, hforms, hlength, rfl⟩
    · cases h
  · cases h

theorem Phrase.forms?_cons {p : Phrase} {rest : List Phrase} {forms : List Form}
    (h : Phrase.forms? r (p :: rest) = some forms) :
    ∃ f fs, p.form? r = some f ∧ Phrase.forms? r rest = some fs ∧ forms = f :: fs := by
  rw [Phrase.forms?] at h
  split at h
  · rename_i f fs hf hfs
    cases h
    exact ⟨f, fs, hf, hfs, rfl⟩
  · cases h

theorem Phrase.length_forms? {ps : List Phrase} {forms : List Form}
    (h : Phrase.forms? r ps = some forms) : forms.length = ps.length := by
  induction ps generalizing forms with
  | nil =>
    cases h
    rfl
  | cons p ps ih =>
    obtain ⟨f, fs, _, hfs, rfl⟩ := Phrase.forms?_cons h
    rw [List.length_cons, List.length_cons, ih hfs]

mutual

/-- A phrase that reads as a form does so with the full arity of each constructor. -/
theorem full_of_form (hr : r.PlainFields) :
    ∀ (p : Phrase) {f : Form}, p.form? r = some f → f.Full
  | .name stamp text, f, h => by
    obtain ⟨_, ⟨_, rfl⟩ | ⟨c, hc, hfields, rfl⟩⟩ := Phrase.form?_name h
    · trivial
    · exact ⟨(hr text c hc).1, (hr text c hc).2, hfields ▸ rfl, trivial⟩
  | .compound stamp head parts, f, h => by
    obtain ⟨c, forms, hc, hforms, hlength, rfl⟩ := Phrase.form?_compound h
    exact ⟨(hr head c hc).1, (hr head c hc).2, (Phrase.length_forms? hforms).trans hlength,
      allFull_of_forms hr parts hforms⟩
  | .literal _ _, f, h | .defer _ _, f, h | .named _ _ _, f, h | .either _ _, f, h | .row _, f, h
  | .group _ _ _, f, h | .otherwise, f, h => by cases h

theorem allFull_of_forms (hr : r.PlainFields) :
    ∀ (ps : List Phrase) {forms : List Form}, Phrase.forms? r ps = some forms → Form.AllFull forms
  | [], forms, h => by
    cases h
    trivial
  | p :: rest, forms, h => by
    obtain ⟨f, fs, hf, hfs, rfl⟩ := Phrase.forms?_cons h
    exact ⟨full_of_form hr p hf, allFull_of_forms hr rest hfs⟩

end

/-- A pattern asks what a form asks. -/
structure Form.Lowers (f : Form) (q : Pattern) : Prop where
  test : q.test = f.test
  demands : q.demands = f.isLazy
  isWildcard : q.isWildcard = false

theorem Form.Lowers.nested {f : Form} {q : Pattern} (h : f.Lowers q) : q.nested = f.nested := by
  rw [Pattern.nested, Form.nested, h.demands, h.test]

/-- No part of a form is left out. -/
theorem Form.tests_eq {names : List String} {forms : List Form} {qs : List Pattern}
    (h : List.Forall₂ Form.Lowers forms qs) :
    (subPatterns names qs).map (fun e => (e.1, e.2.nested)) = Form.tests names forms := by
  induction h generalizing names with
  | nil => cases names <;> simp [Form.tests]
  | @cons f q forms qs hq _ ih =>
    cases names with
    | nil => simp [Form.tests]
    | cons name names =>
      rw [subPatterns_cons, hq.isWildcard, if_neg (by simp), List.singleton_append, List.map_cons,
        ih, hq.nested, Form.tests, Form.nested]

theorem Constructor.eq_nil_of_isConstant {α : Type} {c : Constructor} (hk : c.isConstant = true)
    {parts : List α} (h : parts.length = c.fields.length) : parts = [] := by
  rwa [Constructor.fields_of_isConstant hk, List.length_nil, List.length_eq_zero_iff] at h

theorem Form.lowers_constant {c : Constructor} (hk : c.isConstant = true) (parts : List Form)
    (token : Phrase) : (Form.node c parts).Lowers (.constant token c) where
  test := by rw [Pattern.test, Form.test, if_pos hk]
  demands := rfl
  isWildcard := rfl

theorem Form.lowers_factory {c : Constructor} (hk : c.isConstant = false) (hfields : c.fields.Nodup)
    {parts : List Form} {qs : List Pattern} (h : List.Forall₂ Form.Lowers parts qs)
    (token : Phrase) : (Form.node c parts).Lowers (.factory token c qs) where
  test := by
    rw [Pattern.test, Pattern.testFields_of_nodup hfields, Form.tests_eq h, Form.test,
      if_neg (by simp [hk])]
  demands := rfl
  isWildcard := rfl

mutual

/-- A phrase that reads as a form resolves to what asks the same. -/
theorem ofPhrase_of_form (hr : r.PlainFields) :
    ∀ (p : Phrase) {f : Form}, p.form? r = some f →
      ∃ q, Pattern.ofPhrase r.resolver p = .ok q ∧ f.Lowers q
  | .name stamp text, f, h => by
    obtain ⟨ht, ⟨hc, rfl⟩ | ⟨c, hc, _, rfl⟩⟩ := Phrase.form?_name h
    · refine ⟨.verbatim (.name stamp text), ?_, ?_, rfl, rfl⟩
      · simp only [Pattern.ofPhrase, if_neg ht, Registry.resolver, hc]
        rfl
      · rw [Pattern.test, Test.ofValue, if_neg ht, Form.test]
    · cases hk : c.isConstant with
      | true =>
        refine ⟨.constant (.name stamp text) c, ?_, Form.lowers_constant hk [] _⟩
        simp only [Pattern.ofPhrase, if_neg ht, Registry.resolver, hc, bind, Except.bind, hk]
        rfl
      | false =>
        refine ⟨.factory (.name stamp text) c [], ?_,
          Form.lowers_factory hk (hr text c hc).1 .nil _⟩
        simp only [Pattern.ofPhrase, if_neg ht, Registry.resolver, hc, bind, Except.bind, hk]
        rfl
  | .compound stamp head parts, f, h => by
    obtain ⟨c, forms, hc, hforms, hlength, rfl⟩ := Phrase.form?_compound h
    obtain ⟨qs, hqs, hlowers⟩ := ofPhrases_of_forms hr parts hforms
    cases hk : c.isConstant with
    | true =>
      obtain rfl := Constructor.eq_nil_of_isConstant hk hlength
      have hresolve : r.resolver head = .ok (some c) := by rw [Registry.resolver, hc]
      refine ⟨.constant (.compound stamp head []) c, ?_, Form.lowers_constant hk forms _⟩
      rw [Pattern.ofPhrase, hresolve]
      simp only [bind, Except.bind, hk]
      rfl
    | false =>
      exact ⟨_, ofPhrase_of_factory hc hk hqs, Form.lowers_factory hk (hr head c hc).1 hlowers _⟩
  | .literal _ _, f, h | .defer _ _, f, h | .named _ _ _, f, h | .either _ _, f, h | .row _, f, h
  | .group _ _ _, f, h | .otherwise, f, h => by cases h

theorem ofPhrases_of_forms (hr : r.PlainFields) :
    ∀ (ps : List Phrase) {forms : List Form}, Phrase.forms? r ps = some forms →
      ∃ qs, Pattern.ofPhrases r.resolver ps = .ok qs ∧ List.Forall₂ Form.Lowers forms qs
  | [], forms, h => by
    cases h
    exact ⟨[], rfl, .nil⟩
  | p :: rest, forms, h => by
    obtain ⟨f, fs, hf, hfs, rfl⟩ := Phrase.forms?_cons h
    obtain ⟨q, hq, hlowers⟩ := ofPhrase_of_form hr p hf
    obtain ⟨qs, hqs, hall⟩ := ofPhrases_of_forms hr rest hfs
    refine ⟨q :: qs, ?_, .cons hlowers hall⟩
    simp only [Pattern.ofPhrases, hq, hqs, bind, Except.bind]
    rfl

end

end Resolving

/-! ### The function of one rule -/

/-- One rule over one pattern. -/
def soleRule (stamp : ℕ) (p : Phrase) (action : Value) : List (Rule Value) :=
  [⟨.row (.mk stamp [p]), action⟩]

/-- What is headed by a lazy constructor is forced first. -/
theorem Form.matches_nested (f : Form) (force : Value → Run Value) (v : Value) (b : Bindings) :
    f.nested.matches force v b =
      ((if f.isLazy then force v else pure v) >>= fun w => f.test.matches force w b) := by
  rw [Form.nested]
  cases f.isLazy with
  | true => rfl
  | false => rw [if_neg Bool.false_ne_true, if_neg Bool.false_ne_true, pure_bind]

/-- One rule over a form compiles, and it selects whatever the form matches. -/
theorem choose_of_form {r : Registry} (hr : r.PlainFields) {p : Phrase} {f : Form}
    (hf : p.form? r = some f) (name : String) (stamp : ℕ) (action : Value) :
    ∃ c, Compiled.ofRules r.resolver name (soleRule stamp p action) = .ok c ∧
      ∀ {force : Value → Run Value} {v : Value} {b : Bindings} {s s' : Store},
        outcome (f.nested.matches force v []) s = (.ok (some b), s') →
        Selects force name (soleRule stamp p action) c [v] s 0 b s' := by
  obtain ⟨q, hq, hlowers⟩ := ofPhrase_of_form hr p hf
  have hrows : patternRows r.resolver name (soleRule stamp p action) = .ok [.row [q]] := by
    refine patternRows_eq_ok.mpr (.cons ?_ .nil)
    exact map_eq_ok.mpr ⟨[q], ofPhrases_eq_ok.mpr (.cons hq .nil), rfl⟩
  have hwide : EquallyWide (soleRule stamp p action) := by
    simp [EquallyWide, soleRule, firstWidth, RuleRow.rows]
  obtain ⟨c, hc⟩ := ofRules_of_patternRows (by simp [soleRule]) hwide hrows
  refine ⟨c, hc, fun {force v b s s'} hmatch => ?_⟩
  obtain ⟨rows, arity, h⟩ := Compiled.exists_of_ofRules hc
  obtain rfl : rows = [.row [q]] :=
    Except.ok.inj ((patternRows_eq_ok.mpr h.resolved).symm.trans hrows)
  obtain rfl : 1 = arity :=
    h.width _ (List.mem_singleton_self _) (.mk stamp [p]) (by simp [RuleRow.rows])
  refine h.selects name ?_
  have hplan : c.plan.run force [v] = forceWhere force [q.demands] [v] := by
    rw [h.run_plan force rfl]
    simp [demandOf, plainRows, PatternRow.rows]
  have htests : c.rows = [⟨.row [q.test], action⟩] := h.tests
  rw [Form.matches_nested, ← hlowers.demands, ← hlowers.test] at hmatch
  obtain ⟨w, s₁, hw, htest⟩ := outcome_bind_eq_ok hmatch
  have hrun : outcome (c.plan.run force [v]) s = (.ok [w], s₁) := by
    rw [hplan, forceWhere_cons, outcome_bind_ok hw]
    rfl
  have hrow : outcome ((RowTest.row [q.test]).matches force [w]) s₁ = (.ok (some b), s') := by
    rw [RowTest.matches, matchVector, outcome_bind_ok htest]
    rfl
  rw [Compiled.choose, outcome_bind_ok hrun, htests, numbered_cons, select, outcome_bind_ok hrow]
  rfl

end LazyMatch
