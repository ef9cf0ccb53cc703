import LazyMatch.Proofs.Construction
import LazyMatch.Proofs.Registration

/-!
# What declarations spell

Declarations make a datatype with the values of its constructors, which are read off the datatype
under their names. So a session gives a setting for forms: every form over its registry is spelled
by applying what is read off the datatypes, with expressions for the variables.

* `Store.Carries.gives_attribute`: the value of a constructor is read off its datatype;
* `Session.Keeps.setting`: the setting of a session;
* `Session.Keeps.spells`: a form is spelled by its own expression, `Form.expr`;
* `exists_setting_of_declarations`: whatever has been declared gives a setting for its forms.
-/

namespace LazyMatch

/-! ### Reading constructors -/

/-- The names under which something else than a constructor is read off a declared datatype. -/
def memberNames : List String := commonNames ++ ["name", "_constructors", "_values", "_sealed"]

/-- A store with one stamp less to give. -/
def Store.withStamp (s : Store) : Store := { s with stamps := s.stamps + 1 }

theorem Store.grows_withStamp (s : Store) : s.Grows s.withStamp :=
  { Store.Grows.refl s with defers := fun _ _ h => h }

/-- What is under a name that nothing else goes by is no member of its own. -/
theorem outcome_readOwn? {s : Store} {d : DatatypeRef} {name : String} (hname : name ∉ commonNames)
    (hfield : s.field? (s.members d) name = none) :
    outcome (readOwn? d name) s = (.ok none, s) := by
  simp only [commonNames, List.mem_append, List.mem_cons, List.mem_map, List.not_mem_nil, or_false,
    not_or] at hname
  obtain ⟨⟨⟨⟨⟨hmodule, hdoc⟩, hown⟩, hdict, hweak⟩, hinherited⟩, hclass⟩ := hname
  have hkey : Operation.ofKey? name = none := by
    refine List.find?_eq_none.mpr fun op hop hop' => ?_
    have hsame : op.key = name := by simpa using hop'
    rcases List.mem_append.mp hop with hop | hop
    · exact hown ⟨op, hop, hsame⟩
    · exact hinherited ⟨op, hop, hsame⟩
  simp only [readOwn?, outcome_get_bind, hfield, Store.fixture?, description?, hkey, hclass, hdict,
    hweak, hmodule, hdoc, if_false, Option.or_none]
  rfl

/-- A declared datatype has the value of each of its constructors, and keeps it. -/
theorem Store.Carries.exists_variant {s : Store} {ref : DatatypeRef} {d : Datatype}
    (h : s.Carries ref d) {c : Constructor} (hc : c ∈ d.variants)
    (hunique : ∀ c' ∈ d.variants, c'.name = c.name → c' = c) :
    ∃ v, s.HoldsValue c v ∧
      ∀ s' : Store, s.Widens s' → s'.variant? ref (.text c.name) = .ok (some v) := by
  obtain ⟨constructors, values, table, hall, hmembers⟩ := h.exists_members
  obtain ⟨e, he, heq, -⟩ := exists_of_mem_right hall.flip hc
  have hsome : (Table.get? table c.name).isSome :=
    Table.isSome_get?_iff.mpr (heq ▸ List.mem_map_of_mem he)
  obtain ⟨v, hget⟩ := Option.isSome_iff_exists.mp hsome
  obtain ⟨c', hc', hsame, hv⟩ := exists_of_mem_right hall (Table.mem_of_get? hget)
  refine ⟨v, hunique c' hc' hsame.symm ▸ hv, fun s' hs => ?_⟩
  obtain ⟨hfield, -, hvalues⟩ := hmembers s' hs
  have hindex : s'.index (.record values) (.text c.name) = .ok v := by
    simp [Store.index, Value.isKey, hvalues, Entries.get?_ofTable, hget]
  have hthere : s'.field? (s'.members ref) "_values" = some (.record values) := by
    rw [hfield]
    rfl
  simp only [Store.variant?, hthere, hindex]

/-- The value of a constructor is read off its datatype, which takes up a stamp. -/
theorem Store.Carries.gives_attribute {s : Store} {ref : DatatypeRef} {d : Datatype}
    (h : s.Carries ref d) {env : Env} {datatype : String}
    (href : env.datatypes.get? datatype = some ref) {name : String} (hname : name ∉ memberNames)
    {v : Value} (hv : s.variant? ref (.text name) = .ok (some v)) (scope : Scope) :
    Gives env (fun again => again (.eval scope (.attribute datatype name))) s v s.withStamp := by
  obtain ⟨constructors, values, table, -, hmembers⟩ := h.exists_members
  obtain ⟨hfield, -, -⟩ := hmembers s (.refl s)
  simp only [memberNames, List.mem_append, not_or] at hname
  have hnone : s.field? (s.members ref) name = none := by
    rw [hfield, ← Option.not_isSome_iff_eq_none, Table.isSome_get?_iff]
    exact hname.2
  have hmember : s.member ref name = .ok v := by
    simp only [Store.member, hnone, hv]
    rfl
  have hread : outcome (env.attribute datatype name) s = (.ok v, s.withStamp) := by
    simp only [Env.attribute, href]
    rw [readMember, outcome_bind_ok (outcome_readOwn? hname.1 hnone)]
    simp only [reading, outcome_get_bind, hmember]
    rfl
  exact .step (gives_of_outcome hread)

/-! ### The setting of a session -/

/-- The value of a constant that a session has declared. -/
def Session.constant? (session : Session) (c : Constructor) : Option Value :=
  if c.isConstant = true ∧ session.env.registry.Holds c then
    (session.env.datatypes.get? c.datatype).bind fun ref =>
      (session.store.variant? ref (.text c.name)).toOption.join
  else none

section Keeps

variable {session : Session} {accepted : List Declaration}

/-- A constructor of a session has a value, found in a datatype that has been made. -/
theorem Session.Keeps.exists_variant (h : session.Keeps accepted) {c : Constructor}
    (hc : session.env.registry.Holds c) :
    ∃ ref d v, session.env.datatypes.get? c.datatype = some ref ∧ session.store.Carries ref d ∧
      session.store.HoldsValue c v ∧ ∀ s' : Store, session.store.Widens s' →
        s'.variant? ref (.text c.name) = .ok (some v) := by
  obtain ⟨e, he, hmem⟩ := hc
  obtain ⟨ref, href, hcarries⟩ := h.exists_ref he
  obtain ⟨v, hv, hvariant⟩ := hcarries.exists_variant hmem fun c' hc' hname =>
    h.records.eq_of_name_eq ⟨e, he, hc'⟩ ⟨e, he, hmem⟩ hname
  refine ⟨ref, e.2, v, ?_, hcarries, hv, hvariant⟩
  rw [(h.records.own he ((h.records.mem_variants_iff he).mp hmem)).2, href]

/-- The value of a constant is what its datatype has under its name. -/
theorem Session.constant?_eq {c : Constructor} (hk : c.isConstant = true)
    (hc : session.env.registry.Holds c) {ref : DatatypeRef} {v : Value}
    (href : session.env.datatypes.get? c.datatype = some ref)
    (hv : session.store.variant? ref (.text c.name) = .ok (some v)) :
    session.constant? c = some v := by
  rw [Session.constant?, if_pos ⟨hk, hc⟩, href, Option.bind_some, hv]
  rfl

/-- **A session gives a setting**, with any scope and any values for variables. -/
def Session.Keeps.setting (h : session.Keeps accepted) (scope : Scope)
    (assigned : String → Value) : Setting where
  env := session.env
  scope := scope
  store := session.store
  assigned := assigned
  constants := session.constant?
  isConstant := by
    intro c v hv
    by_contra hk
    rw [Session.constant?, if_neg fun hboth => hk hboth.1] at hv
    cases hv
  holds := by
    intro c v hv
    by_cases hboth : c.isConstant = true ∧ session.env.registry.Holds c
    · obtain ⟨ref, d, w, href, -, hw, hvariant⟩ := h.exists_variant hboth.2
      rw [Session.constant?_eq hboth.1 hboth.2 href (hvariant _ (.refl _))] at hv
      cases hv
      rwa [Store.HoldsValue, if_pos hboth.1] at hw
    · rw [Session.constant?, if_neg hboth] at hv
      cases hv

/-- What is read off a datatype refers to the value of the constructor. -/
theorem Session.Keeps.exists_yields (h : session.Keeps accepted) (scope : Scope)
    (assigned : String → Value) {c : Constructor} (hc : session.env.registry.Holds c)
    (hname : c.name ∉ memberNames) :
    ∃ v, (h.setting scope assigned).Yields (.attribute c.datatype c.name) v ∧
      if c.isConstant then session.constant? c = some v else v = .constructor c := by
  obtain ⟨ref, d, v, href, hcarries, hv, hvariant⟩ := h.exists_variant hc
  refine ⟨v, fun s hs => ?_, ?_⟩
  · have hwidens : session.store.Widens s := Store.Grows.widens hs
    exact ⟨s.withStamp, (hcarries.mono hwidens).gives_attribute href hname (hvariant s hwidens) _,
      s.grows_withStamp, rfl⟩
  · cases hk : c.isConstant with
    | false => simpa [Store.HoldsValue, hk] using hv
    | true =>
      rw [if_pos rfl]
      exact Session.constant?_eq hk hc href (hvariant _ (.refl _))

end Keeps

/-! ### Spelling forms -/

mutual

/-- The expression that reads the constructors of a form off their datatypes, and has expressions
for the variables. -/
def Form.expr (slot : String → Expr) : Form → Expr
  | .slot x => slot x
  | .node c parts =>
    if c.isConstant then .attribute c.datatype c.name
    else .call (.attribute c.datatype c.name) (Form.exprs slot parts)

/-- The expressions of several forms. -/
def Form.exprs (slot : String → Expr) : List Form → List Expr
  | [] => []
  | f :: rest => f.expr slot :: Form.exprs slot rest

end

section Spells

variable {session : Session} {accepted : List Declaration} {scope : Scope}
  {assigned : String → Value} {slot : String → Expr}

mutual

/-- A form over the constructors of a session is spelled by its expression. -/
theorem Session.Keeps.spells (h : session.Keeps accepted) :
    ∀ f : Form, (∀ c ∈ f.constructors, session.env.registry.Holds c ∧ c.name ∉ memberNames) →
      (∀ x ∈ f.slots, (h.setting scope assigned).Yields (slot x) (assigned x)) →
      (h.setting scope assigned).Spells f (f.expr slot)
  | .slot x, _, hslots => hslots x List.mem_cons_self
  | .node c parts, hconstructors, hslots => by
    obtain ⟨hc, hname⟩ := hconstructors c List.mem_cons_self
    obtain ⟨v, hyields, hv⟩ := h.exists_yields scope assigned hc hname
    refine ⟨0, fun _ => rfl, .bare ?_⟩
    rw [Setting.Applies, Form.expr]
    cases hk : c.isConstant with
    | true =>
      rw [hk, if_pos rfl] at hv
      exact ⟨v, hv, hyields⟩
    | false =>
      obtain rfl : v = .constructor c := by simpa [hk] using hv
      exact ⟨_, _, rfl, hyields, h.spellsAll parts
        (fun c hc => hconstructors c (List.mem_cons_of_mem _ hc)) hslots⟩

theorem Session.Keeps.spellsAll (h : session.Keeps accepted) :
    ∀ forms : List Form, (∀ c ∈ Form.constructorsAll forms,
        session.env.registry.Holds c ∧ c.name ∉ memberNames) →
      (∀ x ∈ Form.slotsAll forms, (h.setting scope assigned).Yields (slot x) (assigned x)) →
      (h.setting scope assigned).SpellsAll forms (Form.exprs slot forms)
  | [], _, _ => rfl
  | f :: rest, hconstructors, hslots => by
    refine ⟨f.expr slot, Form.exprs slot rest, rfl, h.spells f ?_ ?_, h.spellsAll rest ?_ ?_⟩
    · exact fun c hc => hconstructors c (List.mem_append_left _ hc)
    · exact fun x hx => hslots x (List.mem_append_left _ hx)
    · exact fun c hc => hconstructors c (List.mem_append_right _ hc)
    · exact fun x hx => hslots x (List.mem_append_right _ hx)

end

end Spells

section Resolved

variable {r : Registry} {accepted : List Declaration}

mutual

/-- A phrase reads as a form over the constructors of the registry. -/
theorem Registry.Records.holds_of_form (h : r.Records accepted) :
    ∀ (p : Phrase) {f : Form}, p.form? r = some f → ∀ c ∈ f.constructors, r.Holds c
  | .name stamp text, f, hf => by
    obtain ⟨_, ⟨_, rfl⟩ | ⟨c, hc, _, rfl⟩⟩ := Phrase.form?_name hf
    · simp [Form.constructors]
    · simpa [Form.constructors, Form.constructorsAll] using (h.of_resolve? hc).1
  | .compound stamp head parts, f, hf => by
    obtain ⟨c, forms, hc, hforms, _, rfl⟩ := Phrase.form?_compound hf
    exact List.forall_mem_cons.mpr ⟨(h.of_resolve? hc).1, h.holds_of_forms parts hforms⟩
  | .literal _ _, f, hf | .defer _ _, f, hf | .named _ _ _, f, hf | .either _ _, f, hf
  | .row _, f, hf | .group _ _ _, f, hf | .otherwise, f, hf => by cases hf

theorem Registry.Records.holds_of_forms (h : r.Records accepted) :
    ∀ (ps : List Phrase) {forms : List Form}, Phrase.forms? r ps = some forms →
      ∀ c ∈ Form.constructorsAll forms, r.Holds c
  | [], forms, hforms => by
    cases hforms
    simp [Form.constructorsAll]
  | p :: rest, forms, hforms => by
    obtain ⟨f, fs, hf, hfs, rfl⟩ := Phrase.forms?_cons hforms
    rw [Form.constructorsAll]
    exact List.forall_mem_append.mpr ⟨h.holds_of_form p hf, h.holds_of_forms rest hfs⟩

end

end Resolved

/-- **What has been declared gives a setting for its forms.** After any declarations, accepted or
not, there is a setting of the session, with any scope and any values for variables. In it, a phrase
that reads as a form is spelled by the expression of the form, which reads the constructors off
their datatypes and refers to the values of the variables, unless a constructor goes by a name that
every datatype has. -/
theorem exists_setting_of_declarations (ds : List Declaration) (scope : Scope)
    (assigned : String → Value) :
    ∃ S : Setting, S.env = (Session.declaring {} ds).env ∧
      S.store = (Session.declaring {} ds).store ∧ S.scope = scope ∧ S.assigned = assigned ∧
      ∀ (p : Phrase) (f : Form) (slot : String → Expr), p.form? S.env.registry = some f →
        (∀ c ∈ f.constructors, c.name ∉ memberNames) →
        (∀ x ∈ f.slots, S.Yields (slot x) (assigned x)) → S.Spells f (f.expr slot) := by
  have h := Session.keeps_new.declaring ds
  refine ⟨h.setting scope assigned, rfl, rfl, rfl, rfl, fun p f slot hf hnames hslots => ?_⟩
  exact h.spells f (fun c hc => ⟨h.records.holds_of_form p hf c hc, hnames c hc⟩) hslots

end LazyMatch
