import LazyMatch.Proofs.Inspection
import LazyMatch.Proofs.Reading

/-!
# Which parts of a structured form are left out

The parts of a structured form are paired with the fields of its constructor and entered into a
table under their names. Nothing checks that there are as many parts as fields, and nothing that the
names are distinct: a part beyond the last field has no place in the table, and one whose name comes
again further on is overwritten there. Such a part is left out without a word; all others, wildcards
aside, are put to their fields whenever the form matches.

* `Table.ofList_overwritten`, `Table.get?_ofList_last`: of several entries under one name the last
  one counts;
* `Phrase.KeptAt`: when a part of a form counts;
* `asked_of_matchFields`: a match has put every test of the table to its field;
* `kept_parts_exact`: what is kept is asked, and what is not kept could be any other part.
-/

namespace LazyMatch

/-! ### Entries that are overwritten -/

namespace Table

variable {α : Type}

/-- A write goes to the first of two tables if the name is there, and else to the second. -/
theorem put_append (t u : Table α) (name : String) (a : α) :
    put (t ++ u) name a = if name ∈ names t then put t name a ++ u else t ++ put u name a := by
  induction t with
  | nil => simp [names]
  | cons e t ih =>
    by_cases he : e.1 = name
    · simp [put, names, he]
    · have hmem : name ∈ names (e :: t) ↔ name ∈ names t := by simp [names, Ne.symm he]
      simp only [List.cons_append, put, he, if_false, hmem, ih]
      by_cases ht : name ∈ names t <;> simp [ht]

/-- The place of a write does not depend on what is written. -/
theorem exists_put_eq (t : Table α) (name : String) :
    ∃ u w, name ∉ names u ∧ ∀ a, put t name a = u ++ (name, a) :: w := by
  induction t with
  | nil => exact ⟨[], [], by simp [names], fun a => rfl⟩
  | cons e t ih =>
    by_cases he : e.1 = name
    · exact ⟨[], t, by simp [names], fun a => by simp [put, he]⟩
    · obtain ⟨u, w, hu, hput⟩ := ih
      refine ⟨e :: u, w, ?_, fun a => by simp [put, he, hput]⟩
      simpa [names, Ne.symm he] using hu

/-- An entry that is overwritten later could have been any other. -/
theorem foldl_put_overwritten {entries u w : Table α} {name : String} (hu : name ∉ names u)
    (h : name ∈ names entries) (a b : α) :
    entries.foldl (fun t e => put t e.1 e.2) (u ++ (name, a) :: w) =
      entries.foldl (fun t e => put t e.1 e.2) (u ++ (name, b) :: w) := by
  -- The entry keeps its place until the write under its name comes.
  induction entries generalizing u w with
  | nil => simp [names] at h
  | cons e entries ih =>
    rw [List.foldl_cons, List.foldl_cons]
    by_cases he : e.1 = name
    · rw [put_append, put_append, if_neg (he ▸ hu), if_neg (he ▸ hu)]
      simp [put, he]
    · have hrest : name ∈ names entries := by simpa [names, Ne.symm he] using h
      rw [put_append, put_append]
      by_cases hmem : e.1 ∈ names u
      · rw [if_pos hmem, if_pos hmem]
        refine ih ?_ hrest
        rw [mem_names_put, not_or]
        exact ⟨Ne.symm he, hu⟩
      · rw [if_neg hmem, if_neg hmem]
        simp only [put, Ne.symm he, if_false]
        exact ih hu hrest

theorem ofList_overwritten {before after : Table α} {name : String} (h : name ∈ names after)
    (a b : α) :
    ofList (before ++ (name, a) :: after) = ofList (before ++ (name, b) :: after) := by
  obtain ⟨u, w, hu, hput⟩ := exists_put_eq (ofList before) name
  have hofList (x : α) : ofList (before ++ (name, x) :: after) =
      after.foldl (fun t e => put t e.1 e.2) (u ++ (name, x) :: w) := by
    rw [ofList, List.foldl_append, List.foldl_cons, ← hput]
    rfl
  rw [hofList, hofList, foldl_put_overwritten hu h a b]

theorem get?_foldl_put_of_not_mem {entries t : Table α} {name : String} (h : name ∉ names entries) :
    get? (entries.foldl (fun t e => put t e.1 e.2) t) name = get? t name := by
  induction entries generalizing t with
  | nil => rfl
  | cons e entries ih =>
    simp only [names, List.map_cons, List.mem_cons, not_or] at h
    rw [List.foldl_cons, ih h.2, get?_put_of_ne t h.1]

/-- The last entry under a name is found. -/
theorem get?_ofList_last {before after : Table α} {name : String} (h : name ∉ names after) (a : α) :
    get? (ofList (before ++ (name, a) :: after)) name = some a := by
  rw [ofList, List.foldl_append, List.foldl_cons, get?_foldl_put_of_not_mem h, get?_put_self]

end Table

/-! ### The place of a part -/

/-- The entries before and after that of one part. -/
theorem subPatterns_eq_append {names : List String} {ps : List Pattern} {j : ℕ} {name : String}
    {p : Pattern} (hname : names[j]? = some name) (hp : ps[j]? = some p)
    (hw : p.isWildcard = false) :
    subPatterns names ps = subPatterns (names.take j) (ps.take j) ++
      (name, p) :: subPatterns (names.drop (j + 1)) (ps.drop (j + 1)) := by
  induction j generalizing names ps with
  | zero =>
    obtain _ | ⟨n, names⟩ := names
    · cases hname
    obtain _ | ⟨q, ps⟩ := ps
    · cases hp
    cases hname
    cases hp
    simp [subPatterns_cons, hw]
  | succ j ih =>
    obtain _ | ⟨n, names⟩ := names
    · cases hname
    obtain _ | ⟨q, ps⟩ := ps
    · cases hp
    simp only [List.take_succ_cons, List.drop_succ_cons, subPatterns_cons, List.append_assoc,
      ih hname hp]

/-- What stands beyond the fields does not matter. -/
theorem subPatterns_set_of_le {names : List String} {ps : List Pattern} {j : ℕ}
    (h : names.length ≤ j) (p : Pattern) :
    subPatterns names (ps.set j p) = subPatterns names ps := by
  induction names generalizing ps j with
  | nil => rfl
  | cons name names ih =>
    obtain _ | j := j
    · simp at h
    cases ps with
    | nil => rfl
    | cons q ps =>
      have hnames : names.length ≤ j := by simpa using h
      rw [List.set_cons_succ, subPatterns_cons, subPatterns_cons, ih hnames]

/-- A name has an entry when a part under it is no wildcard. -/
theorem mem_names_subPatterns {names : List String} {ps : List Pattern} {name : String} :
    name ∈ Table.names (subPatterns names ps) ↔
      ∃ (k : ℕ) (p : Pattern), names[k]? = some name ∧ ps[k]? = some p ∧
        p.isWildcard = false := by
  simp only [Table.names, subPatterns, List.mem_map, List.mem_filter, Bool.not_eq_true']
  constructor
  · rintro ⟨⟨n, p⟩, ⟨hmem, hw⟩, rfl⟩
    obtain ⟨k, hk⟩ := List.mem_iff_getElem?.mp hmem
    obtain ⟨hn, hp⟩ := List.getElem?_zip_eq_some.mp hk
    exact ⟨k, p, hn, hp, hw⟩
  · rintro ⟨k, p, hn, hp, hw⟩
    exact ⟨(name, p), ⟨List.mem_of_getElem? (List.getElem?_zip_eq_some.mpr ⟨hn, hp⟩), hw⟩, rfl⟩

/-- The part of a form at a position counts: it has a field, and no later part that is no wildcard
stands under the name of that field. -/
def Phrase.KeptAt (names : List String) (parts : List Phrase) (j : ℕ) : Prop :=
  ∃ name, names[j]? = some name ∧
    ∀ k p, j < k → names[k]? = some name → parts[k]? = some p → p.isWildcard = true

/-- Under distinct field names every part that has a field counts. -/
theorem Phrase.keptAt_of_nodup {names : List String} {parts : List Phrase} {j : ℕ}
    (hnodup : names.Nodup) (hj : j < names.length) : Phrase.KeptAt names parts j := by
  refine ⟨names[j], List.getElem?_eq_getElem hj, fun k p hk hname _ => ?_⟩
  obtain ⟨hk', hname⟩ := List.getElem?_eq_some_iff.mp hname
  have hjk := (hnodup.getElem_inj_iff).mp hname
  omega

section Forms

variable {r : Registry} {parts : List Phrase} {qs : List Pattern} {names : List String} {j : ℕ}
  {p : Phrase} {q : Pattern}

/-- What a form headed by a factory resolves to. -/
theorem ofPhrase_of_factory {stamp : ℕ} {head : Ident} {c : Constructor}
    (hc : r.resolve? head = some c) (hfactory : c.isConstant = false)
    (h : Pattern.ofPhrases r.resolver parts = .ok qs) :
    Pattern.ofPhrase r.resolver (.compound stamp head parts) =
      .ok (.factory (.compound stamp head parts) c qs) := by
  have hresolve : r.resolver head = .ok (some c) := by rw [Registry.resolver, hc]
  rw [Pattern.ofPhrase, hresolve]
  simp only [bind, Except.bind, hfactory, h, Bool.false_eq_true, if_false]
  rfl

theorem exists_getElem?_of_ofPhrases (h : Pattern.ofPhrases r.resolver parts = .ok qs)
    (hp : parts[j]? = some p) :
    ∃ q, qs[j]? = some q ∧ Pattern.ofPhrase r.resolver p = .ok q := by
  have hqs := ofPhrases_eq_ok.mp h
  obtain ⟨hj, rfl⟩ := List.getElem?_eq_some_iff.mp hp
  have hj' : j < qs.length := hqs.length_eq ▸ hj
  exact ⟨qs[j], List.getElem?_eq_getElem hj', hqs.get hj hj'⟩

/-- Whether the name of a part comes again. -/
theorem mem_names_later_iff (h : Pattern.ofPhrases r.resolver parts = .ok qs) {name : String} :
    name ∈ Table.names (subPatterns (names.drop (j + 1)) (qs.drop (j + 1))) ↔
      ∃ k p, j < k ∧ names[k]? = some name ∧ parts[k]? = some p ∧ p.isWildcard = false := by
  have hqs := ofPhrases_eq_ok.mp h
  rw [mem_names_subPatterns]
  constructor
  · rintro ⟨k, q, hname, hq, hw⟩
    rw [List.getElem?_drop] at hname hq
    obtain ⟨hk, rfl⟩ := List.getElem?_eq_some_iff.mp hq
    have hk' : j + 1 + k < parts.length := hqs.length_eq ▸ hk
    refine ⟨j + 1 + k, parts[j + 1 + k], by omega, hname, List.getElem?_eq_getElem hk', ?_⟩
    exact (isWildcard_of_ofPhrase (hqs.get hk' hk)).symm.trans hw
  · rintro ⟨k, p, hk, hname, hp, hw⟩
    obtain ⟨q, hq, hres⟩ := exists_getElem?_of_ofPhrases h hp
    obtain ⟨d, rfl⟩ := Nat.exists_eq_add_of_le (Nat.succ_le_of_lt hk)
    refine ⟨d, q, ?_, ?_, by rw [isWildcard_of_ofPhrase hres, hw]⟩
    · rw [List.getElem?_drop]
      exact hname
    · rw [List.getElem?_drop]
      exact hq

/-- A part that counts has its entry in the table. -/
theorem mem_fieldPatterns_of_keptAt (h : Pattern.ofPhrases r.resolver parts = .ok qs)
    (hq : qs[j]? = some q) (hw : q.isWildcard = false) (hkept : Phrase.KeptAt names parts j) :
    ∃ name, names[j]? = some name ∧ (name, q) ∈ fieldPatterns names qs := by
  obtain ⟨name, hname, hlater⟩ := hkept
  refine ⟨name, hname, Table.mem_of_get? ?_⟩
  rw [fieldPatterns, subPatterns_eq_append hname hq hw]
  refine Table.get?_ofList_last (fun hmem => ?_) q
  obtain ⟨k, p, hk, hname', hp, hw'⟩ := (mem_names_later_iff h).mp hmem
  rw [hlater k p hk hname' hp] at hw'
  cases hw'

/-- A part that does not count could be any other. -/
theorem fieldPatterns_set_of_not_keptAt (h : Pattern.ofPhrases r.resolver parts = .ok qs)
    (hq : qs[j]? = some q) (hw : q.isWildcard = false) (hdropped : ¬ Phrase.KeptAt names parts j)
    {q' : Pattern} (hw' : q'.isWildcard = false) :
    fieldPatterns names (qs.set j q') = fieldPatterns names qs := by
  obtain ⟨hj, _⟩ := List.getElem?_eq_some_iff.mp hq
  cases hname : names[j]? with
  | none =>
    -- There is no field for it, so that it is not even reached.
    rw [fieldPatterns, fieldPatterns,
      subPatterns_set_of_le (List.getElem?_eq_none_iff.mp hname)]
  | some name =>
    have hmem : name ∈ Table.names (subPatterns (names.drop (j + 1)) (qs.drop (j + 1))) := by
      rw [mem_names_later_iff h]
      by_contra hnone
      refine hdropped ⟨name, hname, fun k p hk hname' hp => ?_⟩
      cases hwild : p.isWildcard with
      | true => rfl
      | false => exact absurd ⟨k, p, hk, hname', hp, hwild⟩ hnone
    have hq' : (qs.set j q')[j]? = some q' := List.getElem?_set_self hj
    rw [fieldPatterns, fieldPatterns, subPatterns_eq_append hname hq' hw',
      subPatterns_eq_append hname hq hw, List.take_set_of_le (Nat.le_refl j),
      List.drop_set_of_lt (Nat.lt_succ_self j)]
    exact Table.ofList_overwritten hmem q' q

end Forms

/-! ### What a match has asked -/

/-- A test that no value passes. -/
def Test.Hopeless (t : Test) : Prop :=
  ∀ (force : Value → Run Value) (v : Value) (b b' : Bindings) (s s' : Store),
    outcome (t.matches force v b) s ≠ (.ok (some b'), s')

/-- Without an option nothing passes. -/
theorem Test.hopeless_either_nil : (Test.either []).Hopeless := by
  intro force v b b' s s' h
  rw [Test.matches, Test.matchFirst] at h
  cases h

/-- Forcing in place first does not help. -/
theorem Pattern.hopeless_nested {p : Pattern} (h : p.test.Hopeless) : p.nested.Hopeless := by
  intro force v b b' s s' hmatch
  cases hd : p.demands with
  | true =>
    rw [Pattern.nested_of_demands hd, Test.matches] at hmatch
    obtain ⟨w, s₁, _, hmatch⟩ := outcome_bind_eq_ok hmatch
    exact h force w b b' s₁ s' hmatch
  | false =>
    rw [Pattern.nested_of_not_demands hd] at hmatch
    exact h force v b b' s s' hmatch

section Matching

variable {force : Value → Run Value}

/-- A match of fields has put each test to its field, and each has matched. -/
theorem asked_of_matchFields {subs : List (String × Test)} {ref : RecordRef} {b b' : Bindings}
    {s s' : Store} (h : outcome (Test.matchFields force subs ref b) s = (.ok (some b'), s'))
    {name : String} {t : Test} (hmem : (name, t) ∈ subs) :
    ∃ i b₁ s₁, i.test = t ∧ FieldAsked force subs ref b s name i ∧
      i.store.field? ref name = some i.value ∧
      outcome (t.matches force i.value i.bindings) i.store = (.ok (some b₁), s₁) := by
  induction subs generalizing b s with
  | nil => cases hmem
  | cons e subs ih =>
    obtain ⟨name', t'⟩ := e
    rw [Test.matchFields, outcome_get_bind] at h
    cases hv : s.field? ref name' with
    | none =>
      rw [hv] at h
      cases h
    | some v =>
      rw [hv] at h
      obtain ⟨o, s₁, ho, h⟩ := outcome_bind_eq_ok h
      cases o with
      | none => cases h
      | some b₁ =>
        rcases List.mem_cons.mp hmem with heq | hmem
        · cases heq
          exact ⟨⟨t, v, b, s⟩, b₁, s₁, rfl, .head hv, hv, ho⟩
        · obtain ⟨i, b₂, s₂, htest, hasked, hfield, hmatch⟩ := ih h hmem
          exact ⟨i, b₂, s₂, htest, .tail hv ho hasked, hfield, hmatch⟩

/-- A match of a structured form is one of the fields of a record with its tag. -/
theorem matchFields_of_matches_fields {key : String} {subs : List (String × Test)} {v : Value}
    {b b' : Bindings} {s s' : Store}
    (h : outcome ((Test.fields key subs).matches force v b) s = (.ok (some b'), s')) :
    ∃ ref, v = .record ref ∧ s.hasTag (.record ref) key = true ∧
      outcome (Test.matchFields force subs ref b) s = (.ok (some b'), s') := by
  rw [Test.matches, outcome_get_bind] at h
  split at h
  · rename_i ref htag
    exact ⟨ref, rfl, htag, h⟩
  · cases h

end Matching

/-- The test of a form headed by a factory. -/
theorem Pattern.test_factory (token : Phrase) (c : Constructor) (qs : List Pattern) :
    (Pattern.factory token c qs).test =
      .fields c.key ((fieldPatterns c.fields qs).map fun e => (e.1, e.2.nested)) := by
  rw [Pattern.test, Pattern.testFields_eq_map]

/-- A form that matches has put every part that is kept to its field, where it has matched. -/
theorem asked_of_keptAt {r : Registry} {parts : List Phrase} {qs : List Pattern} {c : Constructor}
    {j : ℕ} {q : Pattern} (h : Pattern.ofPhrases r.resolver parts = .ok qs) (hq : qs[j]? = some q)
    (hw : q.isWildcard = false) (hkept : Phrase.KeptAt c.fields parts j) {token : Phrase}
    {force : Value → Run Value} {v : Value} {b b' : Bindings} {s s' : Store}
    (hmatch : outcome ((Pattern.factory token c qs).test.matches force v b) s =
      (.ok (some b'), s')) :
    ∃ ref name i b₁ s₁, v = .record ref ∧ c.fields[j]? = some name ∧ i.test = q.nested ∧
      Inspection.Asks force ⟨(Pattern.factory token c qs).test, v, b, s⟩ (.field name) i ∧
      i.store.field? ref name = some i.value ∧
      outcome (q.nested.matches force i.value i.bindings) i.store = (.ok (some b₁), s₁) := by
  obtain ⟨name, hname, hmem⟩ := mem_fieldPatterns_of_keptAt h hq hw hkept
  rw [Pattern.test_factory] at hmatch ⊢
  obtain ⟨ref, rfl, htag, hmatch⟩ := matchFields_of_matches_fields hmatch
  have hmem' : (name, q.nested) ∈ (fieldPatterns c.fields qs).map fun e => (e.1, e.2.nested) :=
    List.mem_map.mpr ⟨(name, q), hmem, rfl⟩
  obtain ⟨i, b₁, s₁, hi, hasked, hvalue, hpasses⟩ := asked_of_matchFields hmatch hmem'
  exact ⟨ref, name, i, b₁, s₁, rfl, hname, hi, .field htag hasked, hvalue, hpasses⟩

/-- **Which parts of a structured form are left out.** Of a form headed by a factory that resolves,
consider a part that is no wildcard. It is kept when the factory has a field for it and no later
part that is no wildcard stands under the name of that field. If it is kept, then whenever the form
matches a value, that value is a record, the part has been put to the field of the record under that
name, and it has matched there; so the form matches nothing when the part does not. If it is not
kept, then any other part that is no wildcard gives a form with the same test. When the field names
are distinct and there are no more parts than fields, every part is kept. -/
theorem kept_parts_exact {r : Registry} {stamp : ℕ} {head : Ident} {parts : List Phrase}
    {c : Constructor} {form : Pattern} (hc : r.resolve? head = some c)
    (hfactory : c.isConstant = false)
    (h : Pattern.ofPhrase r.resolver (.compound stamp head parts) = .ok form) :
    (∀ j p, parts[j]? = some p → p.isWildcard = false →
      ∃ q, Pattern.ofPhrase r.resolver p = .ok q ∧
        (Phrase.KeptAt c.fields parts j →
          (∀ (force : Value → Run Value) (v : Value) (b b' : Bindings) (s s' : Store),
            outcome (form.test.matches force v b) s = (.ok (some b'), s') →
            ∃ ref name i b₁ s₁, v = .record ref ∧ c.fields[j]? = some name ∧ i.test = q.nested ∧
              Inspection.Asks force ⟨form.test, v, b, s⟩ (.field name) i ∧
              i.store.field? ref name = some i.value ∧
              outcome (q.nested.matches force i.value i.bindings) i.store = (.ok (some b₁), s₁)) ∧
          (q.test.Hopeless → form.test.Hopeless)) ∧
        (¬ Phrase.KeptAt c.fields parts j →
          ∀ p' q', p'.isWildcard = false → Pattern.ofPhrase r.resolver p' = .ok q' →
            ∃ form', Pattern.ofPhrase r.resolver (.compound stamp head (parts.set j p')) =
              .ok form' ∧ form'.test = form.test)) ∧
    (c.fields.Nodup → parts.length ≤ c.fields.length →
      ∀ j < parts.length, Phrase.KeptAt c.fields parts j) := by
  obtain ⟨c', hc', ⟨hk, _, _⟩ | ⟨_, qs, hqs, rfl⟩⟩ := ofPhrase_compound h
  · cases hc.symm.trans hc'
    rw [hfactory] at hk
    cases hk
  cases hc.symm.trans hc'
  refine ⟨fun j p hp hw => ?_, fun hnodup hlength j hj =>
    Phrase.keptAt_of_nodup hnodup (Nat.lt_of_lt_of_le hj hlength)⟩
  obtain ⟨q, hq, hres⟩ := exists_getElem?_of_ofPhrases hqs hp
  have hqw : q.isWildcard = false := by rw [isWildcard_of_ofPhrase hres, hw]
  refine ⟨q, hres, fun hkept => ⟨?_, ?_⟩, fun hdropped p' q' hw' hres' => ?_⟩
  · intro force v b b' s s' hmatch
    exact asked_of_keptAt hqs hq hqw hkept hmatch
  · intro hhopeless force v b b' s s' hmatch
    obtain ⟨_, _, i, b₁, s₁, _, _, _, _, _, hpasses⟩ := asked_of_keptAt hqs hq hqw hkept hmatch
    exact Pattern.hopeless_nested hhopeless _ _ _ _ _ _ hpasses
  · have hqs' : Pattern.ofPhrases r.resolver (parts.set j p') = .ok (qs.set j q') := by
      rw [ofPhrases_eq_ok] at hqs ⊢
      exact forall₂_set hqs hres' j
    refine ⟨_, ofPhrase_of_factory hc hfactory hqs', ?_⟩
    rw [Pattern.test_factory, Pattern.test_factory,
      fieldPatterns_set_of_not_keptAt hqs hq hqw hdropped
        (by rw [isWildcard_of_ofPhrase hres', hw'])]

/-- Boxes of one thing. -/
def boxes : Registry :=
  Registry.empty.enter ⟨"Box", [("Full", ⟨"Box", "Full", false, .factory ["content"]⟩)]⟩

/-- A variable for the content of a box, and one part more, which nothing matches. -/
def surplusParts : List Phrase := [.name 2 "x", .either 3 []]

/-- A store with a box of the number one. -/
def boxStore : Store where
  records := #[[(.text "content", .int 1), (.text "", .text "Box.Full")]]

/-- The form matches the box although its second part matches nothing: that part could as well be a
variable. The first part has been put to the content. -/
theorem kept_parts_exact_surplus :
    ∃ form, Pattern.ofPhrase boxes.resolver (.compound 1 ⟨101, "Full"⟩ surplusParts) = .ok form ∧
      outcome (form.test.matches pure (.record ⟨0⟩) []) boxStore =
        (.ok (some [("x", .int 1)]), boxStore) ∧
      (∃ q, Pattern.ofPhrase boxes.resolver (.either 3 []) = .ok q ∧ q.test.Hopeless) ∧
      (∃ form', Pattern.ofPhrase boxes.resolver
          (.compound 1 ⟨101, "Full"⟩ [.name 2 "x", .name 4 "y"]) = .ok form' ∧
        form'.test = form.test) ∧
      ∃ ref name i b s, Value.record ⟨0⟩ = .record ref ∧ ["content"][0]? = some name ∧
        i.test = .bind "x" ∧
        Inspection.Asks pure ⟨form.test, .record ⟨0⟩, [], boxStore⟩ (.field name) i ∧
        i.store.field? ref name = some i.value ∧
        outcome ((Test.bind "x").matches pure i.value i.bindings) i.store = (.ok (some b), s) := by
  obtain ⟨form, hform⟩ : ∃ form,
      Pattern.ofPhrase boxes.resolver (.compound 1 ⟨101, "Full"⟩ surplusParts) = .ok form :=
    ⟨_, rfl⟩
  have hc : boxes.resolve? "Full" = some ⟨"Box", "Full", false, .factory ["content"]⟩ := by
    decide +kernel
  have hmatch : outcome (form.test.matches pure (.record ⟨0⟩) []) boxStore =
      (.ok (some [("x", .int 1)]), boxStore) := by
    have htag : boxStore.hasTag (.record ⟨0⟩) ("Box" ++ "." ++ "Full") = true := by decide +kernel
    have hfield : boxStore.field? ⟨0⟩ "content" = some (.int 1) := by decide +kernel
    cases hform
    rw [Pattern.test_factory, Test.matches, outcome_get_bind]
    simp only [Constructor.key, htag]
    change outcome (Test.matchFields pure [("content", .bind "x")] ⟨0⟩ []) boxStore = _
    rw [Test.matchFields, outcome_get_bind, hfield]
    rfl
  obtain ⟨hparts, _⟩ := kept_parts_exact hc rfl hform
  obtain ⟨q, hq, hkept, _⟩ := hparts 0 (.name 2 "x") rfl rfl
  obtain ⟨_, _, _, hdropped⟩ := hparts 1 (.either 3 []) rfl rfl
  have hfirst : Phrase.KeptAt ["content"] surplusParts 0 :=
    Phrase.keptAt_of_nodup (by decide) (by decide)
  have hsecond : ¬ Phrase.KeptAt ["content"] surplusParts 1 := by
    rintro ⟨name, hname, _⟩
    cases hname
  obtain ⟨hasked, _⟩ := hkept hfirst
  cases hq
  exact ⟨form, hform, hmatch, ⟨_, rfl, Test.hopeless_either_nil⟩,
    hdropped hsecond (.name 4 "y") _ rfl rfl, hasked pure _ _ _ _ _ hmatch⟩

end LazyMatch
