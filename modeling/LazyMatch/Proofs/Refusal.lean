import LazyMatch.Proofs.Naming
import Mathlib.Data.List.Sort

/-!
# Which rules are refused, and why

Compiling rules goes through several passes, each of which relies on the ones before. What can be
wrong with rules is said here without any pass: there are none of them, their rows differ in width,
a structured form has a head that names no constructor for it, or alternatives bind different names.
Rules compile when nothing of this is the case, and otherwise the fault that is reported is one of
these, of the first rule that has one; only the widths are looked at before everything else.

* `Phrase.Binds`, `Phrase.Reaches`: the names that a phrase binds, and the phrases that resolving
  reaches in it;
* `Phrase.Sound`, `RuleRow.Sound`: what a cell and a row must fulfil;
* `Phrase.Breaks`, `RuleRow.Breaks`: what is reported of a cell and of a row that do not;
* `ofPhrase_eq_error`, `ofRow_eq_error`, `patternRows_eq_error`: what is reported is the case;
* `refusal_exact`: which rules compile, and what is reported of all others.
-/

namespace LazyMatch

/-! ### What a phrase binds and reaches -/

/-- A phrase binds a name: as a variable, as what an escape holds, as the name that a part goes by,
or in one of its parts. -/
inductive Phrase.Binds (r : Registry) (x : String) : Phrase → Prop
  | var (stamp : ℕ) : x ≠ "_" → r.resolve? x = none → Binds r x (.name stamp x)
  | escape (stamp stamp' : ℕ) : x ≠ "_" → Binds r x (.defer stamp (.phrase (.name stamp' x)))
  | label (stamp stamp' : ℕ) (inner : Phrase) : Binds r x (.named stamp inner ⟨stamp', x⟩)
  | inner {stamp : ℕ} {p : Phrase} {name : Ident} : Binds r x p → Binds r x (.named stamp p name)
  | field {stamp : ℕ} {head : Ident} {fields : List Phrase} {p : Phrase} :
      p ∈ fields → Binds r x p → Binds r x (.compound stamp head fields)
  | alternative {stamp : ℕ} {alternatives : List Phrase} {p : Phrase} :
      p ∈ alternatives → Binds r x p → Binds r x (.either stamp alternatives)

/-- What is inside a phrase, through the fields of structured forms, names and alternations. Escapes
and literals stay closed. -/
inductive Phrase.Reaches : Phrase → Phrase → Prop
  | refl (p : Phrase) : Reaches p p
  | inner {stamp : ℕ} {p q : Phrase} {name : Ident} : Reaches p q → Reaches (.named stamp p name) q
  | field {stamp : ℕ} {head : Ident} {fields : List Phrase} {p q : Phrase} :
      p ∈ fields → Reaches p q → Reaches (.compound stamp head fields) q
  | alternative {stamp : ℕ} {alternatives : List Phrase} {p q : Phrase} :
      p ∈ alternatives → Reaches p q → Reaches (.either stamp alternatives) q

/-- Phrases bind the same names. -/
def SameNames (r : Registry) (ps : List Phrase) : Prop :=
  ∀ p ∈ ps, ∀ q ∈ ps, ∀ x, p.Binds r x ↔ q.Binds r x

/-- A structured form may have this head: it names a factory, or a constant and there are no
fields. -/
def Registry.Allows (r : Registry) (head : String) (fields : List Phrase) : Prop :=
  ∃ c, r.resolve? head = some c ∧ (c.isConstant = true → fields = [])

/-- A phrase by itself is in order, whatever its parts are. -/
def Phrase.Proper (r : Registry) : Phrase → Prop
  | .compound _ head fields => r.Allows head fields
  | .either _ alternatives => SameNames r alternatives
  | _ => True

/-- Everything inside a phrase is in order. -/
def Phrase.Sound (r : Registry) (p : Phrase) : Prop := ∀ q, p.Reaches q → q.Proper r

/-- A list of names has exactly the names that a phrase binds, in ascending order. -/
def Phrase.Lists (r : Registry) (p : Phrase) (names : Names) : Prop :=
  names.Pairwise (· < ·) ∧ ∀ x, x ∈ names ↔ p.Binds r x

/-- What is wrong with a phrase by itself: its head is unknown, or its alternatives bind names that
are not the same. -/
inductive Phrase.Breaks (r : Registry) : Phrase → RuleCause → Prop
  | head {stamp : ℕ} {head : Ident} {fields : List Phrase} :
      ¬ r.Allows head fields → Breaks r (.compound stamp head fields) (.unknownTag head)
  | names {stamp : ℕ} {alternatives : List Phrase} {names : List Names} :
      List.Forall₂ (Phrase.Lists r) alternatives names → ¬ SameNames r alternatives →
      Breaks r (.either stamp alternatives) (.differentNames names)

section Phrases

variable {r : Registry} {x : String}

theorem Phrase.Breaks.not_proper {p : Phrase} {cause : RuleCause} (h : p.Breaks r cause) :
    ¬ p.Proper r := by
  cases h with
  | head hhead => exact hhead
  | names _ hnames => exact hnames

theorem SameNames.of_forall {ps : List Phrase} {P : String → Prop}
    (h : ∀ p ∈ ps, ∀ x, p.Binds r x ↔ P x) : SameNames r ps :=
  fun p hp q hq x => (h p hp x).trans (h q hq x).symm

theorem Phrase.binds_name {stamp : ℕ} {text : String} :
    (Phrase.name stamp text).Binds r x ↔ x = text ∧ text ≠ "_" ∧ r.resolve? text = none := by
  constructor
  · intro h
    cases h with
    | var _ hx hnone => exact ⟨rfl, hx, hnone⟩
  · rintro ⟨rfl, hx, hnone⟩
    exact .var stamp hx hnone

theorem Phrase.binds_defer {stamp : ℕ} {content : Value} :
    (Phrase.defer stamp content).Binds r x ↔ x ∈ Pattern.contentNames content := by
  constructor
  · intro h
    cases h with
    | escape _ stamp' hx => simp [Pattern.contentNames, hx]
  · intro h
    unfold Pattern.contentNames at h
    split at h
    · split at h
      · cases h
      · rename_i ht
        obtain rfl := List.mem_singleton.mp h
        exact .escape _ _ ht
    · cases h

theorem Phrase.binds_named {stamp : ℕ} {p : Phrase} {name : Ident} :
    (Phrase.named stamp p name).Binds r x ↔ x = name ∨ p.Binds r x := by
  constructor
  · intro h
    cases h with
    | label => exact .inl rfl
    | inner h => exact .inr h
  · rintro (rfl | h)
    · exact .label stamp name.stamp p
    · exact .inner h

theorem Phrase.binds_compound {stamp : ℕ} {head : Ident} {fields : List Phrase} :
    (Phrase.compound stamp head fields).Binds r x ↔ ∃ p ∈ fields, p.Binds r x := by
  constructor
  · intro h
    cases h with
    | field hp h => exact ⟨_, hp, h⟩
  · rintro ⟨p, hp, h⟩
    exact .field hp h

theorem Phrase.binds_either {stamp : ℕ} {alternatives : List Phrase} :
    (Phrase.either stamp alternatives).Binds r x ↔ ∃ p ∈ alternatives, p.Binds r x := by
  constructor
  · intro h
    cases h with
    | alternative hp h => exact ⟨_, hp, h⟩
  · rintro ⟨p, hp, h⟩
    exact .alternative hp h

/-- A phrase without parts is in order. -/
theorem Phrase.sound_of_reaches_self {p : Phrase} (hreach : ∀ q, p.Reaches q → q = p)
    (hp : p.Proper r) : p.Sound r := fun q hq => hreach q hq ▸ hp

theorem Phrase.sound_named {stamp : ℕ} {p : Phrase} {name : Ident} (h : p.Sound r) :
    (Phrase.named stamp p name).Sound r := by
  intro q hq
  cases hq with
  | refl => trivial
  | inner hq => exact h q hq

theorem Phrase.sound_compound {stamp : ℕ} {head : Ident} {fields : List Phrase}
    (hhead : r.Allows head fields) (h : ∀ p ∈ fields, p.Sound r) :
    (Phrase.compound stamp head fields).Sound r := by
  intro q hq
  cases hq with
  | refl => exact hhead
  | field hp hq => exact h _ hp q hq

theorem Phrase.sound_either {stamp : ℕ} {alternatives : List Phrase}
    (hnames : SameNames r alternatives) (h : ∀ p ∈ alternatives, p.Sound r) :
    (Phrase.either stamp alternatives).Sound r := by
  intro q hq
  cases hq with
  | refl => exact hnames
  | alternative hp hq => exact h _ hp q hq

/-- A set of names has one list. -/
theorem Phrase.Lists.eq {p q : Phrase} {m n : Names} (hm : p.Lists r m) (hn : q.Lists r n)
    (h : ∀ x, p.Binds r x ↔ q.Binds r x) : m = n :=
  List.Pairwise.eq_of_mem_iff hm.1 hn.1 fun x => by rw [hm.2, hn.2, h]

end Phrases

/-! ### What resolving a phrase reports -/

section Resolving

variable {r : Registry}

mutual

/-- The names of a pattern are those that its phrase binds. -/
theorem lists_of_ofPhrase :
    ∀ (p : Phrase) {q : Pattern} {n : Names}, Pattern.ofPhrase r.resolver p = .ok q →
      q.names? = some n → p.Lists r n
  | .name stamp text, q, n, h, hn => by
    rcases ofPhrase_name h with ⟨ht, rfl⟩ | ⟨ht, hc, rfl⟩ | ⟨c, _, hc, _, rfl⟩ | ⟨c, _, hc, _, rfl⟩
    · cases hn
      exact ⟨.nil, fun x => by simp [Phrase.binds_name, ht]⟩
    · cases hn
      exact ⟨List.pairwise_singleton _ _, fun x => by simp [Phrase.binds_name, ht, hc]⟩
    · cases hn
      exact ⟨.nil, fun x => by simp [Phrase.binds_name, hc]⟩
    · cases hn
      exact ⟨.nil, fun x => by simp [Phrase.binds_name, hc]⟩
  | .compound stamp head fields, q, n, h, hn => by
    obtain ⟨c, _, ⟨_, rfl, rfl⟩ | ⟨_, qs, hqs, rfl⟩⟩ := ofPhrase_compound h
    · cases hn
      exact ⟨.nil, fun x => by simp [Phrase.binds_compound]⟩
    · obtain ⟨hsorted, hmem⟩ := listsAll_of_ofPhrases fields hqs hn
      exact ⟨hsorted, fun x => by rw [hmem, Phrase.binds_compound]⟩
  | .defer stamp content, q, n, h, hn => by
    cases h
    cases hn
    refine ⟨?_, fun x => Phrase.binds_defer.symm⟩
    unfold Pattern.contentNames
    split
    · split <;> simp
    · exact .nil
  | .named stamp inner name, q, n, h, hn => by
    obtain ⟨q', hq', rfl⟩ := map_eq_ok.mp h
    rw [Pattern.names?, Option.map_eq_some_iff] at hn
    obtain ⟨m, hm, rfl⟩ := hn
    obtain ⟨hsorted, hmem⟩ := lists_of_ofPhrase inner hq' hm
    exact ⟨Names.pairwise_insert hsorted, fun x => by
      rw [Names.mem_insert, hmem, Phrase.binds_named]⟩
  | .either stamp [], q, n, h, hn => by
    obtain ⟨qs, hqs, rfl⟩ := ofPhrase_either h
    cases hqs
    cases hn
  | .either stamp (first :: rest), q, n, h, hn => by
    obtain ⟨qs, names, hqs, hnames, rfl⟩ := agree_of_ofPhrase h
    obtain ⟨q₀, hq₀, hqs⟩ := bind_eq_ok.mp hqs
    obtain ⟨qs', hqs', hqs⟩ := bind_eq_ok.mp hqs
    cases hqs
    rw [Pattern.names?, hnames q₀ List.mem_cons_self] at hn
    cases hn
    have hfirst := lists_of_ofPhrase first hq₀ (hnames q₀ List.mem_cons_self)
    have hrest := listsEach_of_ofPhrases rest hqs'
      fun p hp => hnames p (List.mem_cons_of_mem _ hp)
    refine ⟨hfirst.1, fun x => ?_⟩
    rw [Phrase.binds_either]
    constructor
    · intro hx
      exact ⟨first, List.mem_cons_self, (hfirst.2 x).mp hx⟩
    · rintro ⟨p, hp, hx⟩
      rcases List.mem_cons.mp hp with rfl | hp
      · exact (hfirst.2 x).mpr hx
      · exact ((hrest p hp).2 x).mpr hx
  | .literal _ _, q, n, h, hn | .row _, q, n, h, hn | .group _ _ _, q, n, h, hn
  | .otherwise, q, n, h, hn => by
    cases h
    cases hn
    refine ⟨.nil, fun x => ⟨fun hx => ?_, fun hx => ?_⟩⟩
    · cases hx
    · cases hx

/-- The names of several patterns are those that some of their phrases bind. -/
theorem listsAll_of_ofPhrases :
    ∀ (ps : List Phrase) {qs : List Pattern} {n : Names}, Pattern.ofPhrases r.resolver ps = .ok qs →
      Pattern.namesAll? qs = some n →
      n.Pairwise (· < ·) ∧ ∀ x, x ∈ n ↔ ∃ p ∈ ps, p.Binds r x
  | [], qs, n, h, hn => by
    cases h
    cases hn
    exact ⟨.nil, by simp⟩
  | p :: rest, qs, n, h, hn => by
    obtain ⟨q, hq, h⟩ := bind_eq_ok.mp h
    obtain ⟨qs', hqs, h⟩ := bind_eq_ok.mp h
    cases h
    rw [Pattern.namesAll?] at hn
    split at hn
    · rename_i a b ha hb
      cases hn
      obtain ⟨_, hmem⟩ := lists_of_ofPhrase p hq ha
      obtain ⟨hsorted, hmem'⟩ := listsAll_of_ofPhrases rest hqs hb
      refine ⟨Names.pairwise_union hsorted, fun x => ?_⟩
      rw [Names.mem_union, hmem, hmem', List.exists_mem_cons_iff]
    · cases hn

/-- Where several patterns have the same names, each of their phrases binds these. -/
theorem listsEach_of_ofPhrases :
    ∀ (ps : List Phrase) {qs : List Pattern} {n : Names}, Pattern.ofPhrases r.resolver ps = .ok qs →
      (∀ q ∈ qs, q.names? = some n) → ∀ p ∈ ps, p.Lists r n
  | [], qs, n, h, hn => by simp
  | p :: rest, qs, n, h, hn => by
    obtain ⟨q, hq, h⟩ := bind_eq_ok.mp h
    obtain ⟨qs', hqs, h⟩ := bind_eq_ok.mp h
    cases h
    rw [List.forall_mem_cons] at hn ⊢
    exact ⟨lists_of_ofPhrase p hq hn.1, listsEach_of_ofPhrases rest hqs hn.2⟩

end

mutual

/-- What resolves is sound. -/
theorem sound_of_ofPhrase :
    ∀ (p : Phrase) {q : Pattern}, Pattern.ofPhrase r.resolver p = .ok q → p.Sound r
  | .compound stamp head fields, q, h => by
    obtain ⟨c, hc, ⟨_, rfl, _⟩ | ⟨hk, qs, hqs, _⟩⟩ := ofPhrase_compound h
    · exact Phrase.sound_compound ⟨c, hc, fun _ => rfl⟩ (by simp)
    · exact Phrase.sound_compound ⟨c, hc, by simp [hk]⟩ (sound_of_ofPhrases fields hqs)
  | .named stamp inner name, q, h => by
    obtain ⟨q', hq', _⟩ := map_eq_ok.mp h
    exact Phrase.sound_named (sound_of_ofPhrase inner hq')
  | .either stamp alternatives, q, h => by
    obtain ⟨qs, names, hqs, hnames, _⟩ := agree_of_ofPhrase h
    have hlists := listsEach_of_ofPhrases alternatives hqs hnames
    exact Phrase.sound_either (.of_forall fun p hp x => ((hlists p hp).2 x).symm)
      (sound_of_ofPhrases alternatives hqs)
  | .name _ _, q, h | .literal _ _, q, h | .defer _ _, q, h | .row _, q, h | .group _ _ _, q, h
  | .otherwise, q, h => by
    refine Phrase.sound_of_reaches_self (fun q hq => ?_) trivial
    cases hq
    rfl

theorem sound_of_ofPhrases :
    ∀ (ps : List Phrase) {qs : List Pattern}, Pattern.ofPhrases r.resolver ps = .ok qs →
      ∀ p ∈ ps, p.Sound r
  | [], qs, h => by simp
  | p :: rest, qs, h => by
    obtain ⟨q, hq, h⟩ := bind_eq_ok.mp h
    obtain ⟨qs', hqs, h⟩ := bind_eq_ok.mp h
    exact List.forall_mem_cons.mpr ⟨sound_of_ofPhrase p hq, sound_of_ofPhrases rest hqs⟩

end

/-- The check of alternatives fails since the names of one are not known, or since two differ. -/
theorem agree_eq_error {token : Phrase} {ps : List Pattern} {f : Fault}
    (h : agree token ps = .error f) :
    (f = .outOfRange ∧ ∃ p ∈ ps, p.names? = none) ∨
    ∃ names, List.Forall₂ (fun p n => p.names? = some n) ps names ∧
      (∃ m ∈ names, ∃ n ∈ names, m ≠ n) ∧
      f = .rules { cause := .differentNames names, guilty := some token } := by
  rw [agree] at h
  split at h
  · rename_i hmap
    cases h
    exact .inl ⟨rfl, mapM_eq_none.mp hmap⟩
  · rename_i names hmap
    split at h
    · cases h
    · rename_i hall
      cases h
      refine .inr ⟨names, mapM_eq_some.mp hmap, ?_, rfl⟩
      obtain ⟨n, hn, hne⟩ : ∃ n ∈ names, names.head? ≠ some n := by simpa using hall
      cases names with
      | nil => cases hn
      | cons m rest =>
        refine ⟨m, List.mem_cons_self, n, hn, fun hmn => hne ?_⟩
        rw [hmn, List.head?_cons]

/-- The lists of names of resolved phrases. -/
theorem forall₂_lists {ps : List Phrase} {qs : List Pattern} {names : List Names}
    (hqs : List.Forall₂ (fun p q => Pattern.ofPhrase r.resolver p = .ok q) ps qs)
    (hnames : List.Forall₂ (fun q n => q.names? = some n) qs names) :
    List.Forall₂ (Phrase.Lists r) ps names := by
  induction hqs generalizing names with
  | nil =>
    cases hnames
    exact .nil
  | cons hq _ ih =>
    obtain _ | ⟨hn, hnames⟩ := hnames
    exact .cons (lists_of_ofPhrase _ hq hn) (ih hnames)

/-- Phrases with different lists of names do not bind the same names. -/
theorem not_sameNames_of_lists {ps : List Phrase} {names : List Names}
    (hlists : List.Forall₂ (Phrase.Lists r) ps names) (hne : ∃ m ∈ names, ∃ n ∈ names, m ≠ n) :
    ¬ SameNames r ps := by
  intro hsame
  obtain ⟨m, hm, n, hn, hne⟩ := hne
  obtain ⟨p, hp, hpm⟩ := exists_of_mem_right hlists hm
  obtain ⟨q, hq, hqn⟩ := exists_of_mem_right hlists hn
  exact hne (hpm.eq hqn (hsame p hp q hq))

/-- Where the names of a resolved phrase are not known, an alternation has no alternative. -/
theorem allOffer_eq_false {ps : List Phrase} {qs : List Pattern} {q : Pattern}
    (h : Pattern.ofPhrases r.resolver ps = .ok qs) (hq : q ∈ qs) (hnone : q.names? = none) :
    Phrase.allOffer ps = false := by
  induction ps generalizing qs with
  | nil =>
    cases h
    cases hq
  | cons p ps ih =>
    obtain ⟨q', hq', h⟩ := bind_eq_ok.mp h
    obtain ⟨qs', hqs, h⟩ := bind_eq_ok.mp h
    cases h
    rw [Phrase.allOffer, Bool.and_eq_false_iff]
    rcases List.mem_cons.mp hq with rfl | hq
    · refine .inl (Bool.eq_false_iff.mpr fun hoffers => ?_)
      obtain ⟨n, hn⟩ := names?_of_ofPhrase p hq' hoffers
      cases hnone.symm.trans hn
    · exact .inr (ih hqs hq)

/-- What the check of resolved alternatives reports is the case. -/
theorem agree_eq_error_of_forall₂ {token : Phrase} {ps : List Phrase} {qs : List Pattern}
    {f : Fault}
    (hqs : List.Forall₂ (fun p q => Pattern.ofPhrase r.resolver p = .ok q) ps qs)
    (h : agree token qs = .error f) :
    (f = .outOfRange ∧ ∃ q ∈ qs, q.names? = none) ∨
    ∃ names, List.Forall₂ (Phrase.Lists r) ps names ∧ ¬ SameNames r ps ∧
      f = .rules { cause := .differentNames names, guilty := some token } := by
  rcases agree_eq_error h with hnone | ⟨names, hnames, hne, rfl⟩
  · exact .inl hnone
  · have hlists := forall₂_lists hqs hnames
    exact .inr ⟨names, hlists, not_sameNames_of_lists hlists hne, rfl⟩

mutual

/-- What resolving reports is wrong with a phrase that it reaches, unless an alternation has no
alternative. -/
theorem ofPhrase_eq_error :
    ∀ (p : Phrase) {f : Fault}, Pattern.ofPhrase r.resolver p = .error f →
      (f = .outOfRange ∧ p.offers = false) ∨
      ∃ cause guilty, f = .rules { cause, guilty := some guilty } ∧ p.Reaches guilty ∧
        guilty.Breaks r cause
  | .name stamp text, f, h => by
    unfold Pattern.ofPhrase at h
    by_cases ht : text = "_"
    · simp only [ht, if_true] at h
      cases h
    · simp only [ht, if_false, Registry.resolver, bind, Except.bind] at h
      cases hc : r.resolve? text with
      | none =>
        simp only [hc] at h
        cases h
      | some c =>
        simp only [hc] at h
        split at h <;> cases h
  | .compound stamp head fields, f, h => by
    have hunknown (hhead : ¬ r.Allows head fields)
        (hf : f = .rules
          { cause := .unknownTag head, guilty := some (.compound stamp head fields) }) :
        ∃ cause guilty, f = .rules { cause, guilty := some guilty } ∧
          (Phrase.compound stamp head fields).Reaches guilty ∧ guilty.Breaks r cause :=
      ⟨_, _, hf, .refl _, .head hhead⟩
    unfold Pattern.ofPhrase at h
    simp only [Registry.resolver] at h
    cases hc : r.resolve? head with
    | none =>
      simp only [hc] at h
      cases h
      exact .inr (hunknown (by simp [Registry.Allows, hc]) rfl)
    | some c =>
      simp only [hc, bind, Except.bind] at h
      cases hk : c.isConstant with
      | true =>
        cases fields with
        | nil =>
          simp only [hk] at h
          cases h
        | cons p rest =>
          simp only [hk] at h
          cases h
          exact .inr (hunknown (by simp [Registry.Allows, hc, hk]) rfl)
      | false =>
        simp only [hk] at h
        cases hqs : Pattern.ofPhrases r.resolver fields with
        | ok qs =>
          simp only [hqs] at h
          cases h
        | error f' =>
          simp only [hqs] at h
          cases h
          refine (ofPhrases_eq_error fields hqs).imp_right ?_
          rintro ⟨cause, guilty, p, hp, hf, hreach, hbreaks⟩
          exact ⟨cause, guilty, hf, .field hp hreach, hbreaks⟩
  | .named stamp inner name, f, h => by
    refine (ofPhrase_eq_error inner (map_eq_error.mp h)).imp_right ?_
    rintro ⟨cause, guilty, hf, hreach, hbreaks⟩
    exact ⟨cause, guilty, hf, .inner hreach, hbreaks⟩
  | .either stamp alternatives, f, h => by
    have hoffers (hnone : Phrase.allOffer alternatives = false) :
        (Phrase.either stamp alternatives).offers = false := by
      rw [Phrase.offers, hnone, Bool.and_false]
    unfold Pattern.ofPhrase at h
    rcases bind_eq_error.mp h with hqs | ⟨qs, hqs, h⟩
    · refine (ofPhrases_eq_error alternatives hqs).imp (fun hnone => ⟨hnone.1, hoffers hnone.2⟩) ?_
      rintro ⟨cause, guilty, p, hp, hf, hreach, hbreaks⟩
      exact ⟨cause, guilty, hf, .alternative hp hreach, hbreaks⟩
    · rcases bind_eq_error.mp h with hagree | ⟨_, _, h⟩
      · rcases agree_eq_error_of_forall₂ (ofPhrases_eq_ok.mp hqs) hagree with
          ⟨hf, q, hq, hnone⟩ | ⟨names, hlists, hne, hf⟩
        · exact .inl ⟨hf, hoffers (allOffer_eq_false hqs hq hnone)⟩
        · exact .inr ⟨_, _, hf, .refl _, .names hlists hne⟩
      · cases h
  | .literal _ _, f, h | .defer _ _, f, h | .row _, f, h | .group _ _ _, f, h
  | .otherwise, f, h => by cases h

theorem ofPhrases_eq_error :
    ∀ (ps : List Phrase) {f : Fault}, Pattern.ofPhrases r.resolver ps = .error f →
      (f = .outOfRange ∧ Phrase.allOffer ps = false) ∨
      ∃ cause guilty, ∃ p ∈ ps, f = .rules { cause, guilty := some guilty } ∧ p.Reaches guilty ∧
        guilty.Breaks r cause
  | [], f, h => by cases h
  | p :: rest, f, h => by
    rcases bind_eq_error.mp h with h | ⟨q, _, h⟩
    · refine (ofPhrase_eq_error p h).imp (fun hnone => ⟨hnone.1, ?_⟩) ?_
      · rw [Phrase.allOffer, hnone.2, Bool.false_and]
      · rintro ⟨cause, guilty, hf, hreach, hbreaks⟩
        exact ⟨cause, guilty, p, List.mem_cons_self, hf, hreach, hbreaks⟩
    · rcases bind_eq_error.mp h with h | ⟨_, _, h⟩
      · refine (ofPhrases_eq_error rest h).imp (fun hnone => ⟨hnone.1, ?_⟩) ?_
        · rw [Phrase.allOffer, hnone.2, Bool.and_false]
        · rintro ⟨cause, guilty, p', hp', hf, hreach, hbreaks⟩
          exact ⟨cause, guilty, p', List.mem_cons_of_mem _ hp', hf, hreach, hbreaks⟩
      · cases h

end

end Resolving

/-! ### What resolving a row reports -/

/-- The cells of a row at one position, one for each plain row that is wide enough. -/
def RuleRow.cellsAt (row : RuleRow) (i : ℕ) : List Phrase := row.rows.filterMap (·.cells[i]?)

/-- Every cell of a row is sound, and at each position its plain rows bind the same names. -/
def RuleRow.Sound (r : Registry) (row : RuleRow) : Prop :=
  (∀ plain ∈ row.rows, ∀ cell ∈ plain.cells, cell.Sound r) ∧ ∀ i, SameNames r (row.cellsAt i)

/-- What is wrong with a row: something in one of its cells, or the rows of a group bind different
names at some position, for which the cell of the first one is blamed. -/
inductive RuleRow.Breaks (r : Registry) : RuleRow → RuleCause → Phrase → Prop
  | cell {row : RuleRow} {plain : Row} {cell guilty : Phrase} {cause : RuleCause} :
      plain ∈ row.rows → cell ∈ plain.cells → cell.Reaches guilty → guilty.Breaks r cause →
      Breaks r row cause guilty
  | column {stamp : ℕ} {first : Row} {rest : List Row} {i : ℕ} {token : Phrase}
      {names : List Names} :
      first.cells[i]? = some token →
      List.Forall₂ (Phrase.Lists r) ((RuleRow.group stamp first rest).cellsAt i) names →
      ¬ SameNames r ((RuleRow.group stamp first rest).cellsAt i) →
      Breaks r (.group stamp first rest) (.differentNames names) token

theorem RuleRow.Breaks.not_sound {r : Registry} {row : RuleRow} {cause : RuleCause}
    {guilty : Phrase} (h : row.Breaks r cause guilty) : ¬ row.Sound r := by
  intro hsound
  cases h with
  | cell hplain hcell hreach hbreaks =>
    exact hbreaks.not_proper (hsound.1 _ hplain _ hcell _ hreach)
  | column _ _ hne => exact hne (hsound.2 _)

section Rows

variable {r : Registry}

/-- A column of rows that are wide enough is there. -/
theorem exists_column {flat : List (List Pattern)} {i : ℕ} (h : ∀ cells ∈ flat, i < cells.length) :
    ∃ cells, column flat i = .ok cells := by
  obtain ⟨cells, hcells⟩ : ∃ cells, flat.mapM (·[i]?) = some cells := by
    induction flat with
    | nil => exact ⟨[], rfl⟩
    | cons row flat ih =>
      rw [List.forall_mem_cons] at h
      obtain ⟨cells, hcells⟩ := ih h.2
      exact ⟨row.get ⟨i, h.1⟩ :: cells, by simp [hcells, h.1]⟩
  exact ⟨cells, by rw [column, hcells]⟩

/-- A column of resolved rows holds the resolved cells. -/
theorem forall₂_of_column {plains : List Row} {flat : List (List Pattern)} {i : ℕ}
    {cells : List Pattern}
    (hflat : List.Forall₂ (fun plain cells => Pattern.ofPhrases r.resolver plain.cells = .ok cells)
      plains flat) (h : column flat i = .ok cells) :
    List.Forall₂ (fun p q => Pattern.ofPhrase r.resolver p = .ok q)
      (plains.filterMap (·.cells[i]?)) cells := by
  have hcells := column_eq_ok h
  clear h
  induction hflat generalizing cells with
  | nil =>
    obtain rfl : cells = [] := by simpa using hcells.symm
    exact .nil
  | @cons plain row plains flat hrow _ ih =>
    obtain _ | ⟨q, cells⟩ := cells
    · cases hcells
    rw [List.map_cons, List.map_cons, List.cons.injEq] at hcells
    obtain ⟨hi, hq⟩ := List.getElem?_eq_some_iff.mp hcells.1
    have hrow := ofPhrases_eq_ok.mp hrow
    have hi' : i < plain.cells.length := hrow.length_eq ▸ hi
    rw [List.filterMap_cons, List.getElem?_eq_getElem hi']
    exact .cons (hq ▸ hrow.get hi' hi) (ih hcells.2)

/-- Resolved rows have the width of the rows. -/
theorem length_of_ofPhrases {plains : List Row} {flat : List (List Pattern)} {arity : ℕ}
    (hflat : List.Forall₂ (fun plain cells => Pattern.ofPhrases r.resolver plain.cells = .ok cells)
      plains flat) (hwidth : ∀ plain ∈ plains, plain.width = arity) :
    ∀ cells ∈ flat, cells.length = arity := by
  intro cells hcells
  obtain ⟨plain, hplain, hres⟩ := exists_of_mem_right hflat hcells
  rw [← (ofPhrases_eq_ok.mp hres).length_eq]
  exact hwidth plain hplain

/-- A row that resolves is sound. -/
theorem sound_of_ofRow {row : RuleRow} {prow : PatternRow} {arity : ℕ}
    (h : PatternRow.ofRow r.resolver row = .ok prow)
    (hwidth : ∀ plain ∈ row.rows, plain.width = arity) : row.Sound r := by
  have hrows := rows_of_ofRow h
  refine ⟨fun plain hplain => ?_, fun i => ?_⟩
  · obtain ⟨cells, _, hres⟩ := exists_of_mem_right hrows.flip hplain
    exact sound_of_ofPhrases plain.cells hres
  · cases row with
    | row plain =>
      intro p hp q hq x
      simp only [RuleRow.cellsAt, RuleRow.rows, List.mem_filterMap, List.mem_singleton,
        exists_eq_left] at hp hq
      rw [Option.some.inj (hp.symm.trans hq)]
    | group stamp first rest =>
      by_cases hi : i < first.width
      · obtain ⟨names, hnames⟩ := agree_of_ofRow h hi
        refine SameNames.of_forall (P := (· ∈ names)) fun p hp x => ?_
        obtain ⟨plain, hplain, hp⟩ := List.mem_filterMap.mp hp
        obtain ⟨cells, hcells, hres⟩ := exists_of_mem_right hrows.flip hplain
        obtain ⟨q, hq, hqnames⟩ := hnames cells hcells
        obtain ⟨hi', rfl⟩ := List.getElem?_eq_some_iff.mp hp
        obtain ⟨hi'', rfl⟩ := List.getElem?_eq_some_iff.mp hq
        have hres := (ofPhrases_eq_ok.mp hres).get hi' hi''
        exact ((lists_of_ofPhrase _ hres hqnames).2 x).symm
      · -- Beyond the width there is nothing to compare.
        intro p hp
        obtain ⟨plain, hplain, hp⟩ := List.mem_filterMap.mp hp
        obtain ⟨hi', _⟩ := List.getElem?_eq_some_iff.mp hp
        have hplain' := (hwidth plain hplain).trans (hwidth first List.mem_cons_self).symm
        exact absurd (hplain' ▸ hi') hi
    | otherwise => simp [SameNames, RuleRow.cellsAt, RuleRow.rows]

/-- What resolving a row reports is wrong with it, unless an alternation has no alternative. -/
theorem ofRow_eq_error {row : RuleRow} {f : Fault} {arity : ℕ}
    (hwidth : ∀ plain ∈ row.rows, plain.width = arity)
    (h : PatternRow.ofRow r.resolver row = .error f) :
    (f = .outOfRange ∧ row.offers = false) ∨
    ∃ cause guilty, f = .rules { cause, guilty := some guilty } ∧ row.Breaks r cause guilty := by
  have hoffers {plain : Row} (hplain : plain ∈ row.rows)
      (hnone : Phrase.allOffer plain.cells = false) : row.offers = false :=
    List.all_eq_false.mpr ⟨plain, hplain, by simp [hnone]⟩
  have hcells {plain : Row} (hplain : plain ∈ row.rows)
      (hplain' : Pattern.ofPhrases r.resolver plain.cells = .error f) :
      (f = .outOfRange ∧ row.offers = false) ∨
      ∃ cause guilty, f = .rules { cause, guilty := some guilty } ∧ row.Breaks r cause guilty := by
    refine (ofPhrases_eq_error plain.cells hplain').imp
      (fun hnone => ⟨hnone.1, hoffers hplain hnone.2⟩) ?_
    rintro ⟨cause, guilty, cell, hcell, hf, hreach, hbreaks⟩
    exact ⟨cause, guilty, hf, .cell hplain hcell hreach hbreaks⟩
  cases row with
  | row plain => exact hcells List.mem_cons_self (map_eq_error.mp h)
  | group stamp first rest =>
    rcases bind_eq_error.mp h with hrows | ⟨flat, hflat, h⟩
    · obtain ⟨before, plain, after, hsplit, -, hplain⟩ := mapM_eq_error.mp hrows
      exact hcells (show plain ∈ first :: rest by simp [hsplit]) hplain
    · have hflat := mapM_eq_ok.mp hflat
      rcases bind_eq_error.mp h with hcheck | ⟨_, _, h⟩
      · obtain ⟨⟨token, i⟩, hmem, hcheck⟩ := forM_eq_error hcheck
        rw [List.mk_mem_zipIdx_iff_getElem?] at hmem
        have hlength := length_of_ofPhrases hflat hwidth
        obtain ⟨hi, _⟩ := List.getElem?_eq_some_iff.mp hmem
        have hi : i < arity := hwidth first List.mem_cons_self ▸ hi
        obtain ⟨cells, hcolumn⟩ := exists_column fun row hrow => (hlength row hrow).symm ▸ hi
        rcases bind_eq_error.mp hcheck with hnone | ⟨cells', hcells', hagree⟩
        · cases hcolumn.symm.trans hnone
        · cases hcolumn.symm.trans hcells'
          rcases agree_eq_error_of_forall₂ (forall₂_of_column hflat hcolumn) hagree with
            ⟨hf, q, hq, hnone⟩ | ⟨names, hlists, hne, hf⟩
          · have hq' : some q ∈ flat.map (·[i]?) := by
              rw [column_eq_ok hcolumn]
              exact List.mem_map_of_mem hq
            obtain ⟨row, hrow, hrow'⟩ := List.mem_map.mp hq'
            obtain ⟨plain, hplain, hres⟩ := exists_of_mem_right hflat hrow
            exact .inl ⟨hf, hoffers hplain
              (allOffer_eq_false hres (List.mem_of_getElem? hrow') hnone)⟩
          · exact .inr ⟨_, _, hf, .column hmem hlists hne⟩
      · cases h
  | otherwise => cases h

end Rows

/-! ### What compiling rules reports -/

section Rules

variable {α : Type} {r : Registry} {name : String} {rules : List (Rule α)}

/-- The width of the first plain row, alone or in a group; without any it is zero. -/
def firstWidth : List (Rule α) → ℕ
  | [] => 0
  | ⟨.row plain, _⟩ :: _ => plain.width
  | ⟨.group _ first _, _⟩ :: _ => first.width
  | ⟨.otherwise, _⟩ :: rest => firstWidth rest

/-- All plain rows have the width of the first one. -/
def EquallyWide (rules : List (Rule α)) : Prop :=
  ∀ rule ∈ rules, ∀ plain ∈ rule.row.rows, plain.width = firstWidth rules

/-- The first plain row that has not the width of all before it, and its rule. -/
def FirstRagged (rules : List (Rule α)) (rule : Rule α) (plain : Row) : Prop :=
  ∃ before after earlier later, rules = before ++ rule :: after ∧
    rule.row.rows = earlier ++ plain :: later ∧
    (∀ rule' ∈ before, ∀ plain' ∈ rule'.row.rows, plain'.width = firstWidth rules) ∧
    (∀ plain' ∈ earlier, plain'.width = firstWidth rules) ∧ plain.width ≠ firstWidth rules

/-- The first rule that is not sound. -/
def FirstUnsound (r : Registry) (rules : List (Rule α)) (rule : Rule α) : Prop :=
  ∃ before after, rules = before ++ rule :: after ∧ (∀ rule' ∈ before, rule'.row.Sound r) ∧
    ¬ rule.row.Sound r

theorem ruleWidth_eq (h : rules ≠ []) : ruleWidth rules = .ok (firstWidth rules) := by
  have hwidth : ((rules.flatMap (·.row.rows)).head?.map Row.width).getD 0 = firstWidth rules := by
    clear h
    induction rules with
    | nil => rfl
    | cons rule rules ih =>
      obtain ⟨_ | _ | _, action⟩ := rule
      · rfl
      · rfl
      · exact ih
  cases rules with
  | nil => exact absurd rfl h
  | cons rule rules => rw [ruleWidth, hwidth]; simp

/-- The width check succeeds on rows of the width. -/
theorem requireWidth_eq_ok {arity : ℕ}
    (h : ∀ rule ∈ rules, ∀ plain ∈ rule.row.rows, plain.width = arity) :
    requireWidth (arity : Int) rules = .ok () := by
  induction rules with
  | nil => rfl
  | cons rule rules ih =>
    rw [List.forall_mem_cons] at h
    have hfind : rule.row.rows.find? (fun plain => plain.width ≠ (arity : Int)) = none := by
      rw [List.find?_eq_none]
      intro plain hplain
      simp [h.1 plain hplain]
    rw [requireWidth, hfind]
    exact ih h.2

/-- Otherwise it reports the first row of another width. -/
theorem requireWidth_eq_error {arity : ℕ}
    (h : ¬ ∀ rule ∈ rules, ∀ plain ∈ rule.row.rows, plain.width = arity) :
    ∃ before rule after earlier plain later, rules = before ++ rule :: after ∧
      rule.row.rows = earlier ++ plain :: later ∧
      (∀ rule' ∈ before, ∀ plain' ∈ rule'.row.rows, plain'.width = arity) ∧
      (∀ plain' ∈ earlier, plain'.width = arity) ∧ plain.width ≠ arity ∧
      requireWidth (arity : Int) rules = .error (.rules
        { cause := .wrongWidth plain.width arity, guilty := some (.row plain),
          row := some rule.row.phrase }) := by
  induction rules with
  | nil => simp at h
  | cons rule rules ih =>
    rw [requireWidth]
    cases hfind : rule.row.rows.find? (fun plain => plain.width ≠ (arity : Int)) with
    | none =>
      have hrule : ∀ plain ∈ rule.row.rows, plain.width = arity := by
        intro plain hplain
        exact Int.ofNat_inj.mp (by simpa using List.find?_eq_none.mp hfind plain hplain)
      have hrest : ¬ ∀ rule' ∈ rules, ∀ plain ∈ rule'.row.rows, plain.width = arity :=
        fun hrest => h (List.forall_mem_cons.mpr ⟨hrule, hrest⟩)
      obtain ⟨before, rule', after, earlier, plain, later, rfl, hrows, hbefore, hearlier, hplain,
        herror⟩ := ih hrest
      exact ⟨rule :: before, rule', after, earlier, plain, later, rfl, hrows,
        List.forall_mem_cons.mpr ⟨hrule, hbefore⟩, hearlier, hplain, herror⟩
    | some plain =>
      obtain ⟨hplain, earlier, later, hrows, hearlier⟩ := List.find?_eq_some_iff_append.mp hfind
      refine ⟨[], rule, rules, earlier, plain, later, rfl, hrows, by simp, fun plain' hplain' => ?_,
        ?_, rfl⟩
      · exact Int.ofNat_inj.mp (by simpa using hearlier plain' hplain')
      · intro hwidth
        simp [hwidth] at hplain

/-- Resolving rules fails in the first rule whose row does not resolve. -/
theorem patternRows_eq_error {resolve : Resolver} {f : Fault}
    (h : patternRows resolve name rules = .error f) :
    ∃ before rule after g, rules = before ++ rule :: after ∧
      (∀ rule' ∈ before, ∃ row, PatternRow.ofRow resolve rule'.row = .ok row) ∧
      PatternRow.ofRow resolve rule.row = .error g ∧
      located (some name) (some rule.row.phrase) (.error g : Except Fault PatternRow) =
        .error f := by
  induction rules with
  | nil => cases h
  | cons rule rules ih =>
    rw [patternRows] at h
    rcases bind_eq_error.mp h with h | ⟨row, hrow, h⟩
    · cases hres : PatternRow.ofRow resolve rule.row with
      | ok row =>
        rw [hres] at h
        cases h
      | error g =>
        rw [hres] at h
        exact ⟨[], rule, rules, g, rfl, by simp, hres, h⟩
    · rcases bind_eq_error.mp h with h | ⟨_, _, h⟩
      · obtain ⟨before, rule', after, g, rfl, hbefore, hres, hg⟩ := ih h
        have hrule : ∃ row, PatternRow.ofRow resolve rule.row = .ok row :=
          ⟨row, located_eq_ok.mp hrow⟩
        exact ⟨rule :: before, rule', after, g, rfl, List.forall_mem_cons.mpr ⟨hrule, hbefore⟩,
          hres, hg⟩
      · cases h

/-- Rows of the width have a demand. -/
theorem exists_columnDemand {flat : List (List Pattern)} {arity : ℕ}
    (h : ∀ cells ∈ flat, cells.length = arity) : ∃ need, columnDemand flat arity = .ok need := by
  cases hneed : columnDemand flat arity with
  | ok need => exact ⟨need, rfl⟩
  | error f =>
    obtain ⟨before, i, after, hsplit, -, hcolumn⟩ := mapM_eq_error.mp (map_eq_error.mp hneed)
    have hi : i ∈ List.range arity := by simp [hsplit]
    obtain ⟨cells, hcells⟩ := exists_column fun row hrow =>
      (h row hrow).symm ▸ List.mem_range.mp hi
    cases hcells.symm.trans hcolumn

/-- Without rules there is nothing to compile. -/
theorem ofRules_nil :
    Compiled.ofRules r.resolver name ([] : List (Rule α)) =
      .error (.rules { cause := .noRules, function := some name }) := rfl

/-- Rules whose rows differ in width are refused for the first row that does. -/
theorem ofRules_of_ragged (r : Registry) (name : String) (hne : rules ≠ [])
    (h : ¬ EquallyWide rules) :
    ∃ rule plain, FirstRagged rules rule plain ∧
      Compiled.ofRules r.resolver name rules = .error (.rules
        { cause := .wrongWidth plain.width (firstWidth rules), guilty := some (.row plain),
          function := some name, row := some rule.row.phrase }) := by
  obtain ⟨before, rule, after, earlier, plain, later, hrules, hrows, hbefore, hearlier, hplain,
    herror⟩ := requireWidth_eq_error h
  refine ⟨rule, plain, ⟨before, after, earlier, later, hrules, hrows, hbefore, hearlier, hplain⟩,
    ?_⟩
  rw [Compiled.ofRules, patternsAndDemand, ruleWidth_eq hne]
  simp only [bind, Except.bind, herror]
  rfl

/-- What resolving rules of one width reports is wrong with the first one that is not sound, unless
an alternation has no alternative. -/
theorem patternRows_breaks (hwide : EquallyWide rules) {f : Fault}
    (h : patternRows r.resolver name rules = .error f) :
    (f = .outOfRange ∧ ∃ rule ∈ rules, rule.row.offers = false) ∨
    ∃ rule cause guilty, FirstUnsound r rules rule ∧ rule.row.Breaks r cause guilty ∧
      f = .rules
        { cause, guilty := some guilty, function := some name, row := some rule.row.phrase } := by
  obtain ⟨before, rule, after, g, hrules, hbefore, hres, hg⟩ := patternRows_eq_error h
  have hmem : ∀ rule' ∈ rule :: before, rule' ∈ rules := by
    intro rule' hrule'
    rw [hrules, List.mem_append, List.mem_cons]
    rcases List.mem_cons.mp hrule' with rfl | hrule'
    · exact .inr (.inl rfl)
    · exact .inl hrule'
  have hrule := hmem rule List.mem_cons_self
  rcases ofRow_eq_error (hwide rule hrule) hres with ⟨rfl, hnone⟩ | ⟨cause, guilty, rfl, hbreaks⟩
  · cases hg
    exact .inl ⟨rfl, rule, hrule, hnone⟩
  · cases hg
    refine .inr ⟨rule, cause, guilty, ⟨before, after, hrules, fun rule' hrule' => ?_,
      hbreaks.not_sound⟩, hbreaks, rfl⟩
    obtain ⟨row, hrow⟩ := hbefore rule' hrule'
    exact sound_of_ofRow hrow (hwide rule' (hmem rule' (List.mem_cons_of_mem _ hrule')))

/-- Rules of one width are refused for what resolving them reports. -/
theorem ofRules_of_patternRows_error (hne : rules ≠ []) (hwide : EquallyWide rules) {f : Fault}
    (hrows : patternRows r.resolver name rules = .error f) :
    Compiled.ofRules r.resolver name rules = located (some name) none (.error f) := by
  rw [Compiled.ofRules, patternsAndDemand, ruleWidth_eq hne]
  simp only [bind, Except.bind, requireWidth_eq_ok hwide, hrows]
  cases f <;> rfl

/-- Rules of one width of which some are not sound are refused for the first one that is not. -/
theorem ofRules_of_unsound (name : String)
    (hoffers : ∀ rule ∈ rules, rule.row.offers = true) (hne : rules ≠ [])
    (hwide : EquallyWide rules) (h : ¬ ∀ rule ∈ rules, rule.row.Sound r) :
    ∃ rule cause guilty, FirstUnsound r rules rule ∧ rule.row.Breaks r cause guilty ∧
      Compiled.ofRules r.resolver name rules = .error (.rules
        { cause, guilty := some guilty, function := some name, row := some rule.row.phrase }) := by
  cases hrows : patternRows r.resolver name rules with
  | ok rows =>
    refine absurd (fun rule hrule => ?_) h
    obtain ⟨row, _, hrow⟩ := exists_of_mem_right (patternRows_eq_ok.mp hrows).flip hrule
    exact sound_of_ofRow hrow (hwide rule hrule)
  | error f =>
    rcases patternRows_breaks hwide hrows with
      ⟨-, rule, hrule, hnone⟩ | ⟨rule, cause, guilty, hfirst, hbreaks, rfl⟩
    · cases (hoffers rule hrule).symm.trans hnone
    · exact ⟨rule, cause, guilty, hfirst, hbreaks, ofRules_of_patternRows_error hne hwide hrows⟩

/-- Rules of one width compile when their rows resolve. -/
theorem ofRules_of_patternRows (hne : rules ≠ []) (hwide : EquallyWide rules)
    {rows : List PatternRow} (hrows : patternRows r.resolver name rules = .ok rows) :
    ∃ c, Compiled.ofRules r.resolver name rules = .ok c := by
  have hlength : ∀ cells ∈ plainRows rows, cells.length = firstWidth rules := by
    intro cells hcells
    obtain ⟨row, hrow, hcells⟩ := List.mem_flatMap.mp hcells
    obtain ⟨rule, hrule, hres⟩ := exists_of_mem_right (patternRows_eq_ok.mp hrows) hrow
    exact length_of_ofPhrases (rows_of_ofRow hres) (hwide rule hrule) cells hcells
  obtain ⟨need, hneed⟩ := exists_columnDemand hlength
  rw [Compiled.ofRules, patternsAndDemand, ruleWidth_eq hne]
  simp only [bind, Except.bind, requireWidth_eq_ok hwide, hrows, hneed, located, pure,
    Except.pure, Plan.ofDemand_standardNames]
  exact ⟨_, rfl⟩

/-- Sound rules of one width compile. -/
theorem ofRules_of_sound (name : String)
    (hoffers : ∀ rule ∈ rules, rule.row.offers = true) (hne : rules ≠ [])
    (hwide : EquallyWide rules) (h : ∀ rule ∈ rules, rule.row.Sound r) :
    ∃ c, Compiled.ofRules r.resolver name rules = .ok c := by
  cases hrows : patternRows r.resolver name rules with
  | error f =>
    rcases patternRows_breaks hwide hrows with
      ⟨-, rule, hrule, hnone⟩ | ⟨rule, _, _, ⟨before, after, hrules, _, hunsound⟩, _, _⟩
    · cases (hoffers rule hrule).symm.trans hnone
    · exact absurd (h rule (hrules ▸ by simp)) hunsound
  | ok rows => exact ofRules_of_patternRows hne hwide hrows

/-- **Which rules are refused.** Where every alternation has an alternative, rules compile exactly
when there are any, all their plain rows have the width of the first one, every structured form that
is reached in them has a head that names a factory, or a constant and there are no fields, and the
alternatives that are reached, and the rows of each group position by position, bind the same names.
Otherwise compiling reports a fault of rules and knows the function. Without rules it says so; when
the widths differ it blames the first row that does, whatever else is wrong before it; and in all
other cases it blames the first rule that is not sound, for an unknown head or for different names
in it. -/
theorem refusal_exact (r : Registry) (name : String)
    (hoffers : ∀ rule ∈ rules, rule.row.offers = true) :
    ((∃ c, Compiled.ofRules r.resolver name rules = .ok c) ↔
      rules ≠ [] ∧ EquallyWide rules ∧ ∀ rule ∈ rules, rule.row.Sound r) ∧
    (∀ f, Compiled.ofRules r.resolver name rules = .error f →
      ∃ e, f = .rules e ∧ e.function = some name) ∧
    (rules = [] → Compiled.ofRules r.resolver name rules =
      .error (.rules { cause := .noRules, function := some name })) ∧
    (rules ≠ [] → ¬ EquallyWide rules → ∃ rule plain, FirstRagged rules rule plain ∧
      Compiled.ofRules r.resolver name rules = .error (.rules
        { cause := .wrongWidth plain.width (firstWidth rules), guilty := some (.row plain),
          function := some name, row := some rule.row.phrase })) ∧
    (rules ≠ [] → EquallyWide rules → (¬ ∀ rule ∈ rules, rule.row.Sound r) →
      ∃ rule cause guilty, FirstUnsound r rules rule ∧ rule.row.Breaks r cause guilty ∧
        Compiled.ofRules r.resolver name rules = .error (.rules
          { cause, guilty := some guilty, function := some name,
            row := some rule.row.phrase })) := by
  by_cases hne : rules = []
  · subst hne
    simp [ofRules_nil]
  by_cases hwide : EquallyWide rules
  · by_cases hsound : ∀ rule ∈ rules, rule.row.Sound r
    · obtain ⟨c, hc⟩ := ofRules_of_sound name hoffers hne hwide hsound
      refine ⟨⟨fun _ => ⟨hne, hwide, hsound⟩, fun _ => ⟨c, hc⟩⟩, ?_, ?_, ?_, ?_⟩
      · simp [hc]
      · exact fun h => absurd h hne
      · exact fun _ h => absurd hwide h
      · exact fun _ _ h => absurd hsound h
    · obtain ⟨rule, cause, guilty, hfirst, hbreaks, hc⟩ :=
        ofRules_of_unsound name hoffers hne hwide hsound
      refine ⟨?_, ?_, fun h => absurd h hne, fun _ h => absurd hwide h,
        fun _ _ _ => ⟨rule, cause, guilty, hfirst, hbreaks, hc⟩⟩
      · simp [hc, hsound]
      · simp [hc]
  · obtain ⟨rule, plain, hfirst, hc⟩ := ofRules_of_ragged r name hne hwide
    refine ⟨?_, ?_, fun h => absurd h hne, fun _ _ => ⟨rule, plain, hfirst, hc⟩,
      fun _ h => absurd h hwide⟩
    · simp [hc, hwide]
    · simp [hc]

end Rules

/-- An unknown head in the first rule, and a row of another width in the group after it. -/
def raggedRules : List (Rule Value) :=
  [⟨.row (.mk 1 [.compound 2 ⟨102, "Missing"⟩ []]), .null⟩,
    ⟨.group 3 (.mk 4 [.name 5 "x"]) [.mk 6 [.name 7 "x", .name 8 "y"]], .null⟩]

/-- Alternatives that bind different names, between two rules that are sound. -/
def clashingRules : List (Rule Value) :=
  [⟨.row (.mk 1 [.compound 2 ⟨102, "Cons"⟩ [.name 3 "x", .name 4 "_"]]), .null⟩,
    ⟨.row (.mk 5 [.named 6 (.either 7 [.name 8 "x", .name 9 "y"]) ⟨106, "z"⟩]), .null⟩,
    ⟨.otherwise, .null⟩]

/-- The width is reported before the unknown head, and the alternatives where they stand. -/
theorem refusal_exact_streams :
    (∃ rule plain, FirstRagged raggedRules rule plain ∧
      Compiled.ofRules streams.resolver "f" raggedRules = .error (.rules
        { cause := .wrongWidth plain.width 1, guilty := some (.row plain), function := some "f",
          row := some rule.row.phrase })) ∧
    ∃ rule cause guilty, FirstUnsound streams clashingRules rule ∧
      rule.row.Breaks streams cause guilty ∧
      Compiled.ofRules streams.resolver "f" clashingRules = .error (.rules
        { cause, guilty := some guilty, function := some "f", row := some rule.row.phrase }) := by
  have hragged : ¬ EquallyWide raggedRules := by
    simp [EquallyWide, raggedRules, firstWidth, RuleRow.rows, Row.width, Row.cells]
  have hwide : EquallyWide clashingRules := by
    simp [EquallyWide, clashingRules, firstWidth, RuleRow.rows, Row.width, Row.cells]
  have hoffers : ∀ rule ∈ raggedRules, rule.row.offers = true := by decide
  have hoffers' : ∀ rule ∈ clashingRules, rule.row.offers = true := by decide
  obtain ⟨_, _, _, hfirst, _⟩ := refusal_exact streams "f" hoffers
  obtain ⟨hiff, _, _, _, hfirst'⟩ := refusal_exact streams "f" hoffers'
  refine ⟨hfirst (by simp [raggedRules]) hragged,
    hfirst' (by simp [clashingRules]) hwide fun hsound => ?_⟩
  obtain ⟨c, hc⟩ := hiff.mpr ⟨by simp [clashingRules], hwide, hsound⟩
  cases hc

end LazyMatch
