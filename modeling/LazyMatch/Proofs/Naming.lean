import LazyMatch.Proofs.Reading
import LazyMatch.Proofs.Selection

/-!
# The names that a rule binds

The names of a pattern are known before anything is matched: an alternation goes by its first
alternative, since all of them have been checked to bind the same names, and a structured form by
all of its sub-patterns. Matching walks through one alternative at a time and writes bindings as it
goes. Whatever it comes through, a match has written exactly the names that were known.

* `Pattern.Checked`, `Pattern.Fits`: what resolving has checked, and what the names of a structured
  form rely on;
* `adds_of_matches`: the names that one pattern writes, `goBy_of_matches` those of a row;
* `outcome_enter_wanted`: when an action that is handed what it wants lacks an argument.
-/

namespace LazyMatch

/-! ### What the names of a pattern rely on -/

mutual

/-- Whether the alternatives of each alternation in a pattern bind the same names, and no wildcard
goes through verbatim. -/
def Pattern.Checked : Pattern → Prop
  | .factory _ _ fields => Pattern.AllChecked fields
  | .named _ inner _ => inner.Checked
  | .either _ alternatives =>
    (∃ names, ∀ p ∈ alternatives, p.names? = some names) ∧ Pattern.AllChecked alternatives
  | .verbatim (.name _ text) => text ≠ "_"
  | _ => True

/-- Whether this holds of several patterns. -/
def Pattern.AllChecked : List Pattern → Prop
  | [] => True
  | p :: rest => p.Checked ∧ Pattern.AllChecked rest

end

mutual

/-- Whether each structured form in a pattern has distinct fields and no more parts than fields. -/
def Pattern.Fits : Pattern → Prop
  | .factory _ c fields =>
    c.fields.Nodup ∧ fields.length ≤ c.fields.length ∧ Pattern.AllFit fields
  | .named _ inner _ => inner.Fits
  | .either _ alternatives => Pattern.AllFit alternatives
  | _ => True

/-- Whether this holds of several patterns. -/
def Pattern.AllFit : List Pattern → Prop
  | [] => True
  | p :: rest => p.Fits ∧ Pattern.AllFit rest

end

/-- The check of alternatives succeeds when all of them have the same names. -/
theorem agree_eq_ok {token : Phrase} {ps : List Pattern} (h : agree token ps = .ok ()) :
    ∃ names, ∀ p ∈ ps, p.names? = some names := by
  unfold agree at h
  split at h
  · cases h
  · rename_i names hnames
    split at h
    · rename_i hall
      refine ⟨names.head?.getD [], fun p hp => ?_⟩
      obtain ⟨n, hn, hpn⟩ := exists_of_mem_right (mapM_eq_some.mp hnames).flip hp
      have hhead := List.all_eq_true.mp hall n hn
      rw [hpn, of_decide_eq_true hhead, Option.getD_some]
    · cases h

section Resolved

variable {r : Registry}

theorem agree_of_ofPhrase {stamp : ℕ} {alternatives : List Phrase} {q : Pattern}
    (h : Pattern.ofPhrase r.resolver (.either stamp alternatives) = .ok q) :
    ∃ qs names, Pattern.ofPhrases r.resolver alternatives = .ok qs ∧
      (∀ p ∈ qs, p.names? = some names) ∧ q = .either (.either stamp alternatives) qs := by
  unfold Pattern.ofPhrase at h
  obtain ⟨qs, hqs, h⟩ := bind_eq_ok.mp h
  obtain ⟨_, hagree, h⟩ := bind_eq_ok.mp h
  cases h
  obtain ⟨names, hnames⟩ := agree_eq_ok hagree
  exact ⟨qs, names, hqs, hnames, rfl⟩

mutual

/-- Resolving makes these checks. -/
theorem checked_of_ofPhrase :
    ∀ (p : Phrase) {q : Pattern}, Pattern.ofPhrase r.resolver p = .ok q → q.Checked
  | .name stamp text, q, h => by
    rcases ofPhrase_name h with ⟨_, rfl⟩ | ⟨ht, _, rfl⟩ | ⟨c, _, _, _, rfl⟩ | ⟨c, _, _, _, rfl⟩
    · trivial
    · exact ht
    · trivial
    · trivial
  | .compound stamp head fields, q, h => by
    obtain ⟨c, _, ⟨_, _, rfl⟩ | ⟨_, qs, hqs, rfl⟩⟩ := ofPhrase_compound h
    · trivial
    · exact allChecked_of_ofPhrases fields hqs
  | .named stamp inner text, q, h => by
    obtain ⟨q', hq', rfl⟩ := map_eq_ok.mp h
    rw [Pattern.Checked]
    exact checked_of_ofPhrase inner hq'
  | .either stamp alternatives, q, h => by
    obtain ⟨qs, names, hqs, hnames, rfl⟩ := agree_of_ofPhrase h
    exact ⟨⟨names, hnames⟩, allChecked_of_ofPhrases alternatives hqs⟩
  | .literal _ _, q, h | .defer _ _, q, h | .row _, q, h | .group _ _ _, q, h
  | .otherwise, q, h => by
    cases h
    trivial

theorem allChecked_of_ofPhrases :
    ∀ (ps : List Phrase) {qs : List Pattern}, Pattern.ofPhrases r.resolver ps = .ok qs →
      Pattern.AllChecked qs
  | [], qs, h => by
    cases h
    trivial
  | p :: rest, qs, h => by
    obtain ⟨q, hq, h⟩ := bind_eq_ok.mp h
    obtain ⟨qs', hqs, h⟩ := bind_eq_ok.mp h
    cases h
    exact ⟨checked_of_ofPhrase p hq, allChecked_of_ofPhrases rest hqs⟩

end

mutual

theorem fits_of_ofPhrase (hr : r.DistinctFields) :
    ∀ (p : Phrase) {q : Pattern}, Pattern.ofPhrase r.resolver p = .ok q → p.fits r = true → q.Fits
  | .name stamp text, q, h, _ => by
    rcases ofPhrase_name h with ⟨_, rfl⟩ | ⟨_, _, rfl⟩ | ⟨c, _, _, _, rfl⟩ | ⟨c, _, hc, _, rfl⟩
    · trivial
    · trivial
    · trivial
    · exact ⟨hr text c hc, Nat.zero_le _, trivial⟩
  | .compound stamp head fields, q, h, hfit => by
    obtain ⟨c, hc, ⟨_, _, rfl⟩ | ⟨_, qs, hqs, rfl⟩⟩ := ofPhrase_compound h
    · trivial
    · simp only [Phrase.fits, hc, Option.all_some, Bool.and_eq_true, decide_eq_true_eq] at hfit
      refine ⟨hr head c hc, ?_, allFit_of_ofPhrases hr fields hqs hfit.2⟩
      rw [← (ofPhrases_eq_ok.mp hqs).length_eq]
      exact hfit.1
  | .named stamp inner text, q, h, hfit => by
    obtain ⟨q', hq', rfl⟩ := map_eq_ok.mp h
    rw [Pattern.Fits]
    exact fits_of_ofPhrase hr inner hq' hfit
  | .either stamp alternatives, q, h, hfit => by
    obtain ⟨qs, hqs, rfl⟩ := ofPhrase_either h
    exact allFit_of_ofPhrases hr alternatives hqs hfit
  | .literal _ _, q, h, _ | .defer _ _, q, h, _ | .row _, q, h, _ | .group _ _ _, q, h, _
  | .otherwise, q, h, _ => by
    cases h
    trivial

theorem allFit_of_ofPhrases (hr : r.DistinctFields) :
    ∀ (ps : List Phrase) {qs : List Pattern}, Pattern.ofPhrases r.resolver ps = .ok qs →
      Phrase.fitAll r ps = true → Pattern.AllFit qs
  | [], qs, h, _ => by
    cases h
    trivial
  | p :: rest, qs, h, hfit => by
    obtain ⟨q, hq, h⟩ := bind_eq_ok.mp h
    obtain ⟨qs', hqs, h⟩ := bind_eq_ok.mp h
    cases h
    simp only [Phrase.fitAll, Bool.and_eq_true] at hfit
    exact ⟨fits_of_ofPhrase hr p hq hfit.1, allFit_of_ofPhrases hr rest hqs hfit.2⟩

end

end Resolved

/-! ### Patterns that have names -/

mutual

/-- Whether every alternation in a phrase has an alternative. -/
def Phrase.offers : Phrase → Bool
  | .compound _ _ fields => Phrase.allOffer fields
  | .named _ inner _ => inner.offers
  | .either _ alternatives => !alternatives.isEmpty && Phrase.allOffer alternatives
  | _ => true

/-- Whether this holds of several phrases. -/
def Phrase.allOffer : List Phrase → Bool
  | [] => true
  | p :: rest => p.offers && Phrase.allOffer rest

end

theorem Pattern.namesAll?_cons {p : Pattern} {rest : List Pattern} {a b : Names}
    (ha : p.names? = some a) (hb : Pattern.namesAll? rest = some b) :
    Pattern.namesAll? (p :: rest) = some (a.union b) := by
  rw [Pattern.namesAll?, ha, hb]

mutual

/-- Where every alternation has an alternative, the names of a pattern are known. -/
theorem names?_of_ofPhrase {r : Registry} :
    ∀ (p : Phrase) {q : Pattern}, Pattern.ofPhrase r.resolver p = .ok q → p.offers = true →
      ∃ names, q.names? = some names
  | .name stamp text, q, h, _ => by
    rcases ofPhrase_name h with ⟨_, rfl⟩ | ⟨_, _, rfl⟩ | ⟨c, _, _, _, rfl⟩ | ⟨c, _, _, _, rfl⟩ <;>
      exact ⟨_, rfl⟩
  | .compound stamp head fields, q, h, hoffers => by
    obtain ⟨c, _, ⟨_, _, rfl⟩ | ⟨_, qs, hqs, rfl⟩⟩ := ofPhrase_compound h
    · exact ⟨_, rfl⟩
    · exact namesAll?_of_ofPhrases fields hqs hoffers
  | .named stamp inner text, q, h, hoffers => by
    obtain ⟨q', hq', rfl⟩ := map_eq_ok.mp h
    obtain ⟨names, hnames⟩ := names?_of_ofPhrase inner hq' hoffers
    exact ⟨names.insert text, by rw [Pattern.names?, hnames]; rfl⟩
  | .either stamp (first :: rest), q, h, _ => by
    obtain ⟨qs, names, hqs, hnames, rfl⟩ := agree_of_ofPhrase h
    obtain ⟨q, hq, hqs⟩ := bind_eq_ok.mp hqs
    obtain ⟨qs', _, hqs⟩ := bind_eq_ok.mp hqs
    cases hqs
    exact ⟨names, by rw [Pattern.names?]; exact hnames q List.mem_cons_self⟩
  | .either stamp [], q, h, hoffers => by cases hoffers
  | .defer _ content, q, h, _ => by
    cases h
    exact ⟨_, rfl⟩
  | .literal _ _, q, h, _ | .row _, q, h, _ | .group _ _ _, q, h, _ | .otherwise, q, h, _ => by
    cases h
    exact ⟨[], rfl⟩

theorem namesAll?_of_ofPhrases {r : Registry} :
    ∀ (ps : List Phrase) {qs : List Pattern}, Pattern.ofPhrases r.resolver ps = .ok qs →
      Phrase.allOffer ps = true → ∃ names, Pattern.namesAll? qs = some names
  | [], qs, h, _ => by
    cases h
    exact ⟨[], rfl⟩
  | p :: rest, qs, h, hoffers => by
    obtain ⟨q, hq, h⟩ := bind_eq_ok.mp h
    obtain ⟨qs', hqs, h⟩ := bind_eq_ok.mp h
    cases h
    simp only [Phrase.allOffer, Bool.and_eq_true] at hoffers
    obtain ⟨a, ha⟩ := names?_of_ofPhrase p hq hoffers.1
    obtain ⟨b, hb⟩ := namesAll?_of_ofPhrases rest hqs hoffers.2
    exact ⟨a.union b, Pattern.namesAll?_cons ha hb⟩

end

/-! ### What a match adds -/

/-- Bindings go by exactly these names, each once. -/
def Bindings.GoBy (b : Bindings) (names : Names) : Prop :=
  (Table.names b).Nodup ∧ ∀ name, name ∈ Table.names b ↔ name ∈ names

/-- Bindings are those from before and further ones under exactly these names. -/
def Adds (names : Names) (b b' : Bindings) : Prop :=
  ((Table.names b).Nodup → (Table.names b').Nodup) ∧
    ∀ name, name ∈ Table.names b' ↔ name ∈ Table.names b ∨ name ∈ names

theorem Adds.refl (b : Bindings) : Adds [] b b := ⟨id, by simp⟩

theorem Adds.put {names : Names} {b b' : Bindings} (h : Adds names b b') (name : String)
    (v : Value) : Adds (names.insert name) b (b'.put name v) := by
  refine ⟨fun hb => Table.nodup_put (h.1 hb) name v, fun other => ?_⟩
  rw [Table.mem_names_put, h.2, Names.mem_insert]
  exact or_left_comm

theorem Adds.trans {m n : Names} {b₀ b₁ b₂ : Bindings} (h₁ : Adds m b₀ b₁) (h₂ : Adds n b₁ b₂) :
    Adds (m.union n) b₀ b₂ := by
  refine ⟨h₂.1 ∘ h₁.1, fun name => ?_⟩
  rw [h₂.2, h₁.2, Names.mem_union, or_assoc]

theorem Adds.goBy {names : Names} {b : Bindings} (h : Adds names [] b) : b.GoBy names :=
  ⟨h.1 List.nodup_nil, fun name => by simpa [Table.names] using h.2 name⟩

section Matching

variable {force : Value → Run Value}

theorem adds_of_ofValue {content v : Value} {b b' : Bindings} {s s' : Store}
    (h : outcome ((Test.ofValue content).matches force v b) s = (.ok (some b'), s')) :
    Adds (Pattern.contentNames content) b b' := by
  have hliteral {w : Value}
      (hw : outcome ((Test.equal w).matches force v b) s = (.ok (some b'), s')) : Adds [] b b' := by
    rw [Test.matches, outcome_get_bind] at hw
    split at hw <;> cases hw
    exact Adds.refl b
  unfold Test.ofValue at h
  unfold Pattern.contentNames
  split at h
  · split at h
    · rename_i ht
      rw [Test.matches] at h
      cases h
      simpa [ht] using Adds.refl b
    · rename_i ht
      rw [Test.matches] at h
      cases h
      simpa [ht, Names.insert] using (Adds.refl b).put _ v
  · exact hliteral h
  · rename_i hname hliteral'
    split
    · rename_i stamp text
      exact absurd rfl (hname stamp text)
    · exact hliteral h

mutual

/-- A match adds the names of the pattern. -/
theorem adds_of_matches :
    ∀ (p : Pattern) {v : Value} {b b' : Bindings} {s s' : Store}, p.Checked → p.Fits →
      outcome (p.test.matches force v b) s = (.ok (some b'), s') →
      ∃ names, p.names? = some names ∧ Adds names b b'
  | .wildcard _, v, b, b', s, s', _, _, h => by
    rw [Pattern.test, Test.matches] at h
    cases h
    exact ⟨[], rfl, .refl b⟩
  | .constant _ c, v, b, b', s, s', _, _, h => by
    rw [Pattern.test, Test.matches, outcome_get_bind, outcome_pure] at h
    split at h <;> cases h
    exact ⟨[], rfl, .refl b⟩
  | .factory _ c fields, v, b, b', s, s', hchecked, hfits, h => by
    obtain ⟨hnodup, hlength, hfits⟩ := hfits
    rw [Pattern.test, Pattern.testFields_of_nodup hnodup, Test.matches, outcome_get_bind] at h
    split at h
    · exact adds_of_matchFields fields hchecked hfits hlength h
    · cases h
  | .deferred _ content, v, b, b', s, s', _, _, h => by
    rw [Pattern.test] at h
    exact ⟨_, rfl, adds_of_ofValue h⟩
  | .named _ inner name, v, b, b', s, s', hchecked, hfits, h => by
    rw [Pattern.test, Test.matches] at h
    obtain ⟨o, s₁, ho, h⟩ := outcome_bind_eq_ok h
    cases o with
    | none => cases h
    | some b₁ =>
      cases h
      obtain ⟨names, hnames, hadds⟩ := adds_of_matches inner hchecked hfits ho
      exact ⟨names.insert name, by rw [Pattern.names?, hnames]; rfl, hadds.put name v⟩
  | .either _ [], v, b, b', s, s', _, _, h => by
    rw [Pattern.test, Pattern.tests, Test.matches, Test.matchFirst] at h
    cases h
  | .either _ (first :: rest), v, b, b', s, s', hchecked, hfits, h => by
    obtain ⟨⟨names, hnames⟩, hchecked⟩ := hchecked
    rw [Pattern.test, Test.matches] at h
    exact ⟨names, by rw [Pattern.names?, hnames first List.mem_cons_self],
      adds_of_matchFirst (first :: rest) hchecked hfits hnames h⟩
  | .verbatim token, v, b, b', s, s', hchecked, _, h => by
    rw [Pattern.test] at h
    refine ⟨_, ?_, adds_of_ofValue h⟩
    cases token with
    | name stamp text => simp [Pattern.names?, Pattern.contentNames, show text ≠ "_" from hchecked]
    | _ => rfl

/-- A match of fields adds the names of all sub-patterns; the wildcards left out have none. -/
theorem adds_of_matchFields :
    ∀ (ps : List Pattern) {fields : List String} {r : RecordRef} {b b' : Bindings} {s s' : Store},
      Pattern.AllChecked ps → Pattern.AllFit ps → ps.length ≤ fields.length →
      outcome (Test.matchFields force ((subPatterns fields ps).map fun e => (e.1, e.2.nested)) r b)
        s
        = (.ok (some b'), s') →
      ∃ names, Pattern.namesAll? ps = some names ∧ Adds names b b'
  | [], fields, r, b, b', s, s', _, _, _, h => by
    rw [subPatterns_nil_right, List.map_nil, Test.matchFields] at h
    cases h
    exact ⟨[], rfl, .refl b⟩
  | p :: rest, [], r, b, b', s, s', _, _, hlength, _ => by simp at hlength
  | p :: rest, field :: fields, r, b, b', s, s', hchecked, hfits, hlength, h => by
    have hlength' : rest.length ≤ fields.length := by simpa using hlength
    rw [subPatterns_cons] at h
    cases hw : p.isWildcard with
    | true =>
      rw [hw, if_pos rfl, List.nil_append] at h
      obtain ⟨names, hnames, hadds⟩ := adds_of_matchFields rest hchecked.2 hfits.2 hlength' h
      refine ⟨names, ?_, hadds⟩
      cases p with
      | wildcard token => exact Pattern.namesAll?_cons (a := []) rfl hnames
      | _ => cases hw
    | false =>
      rw [hw, if_neg (by simp), List.singleton_append, List.map_cons, Test.matchFields,
        outcome_get_bind] at h
      cases hfield : s.field? r field with
      | none =>
        rw [hfield] at h
        cases h
      | some v =>
        rw [hfield] at h
        obtain ⟨o, s₁, ho, h⟩ := outcome_bind_eq_ok h
        cases o with
        | none => cases h
        | some b₁ =>
          -- Forcing in place changes the value that is matched, not what the match adds.
          have hmatch : ∃ w s₀, outcome (p.test.matches force w b) s₀ = (.ok (some b₁), s₁) := by
            cases hd : p.demands with
            | true =>
              rw [Pattern.nested_of_demands hd, Test.matches] at ho
              obtain ⟨w, s₀, _, ho⟩ := outcome_bind_eq_ok ho
              exact ⟨w, s₀, ho⟩
            | false =>
              rw [Pattern.nested_of_not_demands hd] at ho
              exact ⟨v, s, ho⟩
          obtain ⟨w, s₀, hmatch⟩ := hmatch
          obtain ⟨m, hm, hadds⟩ := adds_of_matches p hchecked.1 hfits.1 hmatch
          obtain ⟨n, hn, hadds'⟩ := adds_of_matchFields rest hchecked.2 hfits.2 hlength' h
          exact ⟨m.union n, Pattern.namesAll?_cons hm hn, hadds.trans hadds'⟩

/-- The first alternative that matches adds the names that all of them have. -/
theorem adds_of_matchFirst :
    ∀ (ps : List Pattern) {names : Names} {v : Value} {b b' : Bindings} {s s' : Store},
      Pattern.AllChecked ps → Pattern.AllFit ps → (∀ p ∈ ps, p.names? = some names) →
      outcome (Test.matchFirst force (Pattern.tests ps) v b) s = (.ok (some b'), s') →
      Adds names b b'
  | [], names, v, b, b', s, s', _, _, _, h => by
    rw [Pattern.tests, Test.matchFirst] at h
    cases h
  | p :: rest, names, v, b, b', s, s', hchecked, hfits, hnames, h => by
    rw [Pattern.tests, Test.matchFirst] at h
    obtain ⟨o, s₁, ho, h⟩ := outcome_bind_eq_ok h
    cases o with
    | none =>
      exact adds_of_matchFirst rest hchecked.2 hfits.2
        (fun q hq => hnames q (List.mem_cons_of_mem _ hq)) h
    | some b₁ =>
      cases h
      obtain ⟨m, hm, hadds⟩ := adds_of_matches p hchecked.1 hfits.1 ho
      rw [hnames p List.mem_cons_self] at hm
      cases hm
      exact hadds

end

/-- A match of a whole row adds the names of all its cells. -/
theorem adds_of_matchVector {cells : List Pattern} (hchecked : Pattern.AllChecked cells)
    (hfits : Pattern.AllFit cells) {values : List Value} (hlength : values.length = cells.length)
    {b b' : Bindings} {s s' : Store}
    (h : outcome (matchVector force (cells.map Pattern.test) values b) s = (.ok (some b'), s')) :
    ∃ names, Pattern.namesAll? cells = some names ∧ Adds names b b' := by
  induction cells generalizing values b s with
  | nil =>
    rw [List.map_nil, matchVector] at h
    · cases h
      exact ⟨[], rfl, .refl _⟩
    · simp
  | cons p cells ih =>
    obtain _ | ⟨v, values⟩ := values
    · cases hlength
    rw [List.map_cons, matchVector] at h
    obtain ⟨o, s₁, ho, h⟩ := outcome_bind_eq_ok h
    cases o with
    | none => cases h
    | some b₁ =>
      obtain ⟨m, hm, hadds⟩ := adds_of_matches p hchecked.1 hfits.1 ho
      obtain ⟨n, hn, hadds'⟩ := ih hchecked.2 hfits.2 (by simpa using hlength) h
      exact ⟨m.union n, Pattern.namesAll?_cons hm hn, hadds.trans hadds'⟩

/-- A group that matches does so by one of its rows. -/
theorem exists_of_matchGroup {values : List Value} {alternatives : List (List Test)} {b : Bindings}
    {s s' : Store}
    (h : outcome (matchGroup force values alternatives) s = (.ok (some b), s')) :
    ∃ tests ∈ alternatives, ∃ s₀,
      outcome (matchVector force tests values []) s₀ = (.ok (some b), s') := by
  induction alternatives generalizing s with
  | nil => cases h
  | cons tests rest ih =>
    rw [matchGroup] at h
    obtain ⟨o, s₁, ho, h⟩ := outcome_bind_eq_ok h
    cases o with
    | none =>
      obtain ⟨tests', hmem, s₀, hmatch⟩ := ih h
      exact ⟨tests', List.mem_cons_of_mem _ hmem, s₀, hmatch⟩
    | some b₁ =>
      cases h
      exact ⟨tests, List.mem_cons_self, s, ho⟩

end Matching

/-! ### The names of a row -/

/-- The names that a row binds: those of its cells, for a group those of its first row, and none for
the fallback. -/
def PatternRow.names? : PatternRow → Option Names
  | .row cells => Pattern.namesAll? cells
  | .group [] => none
  | .group (first :: _) => Pattern.namesAll? first
  | .otherwise => some []

/-- Whether every alternation in the cells of a row has an alternative. -/
def RuleRow.offers (row : RuleRow) : Bool := row.rows.all fun plain => Phrase.allOffer plain.cells

/-- The names of several patterns are made of the names of each. -/
theorem Pattern.namesAll?_congr {ps qs : List Pattern}
    (h : ps.map Pattern.names? = qs.map Pattern.names?) :
    Pattern.namesAll? ps = Pattern.namesAll? qs := by
  induction ps generalizing qs with
  | nil =>
    obtain rfl : qs = [] := by simpa using h.symm
    rfl
  | cons p ps ih =>
    obtain _ | ⟨q, qs⟩ := qs
    · cases h
    · rw [List.map_cons, List.map_cons, List.cons.injEq] at h
      rw [Pattern.namesAll?, Pattern.namesAll?, h.1, ih h.2]

/-- The rows of a group agree on the names at each position of the first one. -/
theorem agree_of_ofRow {r : Registry} {stamp : ℕ} {first : Row} {rest : List Row}
    {row : PatternRow} (h : PatternRow.ofRow r.resolver (.group stamp first rest) = .ok row) {i : ℕ}
    (hi : i < first.width) :
    ∃ names, ∀ cells ∈ row.rows, ∃ p, cells[i]? = some p ∧ p.names? = some names := by
  simp only [PatternRow.ofRow, bind_eq_ok] at h
  obtain ⟨rows, _, _, hforM, h⟩ := h
  cases h
  have hmem : (first.cells[i], i) ∈ first.cells.zipIdx := by
    rw [List.mk_mem_zipIdx_iff_getElem?]
    exact List.getElem?_eq_getElem hi
  obtain ⟨column, hcolumn, hagree⟩ := bind_eq_ok.mp (forM_eq_ok hforM _ hmem)
  obtain ⟨names, hnames⟩ := agree_eq_ok hagree
  have hcells := column_eq_ok hcolumn
  refine ⟨names, fun cells hmem => ?_⟩
  have hcell : cells[i]? ∈ column.map some := hcells ▸ List.mem_map_of_mem hmem
  obtain ⟨p, hp, hcell⟩ := List.mem_map.mp hcell
  exact ⟨p, hcell.symm, hnames p hp⟩

/-- The names of a row are known, and every plain row of it has them. -/
theorem names?_of_ofRow {r : Registry} {rule : RuleRow} {row : PatternRow} {arity : ℕ}
    (h : PatternRow.ofRow r.resolver rule = .ok row) (hoffers : rule.offers = true)
    (hwidth : ∀ plain ∈ rule.rows, plain.width = arity) :
    ∃ names, row.names? = some names ∧
      ∀ cells ∈ row.rows, Pattern.namesAll? cells = some names := by
  have hrows := rows_of_ofRow h
  rw [RuleRow.offers, List.all_eq_true] at hoffers
  cases rule with
  | row plain =>
    obtain ⟨cells, hcells, rfl⟩ := map_eq_ok.mp h
    obtain ⟨names, hnames⟩ := namesAll?_of_ofPhrases plain.cells hcells
      (hoffers plain List.mem_cons_self)
    exact ⟨names, hnames, by simpa [PatternRow.rows] using hnames⟩
  | group stamp first rest =>
    have hagree := fun i (hi : i < first.width) => agree_of_ofRow h hi
    simp only [PatternRow.ofRow, bind_eq_ok] at h
    obtain ⟨rows, _, _, _, h⟩ := h
    cases h
    simp only [RuleRow.rows, PatternRow.rows] at hrows hagree hwidth hoffers
    have hlength : ∀ cells ∈ rows, cells.length = arity := by
      intro cells hcells
      obtain ⟨plain, hplain, hres⟩ := exists_of_mem_right hrows hcells
      rw [← (ofPhrases_eq_ok.mp hres).length_eq]
      exact hwidth plain hplain
    cases hrows with
    | @cons _ head _ tail hhead htail =>
      obtain ⟨names, hnames⟩ := namesAll?_of_ofPhrases first.cells hhead
        (hoffers first List.mem_cons_self)
      refine ⟨names, hnames, fun cells hcells => ?_⟩
      rw [← hnames]
      refine Pattern.namesAll?_congr (List.ext_getElem? fun i => ?_)
      -- Beyond the width there is nothing on either side.
      by_cases hi : i < arity
      · obtain ⟨n, hn⟩ := hagree i (by rwa [hwidth first List.mem_cons_self])
        obtain ⟨p, hp, hpn⟩ := hn cells hcells
        obtain ⟨q, hq, hqn⟩ := hn head List.mem_cons_self
        rw [List.getElem?_map, List.getElem?_map, hp, hq, Option.map_some, Option.map_some, hpn,
          hqn]
      · rw [List.getElem?_eq_none (by simpa [hlength cells hcells] using hi),
          List.getElem?_eq_none (by simpa [hlength head List.mem_cons_self] using hi)]
  | otherwise =>
    cases h
    exact ⟨[], rfl, by simp [PatternRow.rows]⟩

/-! ### What an action is handed -/

/-- Whether a parameter gets nothing from bindings under these names: it has no fallback, and it
takes its argument by position only, or by a name that is not among them. -/
def Param.lacks (names : Names) (p : Param Value) : Bool :=
  p.fallback.isNone && (p.kind = .positional || p.takesName && !names.contains p.key)

/-- Whether an action with these parameters, handed bindings under these names, is handed one that
no parameter takes: some parameter goes by a reserved word, so that all are handed over. -/
def surplus (names : Names) (params : List (Param Value)) : Bool :=
  params.any Param.isDisguised && !takesAllNames params && names.any fun name => !wants params name

/-- A parameter finds its binding among those that the action is handed. -/
theorem get?_wanted {params : List (Param Value)} {p : Param Value} (hp : p ∈ params)
    (hname : p.takesName = true) (b : Bindings) :
    Table.get? (wanted params b) p.key = Table.get? b p.key := by
  unfold wanted
  split
  · rfl
  · have hwants : wants params p.key = true := List.any_eq_true.mpr ⟨p, hp, by simp [hname]⟩
    exact Table.get?_filter b hwants

/-- An action is handed a binding that no parameter takes exactly when there is a surplus. -/
theorem exists_unwanted_iff {params : List (Param Value)} {b : Bindings} {names : Names}
    (hb : b.GoBy names) :
    (∃ e ∈ wanted params b, wants params e.1 = false ∧ takesAllNames params = false) ↔
      surplus names params = true := by
  have hall : names.any (fun name => !wants params name) = true ↔
      ∃ e ∈ b, wants params e.1 = false := by
    simp only [List.any_eq_true, Bool.not_eq_true', ← hb.2, Table.names, List.mem_map]
    constructor
    · rintro ⟨_, ⟨e, he, rfl⟩, hw⟩
      exact ⟨e, he, hw⟩
    · rintro ⟨e, he, hw⟩
      exact ⟨e.1, ⟨e, he, rfl⟩, hw⟩
  simp only [surplus, Bool.and_eq_true, Bool.not_eq_true', hall]
  cases htakes : takesAllNames params with
  | true => simp
  | false =>
    cases hdisguised : params.any Param.isDisguised with
    | true => simp [wanted, hdisguised]
    | false =>
      -- What was filtered is wanted.
      simp only [wanted, htakes, hdisguised, Bool.or_self, Bool.false_eq_true, if_false,
        List.mem_filter, and_true, false_and, iff_false, not_exists, not_and]
      rintro e ⟨_, he⟩ hw
      rw [he] at hw
      cases hw

/-- What a parameter that does not take whatever is left is given when nothing comes by position. -/
def Param.given? (b : Bindings) (p : Param Value) : Option Value :=
  (if p.takesName then Table.get? b p.key else none).or p.fallback

theorem distribute_given (b extra : Bindings) {p : Param Value}
    (hp : p.kind = .positional ∨ p.takesName = true) (params : List (Param Value)) :
    distribute b extra (p :: params) [] =
      (p.given? b).elim (raise .wrongType) fun v =>
        distribute b extra params [] >>= fun scope => pure ((p.name, v) :: scope) := by
  cases hv : p.given? b <;>
  · obtain ⟨name, kind, fallback⟩ := p
    have hkind : kind = .positional ∨ kind = .plain ∨ kind = .keyword := by
      cases kind <;> simp [Param.takesName] at hp ⊢
    rw [Param.given?] at hv
    rcases hkind with rfl | rfl | rfl <;> rw [distribute] <;> simp [hv]

/-- A parameter lacks its argument exactly when it is given nothing. -/
theorem Param.isNone_given? {names : Names} {b : Bindings} {p : Param Value}
    (hp : p.kind = .positional ∨ p.takesName = true)
    (hb : p.takesName = true → ((Table.get? b p.key).isSome = true ↔ p.key ∈ names)) :
    (p.given? b).isNone = p.lacks names := by
  rw [Param.given?, Param.lacks]
  cases hname : p.takesName with
  | true =>
    have hkind : p.kind ≠ .positional := by
      intro hkind
      simp [Param.takesName, hkind] at hname
    have hkey := hb hname
    cases hv : Table.get? b p.key <;> simp_all
  | false =>
    have hkind : p.kind = .positional := hp.resolve_right (by simp [hname])
    simp [hkind]

/-- Without arguments by position, the parameters are given what they take unless one of them lacks
its argument. -/
theorem outcome_distribute {names : Names} {b : Bindings} {params : List (Param Value)}
    (hb : ∀ p ∈ params, p.takesName = true →
      ((Table.get? b p.key).isSome = true ↔ p.key ∈ names)) (extra : Bindings) (s : Store) :
    (params.any (Param.lacks names) = true ∧
      ∃ s', outcome (distribute b extra params []) s = (.error (.fault .wrongType), s')) ∨
    (params.any (Param.lacks names) = false ∧
      ∃ scope s', outcome (distribute b extra params []) s = (.ok scope, s')) := by
  induction params generalizing s with
  | nil => exact .inr ⟨rfl, [], s, rfl⟩
  | cons p params ih =>
    have hrest := ih fun q hq => hb q (List.mem_cons_of_mem _ hq)
    -- What one parameter is given does not matter to the others.
    have hgiven (hlacks : p.lacks names = false)
        (heq : ∃ v s₁, outcome (distribute b extra (p :: params) []) s =
          outcome (distribute b extra params [] >>= fun scope => pure ((p.name, v) :: scope)) s₁) :
        ((p :: params).any (Param.lacks names) = true ∧
          ∃ s', outcome (distribute b extra (p :: params) []) s =
            (.error (.fault .wrongType), s')) ∨
        ((p :: params).any (Param.lacks names) = false ∧
          ∃ scope s', outcome (distribute b extra (p :: params) []) s = (.ok scope, s')) := by
      obtain ⟨v, s₁, heq⟩ := heq
      rw [List.any_cons, hlacks, Bool.false_or, heq]
      rcases hrest s₁ with ⟨hany, s', h⟩ | ⟨hany, scope, s', h⟩
      · exact .inl ⟨hany, s', outcome_bind_error h _⟩
      · exact .inr ⟨hany, _, s', outcome_bind_ok h _⟩
    by_cases hp : p.kind = .positional ∨ p.takesName = true
    · have hlacks := Param.isNone_given? hp (hb p List.mem_cons_self)
      cases hv : p.given? b with
      | none =>
        rw [hv] at hlacks
        refine .inl ⟨by rw [List.any_cons, ← hlacks]; rfl, s, ?_⟩
        rw [distribute_given b extra hp, hv]
        rfl
      | some v =>
        rw [hv] at hlacks
        exact hgiven hlacks.symm ⟨v, s, by rw [distribute_given b extra hp, hv]; rfl⟩
    · obtain ⟨name, kind, fallback⟩ := p
      cases kind with
      | restPositional =>
        refine hgiven (by simp [Param.lacks, Param.takesName]) ?_
        rw [distribute]
        exact ⟨_, _, rfl⟩
      | restKeyword =>
        refine hgiven (by simp [Param.lacks, Param.takesName]) ?_
        rw [distribute]
        exact ⟨_, _, rfl⟩
      | _ => simp [Param.takesName] at hp

/-- What happens when an action is handed what it wants of bindings under known names: it lacks an
argument, or it is handed too much, or its body is entered. -/
theorem outcome_enter_wanted {names : Names} {b : Bindings} (hb : b.GoBy names) (closure : Closure)
    (s : Store) :
    ((surplus names closure.params || closure.params.any (Param.lacks names)) = true ∧
      ∃ s', outcome (closure.enter [] (wanted closure.params b)) s =
        (.error (.fault .wrongType), s')) ∨
    ((surplus names closure.params || closure.params.any (Param.lacks names)) = false ∧
      ∃ scope s', outcome (closure.enter [] (wanted closure.params b)) s = (.ok scope, s')) := by
  have hextra : ((!((wanted closure.params b).filter fun e => !wants closure.params e.1).isEmpty &&
      !takesAllNames closure.params) = true) ↔ surplus names closure.params = true := by
    rw [← exists_unwanted_iff hb]
    simp only [Bool.and_eq_true, Bool.not_eq_true', List.isEmpty_eq_false_iff_exists_mem,
      List.mem_filter]
    constructor
    · rintro ⟨⟨e, he, hw⟩, htakes⟩
      exact ⟨e, he, hw, htakes⟩
    · rintro ⟨e, he, hw, htakes⟩
      exact ⟨⟨e, he, hw⟩, htakes⟩
  have hget : ∀ p ∈ closure.params, p.takesName = true →
      ((Table.get? (wanted closure.params b) p.key).isSome = true ↔ p.key ∈ names) := by
    intro p hp hname
    rw [get?_wanted hp hname, Table.isSome_get?_iff, hb.2]
  rw [Closure.enter]
  cases hsurplus : surplus names closure.params with
  | true =>
    refine .inl ⟨rfl, s, ?_⟩
    rw [if_pos (hextra.mpr hsurplus)]
    rfl
  | false =>
    rw [if_neg (by rw [hextra, hsurplus]; simp), Bool.false_or]
    rcases outcome_distribute hget _ s with
      ⟨hany, s', h⟩ | ⟨hany, scope, s', h⟩
    · exact .inl ⟨hany, s', outcome_bind_error h _⟩
    · exact .inr ⟨hany, _, s', outcome_bind_ok h _⟩

/-- Running an action that is handed what it wants: it fails at once when it is handed too much or
lacks an argument, and otherwise its body runs. -/
theorem outcome_handle_adapted {names : Names} {b : Bindings} (hb : b.GoBy names) (env : Env)
    (fuel : ℕ) (s : Store) (ref : ClosureRef) :
    ((surplus names (s.closure ref).params ||
        (s.closure ref).params.any (Param.lacks names)) = true ∧
      ∃ s', outcome (perform env (fuel + 1) (.handle (.adapted (.closure ref)) b)) s =
        (.error (.fault .wrongType), s')) ∨
    ((surplus names (s.closure ref).params ||
        (s.closure ref).params.any (Param.lacks names)) = false ∧
      ∃ scope s',
        outcome ((s.closure ref).enter [] (wanted (s.closure ref).params b)) s = (.ok scope, s') ∧
        outcome (perform env (fuel + 1) (.handle (.adapted (.closure ref)) b)) s =
          outcome (perform env fuel (.eval scope (s.closure ref).body)) s') := by
  have hhandle : outcome (perform env (fuel + 1) (.handle (.adapted (.closure ref)) b)) s =
      outcome ((s.closure ref).enter [] (wanted (s.closure ref).params b) >>= fun scope =>
        perform env fuel (.eval scope (s.closure ref).body)) s := rfl
  rw [hhandle]
  rcases outcome_enter_wanted hb (s.closure ref) s with ⟨hfails, s', h⟩ | ⟨henters, scope, s', h⟩
  · exact .inl ⟨hfails, s', outcome_bind_error h _⟩
  · exact .inr ⟨henters, scope, s', h, outcome_bind_ok h _⟩

/-! ### Compiled rules -/

section Rules

variable {r : Registry} {force : Value → Run Value}

/-- A plain row that matches binds under the names known of its row. -/
theorem goBy_of_matchVector (hr : r.DistinctFields) {rule : RuleRow} {row : PatternRow}
    (h : PatternRow.ofRow r.resolver rule = .ok row) (hfit : rule.fits r = true) {names : Names}
    {cells : List Pattern} (hcells : cells ∈ row.rows)
    (hnames : Pattern.namesAll? cells = some names) {values : List Value}
    (hlength : values.length = cells.length) {b : Bindings} {s s' : Store}
    (hmatch : outcome (matchVector force (cells.map Pattern.test) values []) s =
      (.ok (some b), s')) : b.GoBy names := by
  obtain ⟨plain, hplain, hphrases⟩ := exists_of_mem_right (rows_of_ofRow h) hcells
  have hfits := allFit_of_ofPhrases hr plain.cells hphrases (List.all_eq_true.mp hfit plain hplain)
  obtain ⟨names', hnames', hadds⟩ :=
    adds_of_matchVector (allChecked_of_ofPhrases plain.cells hphrases) hfits hlength hmatch
  cases hnames.symm.trans hnames'
  exact hadds.goBy

/-- A row that matches binds under the names known of it, whichever plain row of it matched. -/
theorem goBy_of_matches (hr : r.DistinctFields) {rule : RuleRow} {row : PatternRow}
    (h : PatternRow.ofRow r.resolver rule = .ok row) (hfit : rule.fits r = true) {names : Names}
    (hnames : row.names? = some names)
    (hall : ∀ cells ∈ row.rows, Pattern.namesAll? cells = some names) {values : List Value}
    (hlength : ∀ cells ∈ row.rows, values.length = cells.length) {b : Bindings} {s s' : Store}
    (hmatch : outcome (row.test.matches force values) s = (.ok (some b), s')) : b.GoBy names := by
  cases row with
  | row cells =>
    exact goBy_of_matchVector hr h hfit List.mem_cons_self hnames
      (hlength cells List.mem_cons_self) hmatch
  | group rows =>
    obtain ⟨tests, htests, s₀, hmatch⟩ := exists_of_matchGroup hmatch
    obtain ⟨cells, hcells, rfl⟩ := List.mem_map.mp htests
    exact goBy_of_matchVector hr h hfit hcells (hall cells hcells) (hlength cells hcells) hmatch
  | otherwise =>
    cases hnames
    cases hmatch
    exact (Adds.refl []).goBy

end Rules

/-- **The names that an action is handed are known beforehand.** Under distinct field names, without
surplus parts in structured forms and without empty alternations, each rule has a set of names that
does not depend on any argument. A plain row of the rule that matches, alone or in a group, binds
under exactly these names, and so does dispatch when it selects the rule. An action made of
parameters that wants its bindings is handed one that it does not take only if one of its parameters
goes by a reserved word, it does not take all, and a name is none of its own; otherwise it fails
before its body runs exactly when a parameter lacks its argument, which its parameters and the names
decide. -/
theorem handed_names_known {r : Registry} (hr : r.DistinctFields) {name : String}
    {rules : List (Rule Value)} {c : Compiled Value}
    (hc : Compiled.ofRules r.resolver name rules = .ok c)
    (hfit : ∀ rule ∈ rules, rule.row.fits r = true)
    (hoffers : ∀ rule ∈ rules, rule.row.offers = true) {i : ℕ} {rule : Rule Value}
    (hrule : rules[i]? = some rule) :
    ∃ row names, PatternRow.ofRow r.resolver rule.row = .ok row ∧ row.names? = some names ∧
      (∀ cells ∈ row.rows, ∀ (force : Value → Run Value) (args : List Value) (s s' : Store)
        (b : Bindings), args.length = (Function.ofCompiled name false c).arity →
        outcome (matchVector force (cells.map Pattern.test) args []) s = (.ok (some b), s') →
        b.GoBy names) ∧
      (∀ (force : Value → Run Value) (args : List Value) (s s' : Store) (b : Bindings),
        args.length = (Function.ofCompiled name false c).arity →
        outcome (c.choose force args) s = (.ok (some (i, b)), s') →
        Selects force name rules c args s i b s' ∧ b.GoBy names) ∧
      ∀ b : Bindings, b.GoBy names → ∀ (s : Store) (ref : ClosureRef) (params : List (Param Value)),
        (s.closure ref).params = params →
        ((∃ e ∈ wanted params b, wants params e.1 = false ∧ takesAllNames params = false) ↔
          surplus names params = true) ∧
        ∀ (env : Env) (fuel : ℕ), surplus names params = false →
          (params.any (Param.lacks names) = true ∧
            ∃ s', outcome (perform env (fuel + 1) (.handle (.adapted (.closure ref)) b)) s =
              (.error (.fault .wrongType), s')) ∨
          (params.any (Param.lacks names) = false ∧
            ∃ scope s', outcome ((s.closure ref).enter [] (wanted params b)) s = (.ok scope, s') ∧
              outcome (perform env (fuel + 1) (.handle (.adapted (.closure ref)) b)) s =
                outcome (perform env fuel (.eval scope (s.closure ref).body)) s') := by
  obtain ⟨rows, arity, h⟩ := Compiled.exists_of_ofRules hc
  rw [h.arity_ofCompiled]
  have hmem := List.mem_of_getElem? hrule
  obtain ⟨row, hrow, hres⟩ := h.exists_of_rule hrule
  obtain ⟨names, hnames, hall⟩ := names?_of_ofRow hres (hoffers rule hmem) (h.width rule hmem)
  have hcells : ∀ cells ∈ row.rows, cells.length = arity := fun cells hcells =>
    h.length_cells (List.mem_flatMap.mpr ⟨row, List.mem_of_getElem? hrow, hcells⟩)
  refine ⟨row, names, hres, hnames, fun cells hmem' force args s s' b hargs hmatch => ?_,
    fun force args s s' b hargs hchoose => ⟨h.selects name hchoose, ?_⟩, ?_⟩
  · exact goBy_of_matchVector hr hres (hfit rule hmem) hmem' (hall cells hmem')
      (hargs.trans (hcells cells hmem').symm) hmatch
  · obtain ⟨values, s₁, hplan, hselect⟩ := outcome_bind_eq_ok hchoose
    rw [h.run_plan force hargs] at hplan
    have hlength : values.length = arity := by
      rw [length_of_forceWhere (by simpa using hargs.symm) hplan, hargs]
    obtain ⟨j, row', s₂, hj, hrow', hmatch⟩ := matches_of_numbered_some hselect
    obtain rfl : i = j := by omega
    obtain ⟨_, _, hrow'', _, rfl⟩ := h.exists_of_row hrow'
    cases hrow.symm.trans hrow''
    exact goBy_of_matches hr hres (hfit rule hmem) hnames hall
      (fun cells hmem' => hlength.trans (hcells cells hmem').symm) hmatch
  · rintro b hb s ref params rfl
    refine ⟨exists_unwanted_iff hb, fun env fuel hsurplus => ?_⟩
    have hhandle := outcome_handle_adapted hb env fuel s ref
    rwa [hsurplus, Bool.false_or] at hhandle

/-- The head and the tail of a stream, where the empty stream stands for both of its own. -/
def partsRules : List (Rule Value) :=
  [⟨.group 1 (.mk 2 [.compound 3 ⟨103, "Cons"⟩ [.name 4 "head", .name 5 "tail"]])
      [.mk 6 [.either 7 [.named 8 (.named 9 (.name 10 "Nil") ⟨109, "tail"⟩) ⟨108, "head"⟩]]],
    .closure ⟨0⟩⟩]

/-- Parameters for the head, and for something else with a fallback. -/
def partsParams : List (Param Value) :=
  [⟨"head", .plain, none⟩, ⟨"other", .keyword, some (.int 1)⟩]

/-- A store with the function of the rules, the empty stream and the action. -/
def partsStore (c : Compiled Value) : Store where
  records := #[[(.text "", .text "Stream.Nil")]]
  thunks := #[.pending (.constant ⟨0⟩)]
  functions := #[Function.ofCompiled "parts" false c]
  closures := #[⟨partsParams, .var "head", []⟩]

/-- On the empty stream the second row of the group matches, under the names of the first, and the
action is handed what it takes. -/
theorem handed_names_known_parts :
    ∃ c b s', Compiled.ofRules streams.resolver "parts" partsRules = .ok c ∧
      outcome (c.choose (Env.force {} 5) [.thunk ⟨0⟩]) (partsStore c) = (.ok (some (0, b)), s') ∧
      b.GoBy ["head", "tail"] ∧
      ∃ scope s'', outcome (perform {} 5 (.handle (.adapted (.closure ⟨0⟩)) b)) (partsStore c) =
        outcome (perform {} 4 (.eval scope (.var "head"))) s'' := by
  obtain ⟨c, hc⟩ : ∃ c, Compiled.ofRules streams.resolver "parts" partsRules = .ok c := ⟨_, rfl⟩
  obtain ⟨b, s', hchoose⟩ : ∃ b s', outcome (c.choose (Env.force {} 5) [.thunk ⟨0⟩])
      (partsStore c) = (.ok (some (0, b)), s') := by
    have hposition : (outcome (c.choose (Env.force {} 5) [.thunk ⟨0⟩])
        (partsStore c)).1.toOption.map (·.map Prod.fst) = some (some 0) := by
      cases hc
      decide +kernel
    rcases hrun : outcome (c.choose (Env.force {} 5) [.thunk ⟨0⟩]) (partsStore c) with
      ⟨_ | _ | ⟨i, b⟩, s'⟩ <;> rw [hrun] at hposition <;> cases hposition
    exact ⟨b, s', rfl⟩
  obtain ⟨row, names, hrow, hnames, _, hselects, hhanded⟩ := handed_names_known
    distinctFields_streams hc (by decide) (by decide) (i := 0) rfl
  obtain rfl : names = ["head", "tail"] := by
    cases hrow
    cases hnames
    rfl
  have hb := (hselects (Env.force {} 5) [.thunk ⟨0⟩] (partsStore c) s' b (by cases hc; rfl)
    hchoose).2
  have hact := (hhanded b hb (partsStore c) ⟨0⟩ partsParams rfl).2 {} 4 (by decide +kernel)
  refine ⟨c, b, s', hc, hchoose, hb, ?_⟩
  rcases hact with ⟨hlacks, _⟩ | ⟨_, scope, s'', _, heval⟩
  · cases hlacks
  · exact ⟨scope, s'', heval⟩

/-- Rules with one action for everything. -/
def anyRules : List (Rule Value) := [⟨.row (.mk 1 [.name 2 "x"]), .closure ⟨0⟩⟩]

/-- A parameter with a fallback that goes by a reserved word. -/
def disguisedParams : List (Param Value) := [⟨"ªs", .plain, some (.int 1)⟩]

/-- A store with the function of the rules and an action with that parameter. -/
def disguisedStore (c : Compiled Value) : Store where
  functions := #[Function.ofCompiled "any" false c]
  closures := #[⟨disguisedParams, .constant (.int 5), []⟩]

/-- An action that lacks nothing is handed a binding that it does not take, and fails. -/
theorem disguised_parameter_handed_surplus :
    ∃ c s', Compiled.ofRules Registry.empty.resolver "any" anyRules = .ok c ∧
      Param.wellFormed disguisedParams = true ∧
      disguisedParams.any (Param.lacks ["x"]) = false ∧
      outcome (perform {} 5 (.call (.function ⟨0⟩) [.int 3])) (disguisedStore c) =
        (.error (.fault .wrongType), s') := by
  obtain ⟨c, hc⟩ : ∃ c, Compiled.ofRules Registry.empty.resolver "any" anyRules = .ok c := ⟨_, rfl⟩
  obtain ⟨_, _, h⟩ := Compiled.exists_of_ofRules hc
  have hchoose : outcome (c.choose (Env.force {} 3) [.int 3]) (disguisedStore c) =
      (.ok (some (0, [("x", .int 3)])), disguisedStore c) := by
    cases hc
    rfl
  obtain ⟨rule, hrule, hdispatch⟩ := (h.selects "any" hchoose).dispatch
  cases hrule
  have hb : Bindings.GoBy [("x", .int 3)] ["x"] := ⟨by simp [Table.names], by simp [Table.names]⟩
  have hsurplus : surplus ["x"] disguisedParams = true := by decide +kernel
  rcases outcome_handle_adapted hb {} 2 (disguisedStore c) ⟨0⟩ with ⟨_, s', hfails⟩ | ⟨henters, _⟩
  · refine ⟨c, s', hc, by decide +kernel, by decide +kernel, ?_⟩
    rw [outcome_call_function rfl rfl (by cases hc; rfl), ← hfails]
    exact hdispatch false _
  · have hparams : ((disguisedStore c).closure ⟨0⟩).params = disguisedParams := rfl
    rw [hparams, hsurplus, Bool.true_or] at henters
    cases henters

end LazyMatch
