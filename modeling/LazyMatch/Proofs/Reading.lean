import LazyMatch.Proofs.Compilation
import LazyMatch.Proofs.Lowering

/-!
# The direct reading of rules

Rules can be read as they stand, phrase by phrase, without resolving, transposing or lowering
anything first. An argument is forced when some row names a lazy constructor at the top of its cell
in that position; then the rules are tried in order, and the first one whose cells all match runs
its action. Inside a structured form a field is forced when the phrase in its place names a lazy
constructor at its top.

* `Phrase.asksLazy`: a lazy constructor is named at the top, behind names and alternations;
* `Phrase.reads`: what a phrase asks of a value, `RuleRow.reads` a row of all arguments;
* `readRules`: the reading of a rule list, down to the answer or the values that no rule matches;
* `Unmatched`: how it is said that no rule matches, and what is said when that cannot be put into
  words;
* `call_follows_readRules`: calling a compiled function has exactly the outcome of the reading.
-/

namespace LazyMatch

/-! ### The reading -/

/-- Whether a phrase is the bare wildcard. -/
def Phrase.isWildcard : Phrase → Bool
  | .name _ text => text = "_"
  | _ => false

mutual

/-- Whether a phrase names a lazy constructor at its top, behind names and alternations. -/
def Phrase.asksLazy (r : Registry) : Phrase → Bool
  | .name _ text => text ≠ "_" && (r.resolve? text).any (·.lazy)
  | .compound _ head _ => (r.resolve? head).any (·.lazy)
  | .named _ inner _ => inner.asksLazy r
  | .either _ alternatives => Phrase.asksLazyAny r alternatives
  | _ => false

/-- Whether one of several phrases does. -/
def Phrase.asksLazyAny (r : Registry) : List Phrase → Bool
  | [] => false
  | p :: rest => p.asksLazy r || Phrase.asksLazyAny r rest

end

/-- A literal compares by equality. A comparison without an answer never ends. -/
def readsLiteral (w v : Value) (b : Bindings) : Run (Option Bindings) := do
  match (← get).equal? v w with
  | some true => return some b
  | some false => return none
  | none => throw .exhausted

/-- The content of an escape: an identifier binds, whatever it names elsewhere, and anything else is
compared. -/
def readsContent : Value → Value → Bindings → Run (Option Bindings)
  | .phrase (.name _ text), v, b => return some (if text = "_" then b else b.put text v)
  | .phrase (.literal _ w), v, b => readsLiteral w v b
  | w, v, b => readsLiteral w v b

mutual

/-- Read a phrase on a value, adding to the bindings; `none` when it does not match. -/
def Phrase.reads (r : Registry) (force : Value → Run Value) :
    Phrase → Value → Bindings → Run (Option Bindings)
  | .name _ text, v, b =>
    if text = "_" then return some b
    else match r.resolve? text with
      | none => return some (b.put text v)
      | some c => return if (← get).hasTag v c.key then some b else none
  | .literal _ w, v, b => readsLiteral w v b
  | .compound _ head fields, v, b =>
    match r.resolve? head with
    | none => return none
    | some c => do
      match v, (← get).hasTag v c.key with
      | .record ρ, true => Phrase.readsFields r force c.fields fields ρ b
      | _, _ => return none
  | .defer _ content, v, b => readsContent content v b
  | .named _ inner text, v, b => return (← inner.reads r force v b).map (·.put text v)
  | .either _ alternatives, v, b => Phrase.readsFirst r force alternatives v b
  -- A row, a group or the fallback inside a cell stands for itself.
  | p, v, b => readsLiteral (.phrase p) v b

/-- Read the phrases of a structured form on the fields of a record, in order. The wildcard does not
look at its field; there is nothing to match for a phrase beyond the last field. -/
def Phrase.readsFields (r : Registry) (force : Value → Run Value) :
    List String → List Phrase → RecordRef → Bindings → Run (Option Bindings)
  | _, [], _, b => return some b
  | [], _ :: _, _, _ => return none
  | field :: names, p :: rest, ρ, b => do
    if p.isWildcard then Phrase.readsFields r force names rest ρ b
    else
      match (← get).field? ρ field with
      | none => raise .missingKey
      | some v =>
        let v ← if p.asksLazy r then force v else pure v
        match ← p.reads r force v b with
        | none => return none
        | some b => Phrase.readsFields r force names rest ρ b

/-- Read alternatives in order: the bindings of the first that matches. -/
def Phrase.readsFirst (r : Registry) (force : Value → Run Value) :
    List Phrase → Value → Bindings → Run (Option Bindings)
  | [], _, _ => return none
  | p :: rest, v, b => do
    match ← p.reads r force v b with
    | none => Phrase.readsFirst r force rest v b
    | some b => return some b

end

/-- What the reading of rules comes to. -/
inductive Reading where
  /-- What the action of the first rule that matches answers. -/
  | answer (v : Value)
  /-- No rule matches these values. -/
  | unmatched (values : List Value)

section Rules

variable (r : Registry) (force : Value → Run Value)

/-- Read the cells of a row on the arguments, position by position. -/
def readsCells : List Phrase → List Value → Bindings → Run (Option Bindings)
  | p :: cells, v :: values, b => do
    match ← p.reads r force v b with
    | none => return none
    | some b => readsCells cells values b
  | _, _, b => return some b

/-- Read the rows of a group in order. -/
def readsGroup (values : List Value) : List Row → Run (Option Bindings)
  | [] => return none
  | row :: rest => do
    match ← readsCells r force row.cells values [] with
    | none => readsGroup values rest
    | some b => return some b

/-- Read the row of a rule on the arguments. The fallback always matches. -/
def RuleRow.reads (values : List Value) : RuleRow → Run (Option Bindings)
  | .row plain => readsCells r force plain.cells values []
  | .group _ first rest => readsGroup r force values (first :: rest)
  | .otherwise => return some []

/-- Run the action of the first rule that matches. -/
def readInOrder {α : Type} (act : α → Bindings → Run Value) (values : List Value) :
    List (Rule α) → Run Reading
  | [] => return .unmatched values
  | rule :: rest => do
    match ← rule.row.reads r force values with
    | some b => return .answer (← act rule.action b)
    | none => readInOrder act values rest

/-- Whether some row of the rules names a lazy constructor at the top of the cell at a position. -/
def asksLazyAt {α : Type} (rules : List (Rule α)) (i : ℕ) : Bool :=
  rules.any fun rule => rule.row.rows.any fun row => (row.cells[i]?).any (·.asksLazy r)

/-- The reading of rules: force the arguments that are asked for, from left to right, then try the
rules in order. -/
def readRules {α : Type} (act : α → Bindings → Run Value) (rules : List (Rule α))
    (args : List Value) : Run Reading := do
  let values ← args.zipIdx.mapM fun (v, i) => if asksLazyAt r rules i then force v else pure v
  readInOrder r force act values rules

end Rules

/-- How a call stops when no rule matches the values: with the fault that says so, which tells them
by their tags or written out, when each of them has a text to be told by. -/
inductive Unmatched (s : Store) (name : String) (values : List Value) : Stop → Prop where
  | told {tags : List String}
      (h : List.Forall₂ (fun v tag => s.summary v = .ok (.text tag)) values tags) :
      Unmatched s name values (.fault (.noMatch name tags))
  /-- The first value that has nothing to be told by, since it cannot be written. -/
  | unwritten {before after : List Value} {v : Value} {stop : Stop}
      (hvalues : values = before ++ v :: after)
      (hbefore : ∀ u ∈ before, ∃ tag, s.summary u = .ok tag) (hv : s.summary v = .error stop) :
      Unmatched s name values stop
  /-- A tag that is not a text. -/
  | untold {v tag : Value} (hall : ∀ u ∈ values, ∃ tag, s.summary u = .ok tag) (hv : v ∈ values)
      (htag : s.summary v = .ok tag) (htext : ∀ text, tag ≠ .text text) :
      Unmatched s name values (.fault .wrongType)

/-- Whether the outcome of a call is that of the reading of its rules. -/
def Reading.Follows (name : String) :
    Except Stop Reading × Store → Except Stop Value × Store → Prop
  | (.error stop, s), o => o = (.error stop, s)
  | (.ok (.answer v), s), o => o = (.ok v, s)
  | (.ok (.unmatched values), s), o => ∃ stop, Unmatched s name values stop ∧ o = (.error stop, s)

/-! ### Which rules are read as they are compiled -/

/-- No constructor of the registry has two fields of one name. -/
def Registry.DistinctFields (r : Registry) : Prop :=
  ∀ tag c, r.resolve? tag = some c → c.fields.Nodup

mutual

/-- Whether no structured form has more parts than its constructor has fields. -/
def Phrase.fits (r : Registry) : Phrase → Bool
  | .compound _ head fields =>
    (r.resolve? head).all (fun c => fields.length ≤ c.fields.length) && Phrase.fitAll r fields
  | .named _ inner _ => inner.fits r
  | .either _ alternatives => Phrase.fitAll r alternatives
  | _ => true

/-- Whether this holds of several phrases. -/
def Phrase.fitAll (r : Registry) : List Phrase → Bool
  | [] => true
  | p :: rest => p.fits r && Phrase.fitAll r rest

end

/-! ### Resolving keeps what a phrase asks -/

section Resolved

variable {r : Registry}

/-- Only the bare wildcard resolves to a wildcard. -/
theorem isWildcard_of_ofPhrase {p : Phrase} {q : Pattern}
    (h : Pattern.ofPhrase r.resolver p = .ok q) : q.isWildcard = p.isWildcard := by
  cases p with
  | name stamp text =>
    rcases ofPhrase_name h with ⟨ht, rfl⟩ | ⟨ht, _, rfl⟩ | ⟨c, ht, _, _, rfl⟩ |
        ⟨c, ht, _, _, rfl⟩ <;>
      simp [Pattern.isWildcard, Phrase.isWildcard, ht]
  | compound stamp head fields =>
    obtain ⟨c, _, ⟨_, _, rfl⟩ | ⟨_, qs, _, rfl⟩⟩ := ofPhrase_compound h <;> rfl
  | named stamp inner text =>
    obtain ⟨q', _, rfl⟩ := map_eq_ok.mp h
    rfl
  | either stamp alternatives =>
    obtain ⟨qs, _, rfl⟩ := ofPhrase_either h
    rfl
  | _ =>
    cases h
    rfl

mutual

/-- A pattern demands when its phrase names a lazy constructor at its top. -/
theorem demands_of_ofPhrase :
    ∀ (p : Phrase) {q : Pattern}, Pattern.ofPhrase r.resolver p = .ok q →
      q.demands = p.asksLazy r
  | .name stamp text, q, h => by
    rcases ofPhrase_name h with ⟨rfl, rfl⟩ | ⟨ht, hc, rfl⟩ | ⟨c, ht, hc, _, rfl⟩ |
        ⟨c, ht, hc, _, rfl⟩
    · simp [Pattern.demands, Phrase.asksLazy]
    · simp [Pattern.demands, Phrase.asksLazy, hc]
    · simp [Pattern.demands, Phrase.asksLazy, hc, ht]
    · simp [Pattern.demands, Phrase.asksLazy, hc, ht]
  | .compound stamp head fields, q, h => by
    obtain ⟨c, hc, ⟨_, _, rfl⟩ | ⟨_, qs, _, rfl⟩⟩ := ofPhrase_compound h <;>
      simp [Pattern.demands, Phrase.asksLazy, hc]
  | .named stamp inner text, q, h => by
    obtain ⟨q', hq', rfl⟩ := map_eq_ok.mp h
    rw [Pattern.demands, Phrase.asksLazy, demands_of_ofPhrase inner hq']
  | .either stamp alternatives, q, h => by
    obtain ⟨qs, hqs, rfl⟩ := ofPhrase_either h
    rw [Pattern.demands, Phrase.asksLazy, demandsAny_of_ofPhrases alternatives hqs]
  | .literal _ _, q, h | .defer _ _, q, h | .row _, q, h | .group _ _ _, q, h
  | .otherwise, q, h => by
    cases h
    simp [Pattern.demands, Phrase.asksLazy]

theorem demandsAny_of_ofPhrases :
    ∀ (ps : List Phrase) {qs : List Pattern}, Pattern.ofPhrases r.resolver ps = .ok qs →
      Pattern.demandsAny qs = Phrase.asksLazyAny r ps
  | [], qs, h => by
    cases h
    rfl
  | p :: rest, qs, h => by
    obtain ⟨q, hq, h⟩ := bind_eq_ok.mp h
    obtain ⟨qs', hqs, h⟩ := bind_eq_ok.mp h
    cases h
    rw [Pattern.demandsAny, Phrase.asksLazyAny, demands_of_ofPhrase p hq,
      demandsAny_of_ofPhrases rest hqs]

end

end Resolved

/-! ### Matching a test is reading its phrase -/

section Matching

variable {r : Registry} (force : Value → Run Value)

/-- Only a record has a tag, so asking for the tag alone is asking for it and no fields. -/
theorem hasTag_cases {s : Store} {v : Value} {key : String} (h : s.hasTag v key = true) :
    ∃ ρ, v = .record ρ := by
  cases v <;> simp_all [Store.hasTag, Store.tag]

theorem matches_fields_nil (key : String) (v : Value) (b : Bindings) :
    (Test.fields key []).matches force v b =
      (do return if (← get).hasTag v key then some b else none) := by
  simp only [Test.matches]
  refine bind_congr fun s => ?_
  cases h : s.hasTag v key with
  | false => cases v <;> simp
  | true =>
    obtain ⟨ρ, rfl⟩ := hasTag_cases h
    simp [Test.matchFields]

theorem matches_equal (w v : Value) (b : Bindings) :
    (Test.equal w).matches force v b = readsLiteral w v b := by
  rw [Test.matches]
  rfl

theorem matches_ofValue (content v : Value) (b : Bindings) :
    (Test.ofValue content).matches force v b = readsContent content v b := by
  unfold Test.ofValue readsContent
  split
  · split <;> rename_i ht <;> simp [Test.matches, ht]
  · exact matches_equal force _ v b
  · simp only [matches_equal]

mutual

/-- The test of a resolved phrase matches as the phrase reads. -/
theorem matches_of_ofPhrase (hr : r.DistinctFields) :
    ∀ (p : Phrase) {q : Pattern}, Pattern.ofPhrase r.resolver p = .ok q → p.fits r = true →
      ∀ (v : Value) (b : Bindings), q.test.matches force v b = p.reads r force v b
  | .name stamp text, q, h, _ => by
    intro v b
    rcases ofPhrase_name h with ⟨rfl, rfl⟩ | ⟨ht, hc, rfl⟩ | ⟨c, ht, hc, hk, rfl⟩ |
        ⟨c, ht, hc, hk, rfl⟩
    · simp [Pattern.test, Test.matches, Phrase.reads]
    · simp [Pattern.test, Test.ofValue, Test.matches, Phrase.reads, ht, hc]
    · simp [Pattern.test, Test.matches, Phrase.reads, ht, hc]
    · simp [Pattern.test, Pattern.testFields, matches_fields_nil, Phrase.reads, ht, hc]
  | .compound stamp head fields, q, h, hfit => by
    intro v b
    obtain ⟨c, hc, ⟨hk, rfl, rfl⟩ | ⟨_, qs, hqs, rfl⟩⟩ := ofPhrase_compound h
    · simp only [Pattern.test, Phrase.reads, hc, Test.matches]
      refine bind_congr fun s => ?_
      cases htag : s.hasTag v c.key with
      | false => cases v <;> simp
      | true =>
        obtain ⟨ρ, rfl⟩ := hasTag_cases htag
        simp [Phrase.readsFields]
    · simp only [Phrase.fits, hc, Option.all_some, Bool.and_eq_true, decide_eq_true_eq] at hfit
      have hnd := hr head c hc
      simp only [Pattern.test, Pattern.testFields_of_nodup hnd, Test.matches, Phrase.reads, hc]
      refine bind_congr fun s => ?_
      cases htag : s.hasTag v c.key with
      | false => cases v <;> rfl
      | true =>
        obtain ⟨ρ, rfl⟩ := hasTag_cases htag
        exact matchFields_of_ofPhrases hr fields hqs hfit.2 c.fields hfit.1 ρ b
  | .named stamp inner text, q, h, hfit => by
    intro v b
    obtain ⟨q', hq', rfl⟩ := map_eq_ok.mp h
    simp only [Pattern.test, Test.matches, Phrase.reads, matches_of_ofPhrase hr inner hq' hfit]
  | .either stamp alternatives, q, h, hfit => by
    intro v b
    obtain ⟨qs, hqs, rfl⟩ := ofPhrase_either h
    simp only [Pattern.test, Test.matches, Phrase.reads,
      matchFirst_of_ofPhrases hr alternatives hqs hfit]
  | .defer stamp content, q, h, _ => by
    intro v b
    cases h
    simp only [Pattern.test, matches_ofValue, Phrase.reads]
  | .literal _ _, q, h, _ | .row _, q, h, _ | .group _ _ _, q, h, _ | .otherwise, q, h, _ => by
    intro v b
    cases h
    simp only [Pattern.test, matches_ofValue, Phrase.reads, readsContent]

/-- The tests of a structured form match the fields as its phrases read them. -/
theorem matchFields_of_ofPhrases (hr : r.DistinctFields) :
    ∀ (ps : List Phrase) {qs : List Pattern}, Pattern.ofPhrases r.resolver ps = .ok qs →
      Phrase.fitAll r ps = true → ∀ (names : List String), ps.length ≤ names.length →
      ∀ (ρ : RecordRef) (b : Bindings),
        Test.matchFields force ((subPatterns names qs).map fun e => (e.1, e.2.nested)) ρ b =
          Phrase.readsFields r force names ps ρ b
  | [], qs, h, _, names, _ => by
    intro ρ b
    cases h
    cases names <;> simp [Phrase.readsFields, Test.matchFields]
  | p :: rest, qs, h, hfit, [], hlen => by simp at hlen
  | p :: rest, qs, h, hfit, name :: names, hlen => by
    intro ρ b
    obtain ⟨q, hq, h⟩ := bind_eq_ok.mp h
    obtain ⟨qs', hqs, h⟩ := bind_eq_ok.mp h
    cases h
    simp only [Phrase.fitAll, Bool.and_eq_true] at hfit
    have hrest := matchFields_of_ofPhrases hr rest hqs hfit.2 names (by simpa using hlen)
    rw [subPatterns_cons, isWildcard_of_ofPhrase hq, Phrase.readsFields]
    cases hw : p.isWildcard with
    | true => simpa using hrest ρ b
    | false =>
      simp only [Bool.false_eq_true, if_false, List.singleton_append, List.map_cons,
        Test.matchFields]
      refine bind_congr fun s => ?_
      cases s.field? ρ name with
      | none => rfl
      | some v =>
        -- Forcing in place comes before the sub-test, as in the reading.
        have hq' := matches_of_ofPhrase hr p hq hfit.1
        cases hd : p.asksLazy r with
        | true =>
          simp only [Pattern.nested_of_demands ((demands_of_ofPhrase p hq).trans hd), Test.matches,
            bind_assoc, if_true]
          refine bind_congr fun w => ?_
          rw [hq']
          refine bind_congr fun o => ?_
          cases o with
          | none => rfl
          | some b' => exact hrest ρ b'
        | false =>
          simp only [Pattern.nested_of_not_demands ((demands_of_ofPhrase p hq).trans hd), hq',
            Bool.false_eq_true, if_false, pure_bind]
          refine bind_congr fun o => ?_
          cases o with
          | none => rfl
          | some b' => exact hrest ρ b'

/-- Alternatives match as they read. -/
theorem matchFirst_of_ofPhrases (hr : r.DistinctFields) :
    ∀ (ps : List Phrase) {qs : List Pattern}, Pattern.ofPhrases r.resolver ps = .ok qs →
      Phrase.fitAll r ps = true → ∀ (v : Value) (b : Bindings),
        Test.matchFirst force (Pattern.tests qs) v b = Phrase.readsFirst r force ps v b
  | [], qs, h, _ => by
    intro v b
    cases h
    simp [Pattern.tests, Test.matchFirst, Phrase.readsFirst]
  | p :: rest, qs, h, hfit => by
    intro v b
    obtain ⟨q, hq, h⟩ := bind_eq_ok.mp h
    obtain ⟨qs', hqs, h⟩ := bind_eq_ok.mp h
    cases h
    simp only [Phrase.fitAll, Bool.and_eq_true] at hfit
    rw [Pattern.tests, Test.matchFirst, Phrase.readsFirst, matches_of_ofPhrase hr p hq hfit.1]
    refine bind_congr fun o => ?_
    cases o with
    | none => exact matchFirst_of_ofPhrases hr rest hqs hfit.2 v b
    | some b' => rfl

end

/-! ### Rows and rules -/

/-- Whether no structured form in a row has more parts than its constructor has fields. -/
def RuleRow.fits (r : Registry) (row : RuleRow) : Bool :=
  row.rows.all fun plain => Phrase.fitAll r plain.cells

theorem matchVector_of_ofPhrases (hr : r.DistinctFields) {cells : List Phrase} {qs : List Pattern}
    (hqs : Pattern.ofPhrases r.resolver cells = .ok qs) (hfit : Phrase.fitAll r cells = true)
    (values : List Value) (b : Bindings) :
    matchVector force (qs.map Pattern.test) values b = readsCells r force cells values b := by
  induction cells generalizing qs values b with
  | nil =>
    cases hqs
    simp [matchVector, readsCells]
  | cons p cells ih =>
    obtain ⟨q, hq, hqs⟩ := bind_eq_ok.mp hqs
    obtain ⟨qs', hqs', h⟩ := bind_eq_ok.mp hqs
    cases h
    simp only [Phrase.fitAll, Bool.and_eq_true] at hfit
    cases values with
    | nil => simp [matchVector, readsCells]
    | cons v values =>
      rw [List.map_cons, matchVector, readsCells, matches_of_ofPhrase force hr p hq hfit.1]
      refine bind_congr fun o => ?_
      cases o with
      | none => rfl
      | some b' => exact ih hqs' hfit.2 values b'

theorem matchGroup_of_ofPhrases (hr : r.DistinctFields) {plains : List Row}
    {rows : List (List Pattern)}
    (h : List.Forall₂ (fun plain qs => Pattern.ofPhrases r.resolver plain.cells = .ok qs)
      plains rows)
    (hfit : ∀ plain ∈ plains, Phrase.fitAll r plain.cells = true) (values : List Value) :
    matchGroup force values (rows.map (·.map Pattern.test)) = readsGroup r force values plains := by
  induction h with
  | nil => rfl
  | cons hqs _ ih =>
    rw [List.map_cons, matchGroup, readsGroup,
      matchVector_of_ofPhrases force hr hqs (hfit _ List.mem_cons_self)]
    refine bind_congr fun o => ?_
    cases o with
    | none => exact ih fun plain hplain => hfit plain (List.mem_cons_of_mem _ hplain)
    | some b => rfl

/-- The test of a resolved row matches as the row reads. -/
theorem matches_of_ofRow (hr : r.DistinctFields) {rule : RuleRow} {row : PatternRow}
    (h : PatternRow.ofRow r.resolver rule = .ok row) (hfit : rule.fits r = true)
    (values : List Value) : row.test.matches force values = rule.reads r force values := by
  have hrows := rows_of_ofRow h
  rw [RuleRow.fits, List.all_eq_true] at hfit
  cases rule with
  | row plain =>
    obtain ⟨qs, hqs, rfl⟩ := map_eq_ok.mp h
    exact matchVector_of_ofPhrases force hr hqs (hfit plain (by simp [RuleRow.rows])) values []
  | group stamp first rest =>
    simp only [PatternRow.ofRow, bind_eq_ok] at h
    obtain ⟨rows, _, _, _, h⟩ := h
    cases h
    exact matchGroup_of_ofPhrases force hr hrows hfit values
  | otherwise =>
    cases h
    rfl

/-- How a reading concludes: with the answer, or by saying that no rule matches. -/
def Reading.conclude (name : String) : Reading → Run Value
  | .answer v => return v
  | .unmatched values => do throw ((← get).noMatch name values)

/-- Trying the tests of rules in order is reading the rules in order. -/
theorem matchRows_of_ofRow (hr : r.DistinctFields) {α β : Type} {rules : List (Rule α)}
    {rows : List PatternRow}
    (h : List.Forall₂ (fun rule row => PatternRow.ofRow r.resolver rule.row = .ok row) rules rows)
    (hfit : ∀ rule ∈ rules, rule.row.fits r = true) (handler : α → β)
    (act : β → Bindings → Run Value) (name : String) (values : List Value) :
    matchRows force act name
        ((rows.zip rules).map fun (row, rule) => ⟨row.test, handler rule.action⟩) values =
      readInOrder r force (fun a => act (handler a)) values rules >>= Reading.conclude name := by
  induction h with
  | nil => simp [matchRows, select, readInOrder, Reading.conclude]
  | cons hrow _ ih =>
    have hrest := ih fun rule hrule => hfit rule (List.mem_cons_of_mem _ hrule)
    simp only [matchRows] at hrest
    simp only [List.zip_cons_cons, List.map_cons, matchRows, select, readInOrder,
      matches_of_ofRow force hr hrow (hfit _ List.mem_cons_self), bind_assoc]
    refine bind_congr fun b => ?_
    cases b with
    | none => exact hrest
    | some b => simp [Reading.conclude]

end Matching

/-! ### Arguments -/

theorem any_demands_of_ofPhrases {r : Registry} {plains : List Row} {rows : List (List Pattern)}
    (h : List.Forall₂ (fun plain qs => Pattern.ofPhrases r.resolver plain.cells = .ok qs)
      plains rows) (i : ℕ) :
    (rows.any fun cells => (cells[i]?).any Pattern.demands) =
      plains.any fun plain => (plain.cells[i]?).any (·.asksLazy r) := by
  induction h with
  | nil => rfl
  | @cons plain cells _ _ hcells _ ih =>
    rw [List.any_cons, List.any_cons, ih]
    congr 1
    have hps := ofPhrases_eq_ok.mp hcells
    cases hp : plain.cells[i]? with
    | none =>
      rw [List.getElem?_eq_none_iff, hps.length_eq, ← List.getElem?_eq_none_iff] at hp
      rw [hp]
      rfl
    | some p =>
      obtain ⟨hi, rfl⟩ := List.getElem?_eq_some_iff.mp hp
      have hi' : i < cells.length := hps.length_eq ▸ hi
      rw [List.getElem?_eq_getElem hi', Option.any_some, Option.any_some]
      exact demands_of_ofPhrase _ (hps.get hi hi')

/-- A column is in demand when some row asks for a lazy constructor there. -/
theorem demandOf_eq_asksLazyAt {α : Type} {r : Registry} {rules : List (Rule α)}
    {rows : List PatternRow}
    (h : List.Forall₂ (fun rule row => PatternRow.ofRow r.resolver rule.row = .ok row) rules rows)
    (arity : ℕ) :
    demandOf (plainRows rows) arity = (List.range arity).map (asksLazyAt r rules) := by
  refine List.map_congr_left fun i _ => ?_
  induction h with
  | nil => rfl
  | cons hrow _ ih =>
    simp only [asksLazyAt, plainRows, List.flatMap_cons, List.any_append, List.any_cons] at ih ⊢
    rw [ih, any_demands_of_ofPhrases (rows_of_ofRow hrow)]

theorem forceWhere_map_range' (force : Value → Run Value) (f : ℕ → Bool) (args : List Value)
    (k : ℕ) :
    forceWhere force ((List.range' k args.length).map f) args =
      (args.zipIdx k).mapM fun (v, i) => if f i then force v else pure v := by
  induction args generalizing k with
  | nil => simp [forceWhere]
  | cons v args ih =>
    simp only [List.length_cons, List.range'_succ, List.map_cons, forceWhere, List.zipIdx_cons,
      List.mapM_cons, ih]
    split <;> rfl

/-! ### The compiled function -/

/-- Dispatch goes through the rules as they read, whatever forcing and the actions do. -/
theorem dispatch_eq_readRules {r : Registry} (hr : r.DistinctFields) {name : String}
    {rules : List (Rule Value)} {c : Compiled Value}
    (hc : Compiled.ofRules r.resolver name rules = .ok c)
    (hfit : ∀ rule ∈ rules, rule.row.fits r = true) (lazy : Bool) {args : List Value}
    (hargs : args.length = (Function.ofCompiled name lazy c).arity) (force : Value → Run Value)
    (act : Handler → Bindings → Run Value) :
    (Function.ofCompiled name lazy c).dispatch force act args =
      readRules r force (fun v => act (.ofAction lazy v)) rules args >>= Reading.conclude name := by
  obtain ⟨rows, arity, h⟩ := Compiled.exists_of_ofRules hc
  rw [h.arity_ofCompiled] at hargs
  have hplan := h.run_plan force hargs
  rw [demandOf_eq_asksLazyAt h.resolved, ← hargs, List.range_eq_range',
    forceWhere_map_range'] at hplan
  simp only [Function.dispatch, Function.ofCompiled, readRules, hplan, h.tests, List.map_map,
    bind_assoc]
  refine bind_congr fun values => ?_
  exact matchRows_of_ofRow force hr h.resolved hfit (Handler.ofAction lazy) act name values

/-- What is said when no rule matches. -/
theorem Store.unmatched_noMatch (s : Store) (name : String) (values : List Value) :
    Unmatched s name values (s.noMatch name values) := by
  rw [Store.noMatch]
  cases htags : values.mapM s.summary with
  | error stop =>
    obtain ⟨before, v, after, hvalues, hbefore, hv⟩ := mapM_eq_error.mp htags
    exact .unwritten hvalues hbefore hv
  | ok tags =>
    dsimp only
    have htags := mapM_eq_ok.mp htags
    cases htexts : tags.mapM Value.text? with
    | some texts =>
      obtain rfl := Value.mapM_text?_eq_some.mp htexts
      rw [List.forall₂_map_right_iff] at htags
      exact .told htags
    | none =>
      obtain ⟨tag, htag, htext⟩ := mapM_eq_none.mp htexts
      obtain ⟨i, hi, rfl⟩ := List.getElem_of_mem htag
      refine .untold (fun u hu => ?_) (List.getElem_mem _)
        (htags.get (htags.length_eq ▸ hi) hi) fun text h => ?_
      · obtain ⟨k, hk, rfl⟩ := List.getElem_of_mem hu
        exact ⟨_, htags.get hk (htags.length_eq ▸ hk)⟩
      · cases (Value.text?_eq_some.mpr h).symm.trans htext

/-- What a reading concludes with is its outcome. -/
theorem Reading.follows_conclude (name : String) (read : Run Reading) (s : Store) :
    Reading.Follows name (outcome read s) (outcome (read >>= Reading.conclude name) s) := by
  rw [outcome_bind]
  rcases outcome read s with ⟨stop | v | values, s'⟩
  · rfl
  · rfl
  · exact ⟨_, s'.unmatched_noMatch name values, rfl⟩

/-- A call of a function dispatches it with one unit of fuel less. -/
theorem outcome_call_function {env : Env} {fuel : ℕ} {s : Store} {f : FunctionRef}
    {function : Function} {args : List Value} (hf : s.function f = function)
    (hlazy : function.lazy = false) (hargs : args.length = function.arity) :
    outcome (perform env (fuel + 2) (.call (.function f) args)) s =
      outcome (function.dispatch (env.force fuel) (fun h b => perform env fuel (.handle h b))
        args) s := by
  subst hf
  have hcall : outcome (perform env (fuel + 2) (.call (.function f) args)) s =
      outcome (perform env (fuel + 1) (.dispatch f args)) s := by
    rw [perform, step, call, outcome_get_bind, if_pos hargs, if_neg (by simp [hlazy])]
  rw [hcall, perform, step, outcome_get_bind]
  rfl

/-- **A compiled function does what its rules say.** Under distinct field names and without surplus
parts in structured forms, dispatch has the outcome of the reading of the rules, whatever forcing
and running an action do, so they are done to the same values in the same order; and so has a call.
When no rule matches, the fault says so, unless a value has no text to be told by. -/
theorem call_follows_readRules {r : Registry} (hr : r.DistinctFields) {name : String}
    {rules : List (Rule Value)} {c : Compiled Value}
    (hc : Compiled.ofRules r.resolver name rules = .ok c)
    (hfit : ∀ rule ∈ rules, rule.row.fits r = true) {args : List Value}
    (hargs : args.length = (Function.ofCompiled name false c).arity) :
    (∀ (lazy : Bool) (force : Value → Run Value) (act : Handler → Bindings → Run Value) (s : Store),
      Reading.Follows name
        (outcome (readRules r force (fun v => act (.ofAction lazy v)) rules args) s)
        (outcome ((Function.ofCompiled name lazy c).dispatch force act args) s)) ∧
    ∀ (env : Env) (fuel : ℕ) (s : Store) (f : FunctionRef),
      s.function f = Function.ofCompiled name false c →
      Reading.Follows name
        (outcome (readRules r (env.force fuel)
          (fun v b => perform env fuel (.handle (.adapted v) b)) rules args) s)
        (outcome (perform env (fuel + 2) (.call (.function f) args)) s) := by
  have hread : ∀ lazy force act s,
      Reading.Follows name
        (outcome (readRules r force (fun v => act (.ofAction lazy v)) rules args) s)
        (outcome ((Function.ofCompiled name lazy c).dispatch force act args) s) := by
    intro lazy force act s
    rw [dispatch_eq_readRules hr hc hfit lazy hargs]
    exact Reading.follows_conclude name _ s
  refine ⟨hread, fun env fuel s f hf => ?_⟩
  rw [outcome_call_function hf rfl hargs]
  exact hread false (env.force fuel) (fun h b => perform env fuel (.handle h b)) s

/-- Streams, lazy throughout. -/
def streams : Registry :=
  Registry.empty.enter
    ⟨"Stream", [("Nil", ⟨"Stream", "Nil", true, .constant⟩),
      ("Cons", ⟨"Stream", "Cons", true, .factory ["head", "tail"]⟩)]⟩

/-- Whether a stream has exactly one element, unless the number in front of it is zero. -/
def singletonRules : List (Rule Value) :=
  [⟨.row (.mk 1 [.literal 2 (.int 0), .name 3 "_"]), .bool false⟩,
    ⟨.row (.mk 4 [.name 5 "n", .compound 6 ⟨10, "Cons"⟩
      [.name 7 "h", .named 8 (.name 9 "Nil") ⟨11, "t"⟩]]), .bool true⟩]

/-- A store with the function of the rules and the lazy stream of the element seven. -/
def singletonStore (c : Compiled Value) : Store where
  records := #[[(.text "", .text "Stream.Nil")],
    [(.text "head", .int 7), (.text "tail", .thunk ⟨0⟩), (.text "", .text "Stream.Cons")]]
  thunks := #[.pending (.constant ⟨0⟩), .pending (.variant ⟨1⟩)]
  functions := #[Function.ofCompiled "singleton" false c]

theorem distinctFields_streams : streams.DistinctFields := fun _ _ =>
  Registry.forall_resolve? (r := streams) (P := (·.fields.Nodup)) (by decide) (by decide)

/-- A rule for the number zero. -/
def zeroRules : List (Rule Value) := [⟨.row (.mk 1 [.literal 2 (.int 0)]), .int 1⟩]

/-- A store with the function of that rule and a record that is tagged by a number. -/
def misTaggedStore (c : Compiled Value) : Store where
  records := #[[(.text "", .int 5)]]
  functions := #[Function.ofCompiled "zero" false c]

/-- The rules are read as they are compiled, and the second one answers. Where no rule matches a
record that is tagged by a number, there is no saying so. -/
theorem call_follows_readRules_singleton :
    (∃ c, Compiled.ofRules streams.resolver "singleton" singletonRules = .ok c ∧
      Reading.Follows "singleton"
        (outcome (readRules streams (Env.force {} 5)
          (fun v b => perform {} 5 (.handle (.adapted v) b)) singletonRules [.int 3, .thunk ⟨1⟩])
          (singletonStore c))
        (outcome (perform {} 7 (.call (.function ⟨0⟩) [.int 3, .thunk ⟨1⟩])) (singletonStore c)) ∧
      (outcome (perform {} 7 (.call (.function ⟨0⟩) [.int 3, .thunk ⟨1⟩]))
        (singletonStore c)).1.toOption = some (.bool true)) ∧
    ∃ c, Compiled.ofRules streams.resolver "zero" zeroRules = .ok c ∧
      Reading.Follows "zero"
        (outcome (readRules streams (Env.force {} 5)
          (fun v b => perform {} 5 (.handle (.adapted v) b)) zeroRules [.record ⟨0⟩])
          (misTaggedStore c))
        (outcome (perform {} 7 (.call (.function ⟨0⟩) [.record ⟨0⟩])) (misTaggedStore c)) ∧
      outcome (perform {} 7 (.call (.function ⟨0⟩) [.record ⟨0⟩])) (misTaggedStore c) =
        (.error (.fault .wrongType), misTaggedStore c) :=
  ⟨⟨_, rfl,
    (call_follows_readRules distinctFields_streams rfl (by decide) rfl).2 {} 5 _ ⟨0⟩ rfl,
    by decide +kernel⟩,
  ⟨_, rfl,
    (call_follows_readRules distinctFields_streams rfl (by decide) rfl).2 {} 5 _ ⟨0⟩ rfl, rfl⟩⟩

end LazyMatch
