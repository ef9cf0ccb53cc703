import LazyMatch.Proofs.Tree
import Mathlib.Data.Option.Basic

/-!
# Matching, seen on trees

On trees nothing is deferred, so what a test asks has an answer that does not depend on laziness:
`Test.accepts`. Matching a value that represents a tree gives that answer, provided that the test is
guarded: a test for the tag of a lazy constructor must only be put to what has been forced. The
tests of patterns are guarded, since a pattern that names a lazy constructor demands its position.

* `Test.accepts`, `RowTest.accepts`, `acceptRows`: what tests answer on trees;
* `accepts_relax`: forcing makes no difference there;
* `guarded_of_ofPhrase`: the test of a pattern is guarded when its position is forced on demand;
* `answers_matches`, `answers_select`: matching values answers as on the trees they represent.
-/

namespace LazyMatch

/-! ### Literals -/

mutual

/-- Whether a value holds no record and nothing deferred, however deep. -/
def Value.isGround : Value → Bool
  | .record _ | .thunk _ => false
  | .list _ items | .tuple _ items | .noted _ items => Value.areGround items
  | .phrase p => p.isGround
  | _ => true

/-- Whether this holds of several values. -/
def Value.areGround : List Value → Bool
  | [] => true
  | v :: rest => v.isGround && Value.areGround rest

/-- Whether no literal in a phrase holds a record or anything deferred. -/
def Phrase.isGround : Phrase → Bool
  | .name _ _ | .otherwise => true
  | .literal _ v | .defer _ v => v.isGround
  | .compound _ _ ps | .either _ ps => Phrase.areGround ps
  | .named _ inner _ => inner.isGround
  | .row r => r.isGround
  | .group _ first rest => first.isGround && Row.areGround rest

/-- Whether this holds of several phrases. -/
def Phrase.areGround : List Phrase → Bool
  | [] => true
  | p :: rest => p.isGround && Phrase.areGround rest

/-- Whether this holds of the cells of a row. -/
def Row.isGround : Row → Bool
  | .mk _ cells => Phrase.areGround cells

/-- Whether this holds of several rows. -/
def Row.areGround : List Row → Bool
  | [] => true
  | r :: rest => r.isGround && Row.areGround rest

end

/-- Whether no literal in a rule holds a record or anything deferred. -/
def RuleRow.isGround (row : RuleRow) : Bool := row.phrase.isGround

/-- A comparison that may be decided beforehand has an answer when the rest of it has. -/
theorem exists_answer_ite {records : Type} {p : Prop} [Decidable p] (decided : Bool)
    {x : records → Option Bool} (h : ∃ answer, ∀ r, x r = some answer) :
    ∃ answer, ∀ r, (if p then some decided else x r) = some answer := by
  by_cases hp : p
  · exact ⟨decided, fun _ => if_pos hp⟩
  · simpa only [if_neg hp] using h

mutual

/-- Comparing with what holds no record has an answer, whatever the equality of records is. -/
theorem equalWith_of_isGround : ∀ (w v : Value), w.isGround = true →
    ∃ answer, ∀ records, Value.equalWith records v w = some answer
  | .list _ ys, v, h => by
    cases v with
    | list s xs =>
      exact exists_answer_ite true (exists_answer_ite false (equalAllWith_of_areGround ys xs h))
    | _ => exact ⟨_, fun _ => rfl⟩
  | .tuple _ ys, v, h => by
    cases v with
    | tuple s xs => exact exists_answer_ite true (equalAllWith_of_areGround ys xs h)
    | _ => exact ⟨_, fun _ => rfl⟩
  | .noted _ ys, v, h => by
    cases v with
    | noted s xs => exact exists_answer_ite true (equalAllWith_of_areGround ys xs h)
    | _ => exact ⟨_, fun _ => rfl⟩
  | .null, v, _ | .bool _, v, _ | .int _, v, _ | .float _ _, v, _ | .text _, v, _
  | .constructor _, v, _ | .function _, v, _ | .closure _, v, _ | .datatype _, v, _
  | .operation _ _ _, v, _ | .phrase _, v, _ | .visit _, v, _ | .kind _, v, _ | .rebuilder _, v, _
  | .object _, v, _ | .undecided, v, _ => by
    cases v <;> exact ⟨_, fun _ => rfl⟩

theorem equalAllWith_of_areGround : ∀ (ws vs : List Value), Value.areGround ws = true →
    ∃ answer, ∀ records, Value.equalAllWith records vs ws = some answer
  | [], vs, _ => by cases vs <;> exact ⟨_, fun _ => rfl⟩
  | w :: ws, [], _ => ⟨_, fun _ => rfl⟩
  | w :: ws, v :: vs, h => by
    rw [Value.areGround, Bool.and_eq_true] at h
    obtain ⟨first, hfirst⟩ : ∃ first, ∀ records,
        (if v.same w then some true else Value.equalWith records v w) = some first :=
      exists_answer_ite true (equalWith_of_isGround w v h.1)
    obtain ⟨rest, hrest⟩ := equalAllWith_of_areGround ws vs h.2
    cases first with
    | false => exact ⟨false, fun records => by simp [Value.equalAllWith, hfirst]⟩
    | true => exact ⟨rest, fun records => by simp [Value.equalAllWith, hfirst, hrest]⟩

end

theorem Value.isAtom_eq_false_iff {v : Value} :
    v.isAtom = false ↔ (∃ r, v = .record r) ∨ ∃ t, v = .thunk t := by
  cases v <;> simp [Value.isAtom]

/-- Records and deferred values have an identity of their own. -/
theorem equalWith_of_not_isAtom {v w : Value} (hv : v.isAtom = false) (hw : w.isAtom = true)
    (records : RecordRef → RecordRef → Option Bool) :
    Value.equalWith records v w = some false := by
  rcases Value.isAtom_eq_false_iff.mp hv with ⟨r, rfl⟩ | ⟨t, rfl⟩
  · cases w with
    | record q => cases hw
    | tuple stamp items => cases items <;> rfl
    | phrase p => rcases p with _ | _ | _ | _ | _ | _ | ⟨⟨_, _⟩⟩ | _ | _ <;> rfl
    | _ => rfl
  · cases w with
    | thunk t' => cases hw
    | tuple stamp items => cases items <;> rfl
    | phrase p => rcases p with _ | _ | _ | _ | _ | _ | ⟨⟨_, _⟩⟩ | _ | _ <;> rfl
    | _ => rfl

theorem Value.isAtom_of_isGround {w : Value} (h : w.isGround = true) : w.isAtom = true := by
  by_contra hw
  rcases Value.isAtom_eq_false_iff.mp (by simpa using hw) with ⟨r, rfl⟩ | ⟨t, rfl⟩ <;> cases h

/-! ### What tests answer on trees -/

namespace Tree

/-- The tag of a tree: the text under the empty name. -/
def tag? : Tree → Option String
  | .atom _ => none
  | .record trees =>
    match Table.get? trees "" with
    | some (.atom (.text key)) => some key
    | _ => none

/-- The tree under a name. -/
def field? : Tree → String → Option Tree
  | .atom _, _ => none
  | .record trees, name => Table.get? trees name

/-- Whether a tree equals a literal, which is never a record. -/
def equals : Tree → Value → Bool
  | .atom a, w => a.equalWith (fun _ _ => none) w = some true
  | .record _, _ => false

end Tree

mutual

/-- Put a test to a tree, adding to the bindings; `none` when it does not match. -/
def Test.accepts : Test → Tree → Table Tree → Option (Table Tree)
  | .wild, _, b => some b
  | .bind name, tree, b => some (b.put name tree)
  | .equal w, tree, b => if tree.equals w then some b else none
  | .tag key, tree, b => if tree.tag? = some key then some b else none
  | .fields key subs, tree, b =>
    if tree.tag? = some key then Test.acceptFields subs tree b else none
  | .named inner name, tree, b => (inner.accepts tree b).map (·.put name tree)
  | .either options, tree, b => Test.acceptFirst options tree b
  | .strict inner, tree, b => inner.accepts tree b

/-- Put tests to the fields of a tree, in order. -/
def Test.acceptFields : List (String × Test) → Tree → Table Tree → Option (Table Tree)
  | [], _, b => some b
  | (name, sub) :: rest, tree, b =>
    match tree.field? name with
    | none => none
    | some t =>
      match sub.accepts t b with
      | none => none
      | some b => Test.acceptFields rest tree b

/-- The bindings of the first option that accepts. -/
def Test.acceptFirst : List Test → Tree → Table Tree → Option (Table Tree)
  | [], _, _ => none
  | t :: rest, tree, b =>
    match t.accepts tree b with
    | none => Test.acceptFirst rest tree b
    | some b => some b

end

/-- Put tests to trees, position by position. -/
def acceptVector : List Test → List Tree → Table Tree → Option (Table Tree)
  | t :: tests, tree :: trees, b =>
    match t.accepts tree b with
    | none => none
    | some b => acceptVector tests trees b
  | _, _, b => some b

/-- The bindings of the first of several rows that accepts. -/
def acceptGroup (trees : List Tree) : List (List Test) → Option (Table Tree)
  | [] => none
  | tests :: rest =>
    match acceptVector tests trees [] with
    | none => acceptGroup trees rest
    | some b => some b

/-- Put a row to trees. -/
def RowTest.accepts (trees : List Tree) : RowTest → Option (Table Tree)
  | .row tests => acceptVector tests trees []
  | .group alternatives => acceptGroup trees alternatives
  | .otherwise => some []

/-- The action of the first row that accepts, with its bindings. -/
def acceptRows {α : Type} (trees : List Tree) : List (TestRow α) → Option (α × Table Tree)
  | [] => none
  | row :: rest =>
    match row.test.accepts trees with
    | none => acceptRows trees rest
    | some b => some (row.action, b)

/-! ### Forcing makes no difference on trees -/

mutual

theorem accepts_relax : ∀ (t : Test) (tree : Tree) (b : Table Tree),
    t.relax.accepts tree b = t.accepts tree b
  | .wild, _, _ | .bind _, _, _ | .equal _, _, _ | .tag _, _, _ => rfl
  | .fields key subs, tree, b => by
    rw [Test.relax, Test.accepts, Test.accepts, acceptFields_relax subs]
  | .named inner name, tree, b => by
    rw [Test.relax, Test.accepts, Test.accepts, accepts_relax inner]
  | .either options, tree, b => by
    rw [Test.relax, Test.accepts, Test.accepts, acceptFirst_relax options]
  | .strict inner, tree, b => by
    rw [Test.relax, Test.accepts, accepts_relax inner]

theorem acceptFields_relax : ∀ (subs : List (String × Test)) (tree : Tree) (b : Table Tree),
    Test.acceptFields (Test.relaxFields subs) tree b = Test.acceptFields subs tree b
  | [], _, _ => rfl
  | (name, sub) :: rest, tree, b => by
    simp only [Test.relaxFields, Test.acceptFields, accepts_relax sub, acceptFields_relax rest]

theorem acceptFirst_relax : ∀ (options : List Test) (tree : Tree) (b : Table Tree),
    Test.acceptFirst (Test.relaxAll options) tree b = Test.acceptFirst options tree b
  | [], _, _ => rfl
  | t :: rest, tree, b => by
    simp only [Test.relaxAll, Test.acceptFirst, accepts_relax t, acceptFirst_relax rest]

end

theorem acceptVector_relax (tests : List Test) (trees : List Tree) (b : Table Tree) :
    acceptVector (tests.map Test.relax) trees b = acceptVector tests trees b := by
  induction tests generalizing trees b with
  | nil => cases trees <;> rfl
  | cons t tests ih =>
    cases trees with
    | nil => rfl
    | cons tree trees => simp only [List.map_cons, acceptVector, accepts_relax, ih]

theorem acceptGroup_relax (trees : List Tree) (alternatives : List (List Test)) :
    acceptGroup trees (alternatives.map (·.map Test.relax)) = acceptGroup trees alternatives := by
  induction alternatives with
  | nil => rfl
  | cons tests rest ih => simp only [List.map_cons, acceptGroup, acceptVector_relax, ih]

theorem RowTest.accepts_relax (trees : List Tree) (row : RowTest) :
    row.relax.accepts trees = row.accepts trees := by
  cases row with
  | row tests => exact acceptVector_relax tests trees []
  | group alternatives => exact acceptGroup_relax trees alternatives
  | otherwise => rfl

theorem acceptRows_relax {α : Type} (trees : List Tree) (rows : List (TestRow α)) :
    acceptRows trees (rows.map fun row => ⟨row.test.relax, row.action⟩) =
      acceptRows trees rows := by
  induction rows with
  | nil => rfl
  | cons row rest ih => simp only [List.map_cons, acceptRows, RowTest.accepts_relax, ih]

/-! ### Guarded tests -/

mutual

/-- Whether a test can be put to a value, forced already or not: the tags of lazy constructors are
only looked for in what is forced, fields only in the records of their constructor, and literals
hold no record. -/
def Test.Guarded (reg : Registry) : Test → Bool → Prop
  | .wild, _ | .bind _, _ => True
  | .equal w, _ => w.isGround = true
  | .tag key, forced =>
    ∃ c, reg.Declares c ∧ c.key = key ∧ (c.lazy = true → forced = true)
  | .fields key subs, forced =>
    (∃ c, reg.Declares c ∧ c.key = key ∧ (c.lazy = true → forced = true) ∧
      ∀ e ∈ subs, e.1 ∈ c.fields) ∧ Test.GuardedFields reg subs
  | .named inner _, forced => inner.Guarded reg forced
  | .either options, forced => Test.GuardedAll reg options forced
  | .strict inner, _ => inner.Guarded reg true

/-- Whether the tests of fields are guarded; a field is not forced beforehand. -/
def Test.GuardedFields (reg : Registry) : List (String × Test) → Prop
  | [] => True
  | (_, t) :: rest => t.Guarded reg false ∧ Test.GuardedFields reg rest

/-- Whether all options are guarded. -/
def Test.GuardedAll (reg : Registry) : List Test → Bool → Prop
  | [], _ => True
  | t :: rest, forced => t.Guarded reg forced ∧ Test.GuardedAll reg rest forced

end

section Guarded

variable {reg : Registry}

theorem Test.guardedFields_iff {subs : List (String × Test)} :
    Test.GuardedFields reg subs ↔ ∀ e ∈ subs, e.2.Guarded reg false := by
  induction subs with
  | nil => simp [Test.GuardedFields]
  | cons e subs ih => simp [Test.GuardedFields, ih]

theorem Test.guardedAll_iff {tests : List Test} {forced : Bool} :
    Test.GuardedAll reg tests forced ↔ ∀ t ∈ tests, t.Guarded reg forced := by
  induction tests with
  | nil => simp [Test.GuardedAll]
  | cons t tests ih => simp [Test.GuardedAll, ih]

theorem Test.guarded_ofValue {v : Value} (h : v.isGround = true) (forced : Bool) :
    (Test.ofValue v).Guarded reg forced := by
  unfold Test.ofValue
  split
  · split <;> trivial
  · exact h
  · exact h

theorem Test.guarded_verbatim {token : Phrase} (h : token.isGround = true) (forced : Bool) :
    (Pattern.verbatim token).test.Guarded reg forced :=
  Test.guarded_ofValue (v := .phrase token) h forced

/-- The tests of sub-patterns are guarded, since those that demand are forced in place. -/
theorem Test.guardedFields_testFields {names : List String} {ps : List Pattern}
    (h : ∀ p ∈ ps, ∀ forced, (p.demands = true → forced = true) → p.test.Guarded reg forced) :
    Test.GuardedFields reg (Pattern.testFields names ps []) := by
  rw [Pattern.testFields_eq_map, Test.guardedFields_iff]
  intro e he
  obtain ⟨⟨name, p⟩, hp, rfl⟩ := List.mem_map.mp he
  have hmem : p ∈ ps := (List.of_mem_zip (mem_zip_of_mem_fieldPatterns hp)).2
  cases hd : p.demands with
  | true =>
    rw [Pattern.nested_of_demands hd]
    exact h p hmem true fun _ => rfl
  | false =>
    rw [Pattern.nested_of_not_demands hd]
    exact h p hmem false fun hd' => absurd hd' (by simp [hd])

theorem mem_fields_of_mem_testFields {names : List String} {ps : List Pattern}
    {e : String × Test} (he : e ∈ Pattern.testFields names ps []) : e.1 ∈ names := by
  rw [Pattern.testFields_eq_map] at he
  obtain ⟨⟨name, p⟩, hp, rfl⟩ := List.mem_map.mp he
  exact (List.of_mem_zip (mem_zip_of_mem_fieldPatterns hp)).1

mutual

/-- The test of a pattern is guarded, provided that its position is forced when it demands. -/
theorem guarded_of_ofPhrase :
    ∀ (p : Phrase) {q : Pattern}, Pattern.ofPhrase reg.resolver p = .ok q → p.isGround = true →
      ∀ forced, (q.demands = true → forced = true) → q.test.Guarded reg forced
  | .name stamp text, q, h, _, forced, hforced => by
    rcases ofPhrase_name h with ⟨_, rfl⟩ | ⟨_, _, rfl⟩ | ⟨c, _, hc, _, rfl⟩ | ⟨c, _, hc, _, rfl⟩
    · trivial
    · exact Test.guarded_ofValue rfl forced
    · exact ⟨c, ⟨text, hc⟩, rfl, hforced⟩
    · exact ⟨⟨c, ⟨text, hc⟩, rfl, hforced, fun _ he => mem_fields_of_mem_testFields he⟩,
        Test.guardedFields_testFields (by simp)⟩
  | .compound stamp head fields, q, h, hground, forced, hforced => by
    obtain ⟨c, hc, ⟨_, _, rfl⟩ | ⟨_, qs, hqs, rfl⟩⟩ := ofPhrase_compound h
    · exact ⟨c, ⟨head, hc⟩, rfl, hforced⟩
    · exact ⟨⟨c, ⟨head, hc⟩, rfl, hforced, fun _ he => mem_fields_of_mem_testFields he⟩,
        Test.guardedFields_testFields (guarded_of_ofPhrases fields hqs hground)⟩
  | .named stamp inner name, q, h, hground, forced, hforced => by
    obtain ⟨q', hq', rfl⟩ := map_eq_ok.mp h
    exact guarded_of_ofPhrase inner hq' hground forced hforced
  | .either stamp alternatives, q, h, hground, forced, hforced => by
    obtain ⟨qs, hqs, rfl⟩ := ofPhrase_either h
    rw [Pattern.test, Test.Guarded, Pattern.tests_eq, Test.guardedAll_iff]
    intro t ht
    obtain ⟨q, hq, rfl⟩ := List.mem_map.mp ht
    refine guarded_of_ofPhrases alternatives hqs hground q hq forced fun hd => hforced ?_
    rw [Pattern.demands, Pattern.demandsAny_eq]
    exact List.any_eq_true.mpr ⟨q, hq, hd⟩
  | .defer _ _, q, h, hground, forced, _ => by
    cases h
    exact Test.guarded_ofValue hground forced
  | .literal _ _, q, h, hground, forced, _ | .row _, q, h, hground, forced, _
  | .group _ _ _, q, h, hground, forced, _ | .otherwise, q, h, hground, forced, _ => by
    cases h
    exact Test.guarded_verbatim hground forced

theorem guarded_of_ofPhrases :
    ∀ (ps : List Phrase) {qs : List Pattern}, Pattern.ofPhrases reg.resolver ps = .ok qs →
      Phrase.areGround ps = true →
      ∀ q ∈ qs, ∀ forced, (q.demands = true → forced = true) → q.test.Guarded reg forced
  | [], qs, h, _ => by
    cases h
    simp
  | p :: rest, qs, h, hground => by
    obtain ⟨q, hq, h⟩ := bind_eq_ok.mp h
    obtain ⟨qs', hqs, h⟩ := bind_eq_ok.mp h
    cases h
    rw [Phrase.areGround, Bool.and_eq_true] at hground
    intro q' hq'
    rcases List.mem_cons.mp hq' with rfl | hq'
    · exact guarded_of_ofPhrase p hq hground.1
    · exact guarded_of_ofPhrases rest hqs hground.2 q' hq'

end

end Guarded

/-! ### What matching answers -/

/-- Whether a computation gives what an answer says, `R` telling how the one is the other in the
store then. The store has only advanced. -/
def Answers {α β : Type} (R : Store → α → β → Prop) (s : Store) (x : Run (Option β))
    (answer : Option α) : Prop :=
  ∃ result s', outcome x s = (.ok result, s') ∧ s.Advances s' ∧ Option.Rel (R s') answer result

section Answers

variable {reg : Registry} {s s' : Store}

theorem Answers.pure_some {α β : Type} {R : Store → α → β → Prop} {a : α} {b : β} (h : R s a b) :
    Answers R s (pure (some b)) (some a) :=
  ⟨some b, s, rfl, .refl s, .some h⟩

theorem Answers.pure_none {α β : Type} {R : Store → α → β → Prop} :
    Answers R s (pure none) none :=
  ⟨none, s, rfl, .refl s, .none⟩

/-- One computation after another: the second starts from what the first answers. -/
theorem Answers.bind {α β γ δ : Type} {R : Store → α → β → Prop} {S : Store → γ → δ → Prop}
    {x : Run (Option β)} {answer : Option α} (h : Answers R s x answer)
    {f : Option β → Run (Option δ)} {g : Option α → Option γ}
    (hnone : ∀ s', s.Advances s' → Answers S s' (f none) (g none))
    (hsome : ∀ s' a b, s.Advances s' → R s' a b → Answers S s' (f (some b)) (g (some a))) :
    Answers S s (x >>= f) (g answer) := by
  obtain ⟨result, s', hx, hs, hrel⟩ := h
  have hrest : Answers S s' (f result) (g answer) := by
    cases hrel with
    | none => exact hnone s' hs
    | some hR => exact hsome s' _ _ hs hR
  obtain ⟨result', s'', hf, hs', hrel'⟩ := hrest
  exact ⟨result', s'', by rw [outcome_bind_ok hx, hf], hs.trans hs', hrel'⟩

theorem Answers.get_bind {α β : Type} {R : Store → α → β → Prop} {f : Store → Run (Option β)}
    {answer : Option α} (h : Answers R s (f s) answer) : Answers R s (get >>= f) answer := h

/-- What runs before must answer and advance the store. -/
theorem Answers.after {α β γ : Type} {R : Store → α → β → Prop} {x : Run γ} {c : γ}
    (hx : outcome x s = (.ok c, s')) (hs : s.Advances s') {f : γ → Run (Option β)}
    {answer : Option α} (h : Answers R s' (f c) answer) : Answers R s (x >>= f) answer := by
  obtain ⟨result, s'', hf, hs', hrel⟩ := h
  exact ⟨result, s'', by rw [outcome_bind_ok hx, hf], hs.trans hs', hrel⟩

/-- A literal is compared as on the tree. -/
theorem equal?_of_represents {tree : Tree} {v w : Value} (h : tree.Represents reg s v)
    (hw : w.isGround = true) : s.equal? v w = some (tree.equals w) := by
  have hstore : ∃ records, s.equal? v w = Value.equalWith records v w := by
    unfold Store.equal?
    cases s.records.size * s.records.size with
    | zero => exact ⟨_, rfl⟩
    | succ depth => exact ⟨_, rfl⟩
  obtain ⟨records, hstore⟩ := hstore
  obtain ⟨answer, hanswer⟩ := equalWith_of_isGround w v hw
  rw [hstore, hanswer, Option.some.injEq]
  cases tree with
  | atom a =>
    obtain ⟨rfl, _⟩ := h
    simp [Tree.equals, hanswer]
  | record trees =>
    -- Neither a record nor what is deferred equals anything that holds no record.
    have hv : v.isAtom = false := by
      obtain ⟨c, r, _, _, _, rfl | ⟨_, t, rfl, _⟩, _⟩ := h <;> rfl
    have hdiffer := equalWith_of_not_isAtom hv (Value.isAtom_of_isGround hw) fun _ _ => none
    rw [hanswer, Option.some.injEq] at hdiffer
    exact hdiffer

/-- Looking for the tag of a constructor finds it in the value when it is the tag of the tree. In
what is deferred there is no tag to be found, and then the tree has another one: a constructor is
known by its key, and that of a lazy one is only looked for in what is forced. -/
theorem Tree.Represents.cases_tag (hkeys : reg.DistinctKeys) {c : Constructor}
    (hc : reg.Declares c) {tree : Tree} {v : Value} (h : tree.Represents reg s v)
    (hforced : c.lazy = true → v.isDeferred = false) :
    (s.hasTag v c.key = true ∧ tree.tag? = some c.key ∧
      ∃ trees r, tree = .record trees ∧ v = .record r ∧ c.Makes trees) ∨
    (s.hasTag v c.key = false ∧ tree.tag? ≠ some c.key) := by
  cases tree with
  | atom a =>
    obtain ⟨rfl, ha⟩ := h
    have htag : s.tag v = .null := by
      cases v with
      | record r => cases ha
      | _ => rfl
    exact .inr ⟨by simp [Store.hasTag, htag], by simp [Tree.tag?]⟩
  | record trees =>
    obtain ⟨c', r, hc', hmakes, _, hv, hall⟩ := h
    have htree : (Tree.record trees).tag? = some c'.key := by
      rw [Tree.tag?, hmakes.tag]
    -- With the key of `c` the tree is made by `c` itself, which is then not lazy or forced.
    by_cases hkey : c'.key = c.key
    · obtain rfl := hkeys c' c hc' hc hkey
      obtain ⟨w, hw, rfl, _⟩ := hall.field hmakes.tag
      rcases hv with rfl | ⟨hlazy, t, rfl, _⟩
      · refine .inl ⟨?_, htree, trees, r, rfl, rfl, hmakes⟩
        simp [Store.hasTag, Store.tag, Store.field?, hw]
      · cases hforced hlazy
    · refine .inr ⟨?_, by rw [htree]; simpa using hkey⟩
      obtain ⟨w, hw, rfl, _⟩ := hall.field hmakes.tag
      rcases hv with rfl | ⟨_, t, rfl, _⟩
      · simp [Store.hasTag, Store.tag, Store.field?, hw, hkey]
      · simp [Store.hasTag, Store.tag]

/-- Whether forcing what represents a tree gives what represents the tree and is not deferred. -/
def Forces (reg : Registry) (force : Value → Run Value) : Prop :=
  ∀ {s : Store} {tree : Tree} {v : Value}, tree.Represents reg s v →
    ∃ v' s', outcome (force v) s = (.ok v', s') ∧ s.Advances s' ∧ v'.isDeferred = false ∧
      tree.Represents reg s' v'

variable {force : Value → Run Value}

mutual

/-- Matching a value answers what its test answers on the tree. -/
theorem answers_matches (hkeys : reg.DistinctKeys) (hforce : Forces reg force) :
    ∀ (t : Test) {forced : Bool}, t.Guarded reg forced →
    ∀ {s : Store} {tree : Tree} {v : Value} {trees : Table Tree} {b : Bindings},
      tree.Represents reg s v → (forced = true → v.isDeferred = false) →
      Tree.RepresentsTable reg s trees b →
      Answers (Tree.RepresentsTable reg) s (t.matches force v b) (t.accepts tree trees)
  | .wild, _, _, _, _, _, _, _, _, _, hb => .pure_some hb
  | .bind name, _, _, _, _, _, _, _, hv, _, hb => .pure_some (hb.put name hv)
  | .equal w, _, hw, s, tree, v, trees, b, hv, _, hb => by
    rw [Test.matches, Test.accepts]
    refine Answers.get_bind ?_
    rw [equal?_of_represents hv hw]
    cases tree.equals w with
    | true => exact .pure_some hb
    | false => exact .pure_none
  | .tag key, forced, hg, s, tree, v, trees, b, hv, hforced, hb => by
    obtain ⟨c, hc, rfl, hlazy⟩ := hg
    rw [Test.matches, Test.accepts]
    refine Answers.get_bind ?_
    rcases hv.cases_tag hkeys hc (fun h => hforced (hlazy h)) with ⟨htag, htree, _⟩ | ⟨htag, htree⟩
    · rw [htag, if_pos htree]
      exact .pure_some hb
    · rw [htag, if_neg htree]
      exact .pure_none
  | .fields key subs, forced, hg, s, tree, v, trees, b, hv, hforced, hb => by
    obtain ⟨⟨c, hc, rfl, hlazy, hnames⟩, hsubs⟩ := hg
    rw [Test.matches, Test.accepts]
    refine Answers.get_bind ?_
    rcases hv.cases_tag hkeys hc (fun h => hforced (hlazy h)) with
      ⟨htag, htree, record, r, rfl, rfl, hmakes⟩ | ⟨htag, htree⟩
    · rw [htag, if_pos htree]
      exact answers_matchFields hkeys hforce subs hsubs hv
        (fun e he => hmakes.fields e.1 (hnames e he)) hb
    · rw [htag, if_neg htree]
      cases v <;> exact .pure_none
  | .named inner name, forced, hg, s, tree, v, trees, b, hv, hforced, hb => by
    rw [Test.matches, Test.accepts]
    refine (answers_matches hkeys hforce inner hg hv hforced hb).bind
      (g := Option.map (·.put name tree)) (fun s' _ => .pure_none) (fun s' trees' b' hs hb' => ?_)
    exact .pure_some (hb'.put name (hv.mono hs))
  | .either options, forced, hg, s, tree, v, trees, b, hv, hforced, hb =>
    answers_matchFirst hkeys hforce options hg hv hforced hb
  | .strict inner, forced, hg, s, tree, v, trees, b, hv, _, hb => by
    obtain ⟨v', s', houtcome, hs, hdeferred, hv'⟩ := hforce hv
    rw [Test.matches, Test.accepts]
    exact Answers.after houtcome hs
      (answers_matches hkeys hforce inner hg hv' (fun _ => hdeferred) (hb.mono hs))

theorem answers_matchFields (hkeys : reg.DistinctKeys) (hforce : Forces reg force) :
    ∀ (subs : List (String × Test)), Test.GuardedFields reg subs →
    ∀ {s : Store} {record : List (String × Tree)} {r : RecordRef} {trees : Table Tree}
      {b : Bindings}, (Tree.record record).Represents reg s (.record r) →
      (∀ e ∈ subs, (Table.get? record e.1).isSome) → Tree.RepresentsTable reg s trees b →
      Answers (Tree.RepresentsTable reg) s (Test.matchFields force subs r b)
        (Test.acceptFields subs (.record record) trees)
  | [], _, _, _, _, _, _, _, _, hb => .pure_some hb
  | (name, sub) :: rest, hg, s, record, r, trees, b, hr, hfields, hb => by
    obtain ⟨tree, htree⟩ := Option.isSome_iff_exists.mp (hfields (name, sub) List.mem_cons_self)
    obtain ⟨v, hfield, hv⟩ := hr.entries.field htree
    rw [Test.matchFields, Test.acceptFields]
    refine Answers.get_bind ?_
    simp only [Store.field?, hfield, Tree.field?, htree]
    -- Matching one field may advance the store, but the record represents the same tree afterwards.
    refine (answers_matches hkeys hforce sub hg.1 hv (by simp) hb).bind
      (g := fun | none => none | some b => Test.acceptFields rest (.record record) b)
      (fun s' _ => .pure_none) (fun s' trees' b' hs hb' => ?_)
    exact answers_matchFields hkeys hforce rest hg.2 (hr.mono hs)
      (fun e he => hfields e (List.mem_cons_of_mem _ he)) hb'

theorem answers_matchFirst (hkeys : reg.DistinctKeys) (hforce : Forces reg force) :
    ∀ (options : List Test) {forced : Bool}, Test.GuardedAll reg options forced →
    ∀ {s : Store} {tree : Tree} {v : Value} {trees : Table Tree} {b : Bindings},
      tree.Represents reg s v → (forced = true → v.isDeferred = false) →
      Tree.RepresentsTable reg s trees b →
      Answers (Tree.RepresentsTable reg) s (Test.matchFirst force options v b)
        (Test.acceptFirst options tree trees)
  | [], _, _, _, _, _, _, _, _, _, _ => .pure_none
  | t :: rest, forced, hg, s, tree, v, trees, b, hv, hforced, hb => by
    rw [Test.matchFirst, Test.acceptFirst]
    refine (answers_matches hkeys hforce t hg.1 hv hforced hb).bind
      (g := fun | none => Test.acceptFirst rest tree trees | some b => some b)
      (fun s' hs => ?_) (fun s' trees' b' _ hb' => .pure_some hb')
    exact answers_matchFirst hkeys hforce rest hg.2 (hv.mono hs) hforced (hb.mono hs)

end

/-! ### Rows -/

/-- Whether values represent trees and those in demand are forced, position by position. -/
def Ready (reg : Registry) (s : Store) : List Bool → List Tree → List Value → Prop
  | [], [], [] => True
  | needed :: need, tree :: trees, v :: values =>
    tree.Represents reg s v ∧ (needed = true → v.isDeferred = false) ∧ Ready reg s need trees values
  | _, _, _ => False

theorem Ready.mono (hs : s.Advances s') :
    ∀ {need : List Bool} {trees : List Tree} {values : List Value},
      Ready reg s need trees values → Ready reg s' need trees values
  | [], [], [], _ => trivial
  | _ :: _, _ :: _, _ :: _, ⟨hv, hforced, hrest⟩ => ⟨hv.mono hs, hforced, hrest.mono hs⟩

theorem Ready.represents : ∀ {need : List Bool} {trees : List Tree} {values : List Value},
    Ready reg s need trees values → (∀ tree ∈ trees, ∃ entries, tree = .record entries) →
    List.Forall₂ (fun tree v => (∃ entries, tree = .record entries) ∧ tree.Represents reg s v)
      trees values
  | [], [], [], _, _ => .nil
  | _ :: _, tree :: _, _ :: _, ⟨hv, _, hrest⟩, hrecords =>
    .cons ⟨hrecords tree List.mem_cons_self, hv⟩
      (hrest.represents fun t ht => hrecords t (List.mem_cons_of_mem _ ht))

/-- Forcing the positions in demand makes values ready. -/
theorem outcome_forceWhere (hforce : Forces reg force) {need : List Bool} {trees : List Tree}
    {args : List Value} (hneed : need.length = trees.length)
    (hargs : List.Forall₂ (fun tree v => tree.Represents reg s v) trees args) :
    ∃ values s', outcome (forceWhere force need args) s = (.ok values, s') ∧ s.Advances s' ∧
      Ready reg s' need trees values := by
  induction trees generalizing s need args with
  | nil =>
    cases hargs
    obtain rfl := List.eq_nil_of_length_eq_zero hneed
    exact ⟨[], s, rfl, .refl s, trivial⟩
  | cons tree trees ih =>
    obtain ⟨v, args, hv, hargs', rfl⟩ := List.forall₂_cons_left_iff.mp hargs
    obtain ⟨needed, need, rfl⟩ := List.exists_cons_of_length_eq_add_one hneed
    have hfirst : ∃ v' s', outcome (if needed then force v else pure v) s = (.ok v', s') ∧
        s.Advances s' ∧ (needed = true → v'.isDeferred = false) ∧ tree.Represents reg s' v' := by
      cases needed with
      | true =>
        obtain ⟨v', s', houtcome, hs, hdeferred, hv'⟩ := hforce hv
        exact ⟨v', s', houtcome, hs, fun _ => hdeferred, hv'⟩
      | false => exact ⟨v, s, rfl, .refl s, by simp, hv⟩
    obtain ⟨v', s', houtcome, hs, hforced, hv'⟩ := hfirst
    obtain ⟨values, s'', hrest, hs', hready⟩ :=
      ih (by simpa using hneed) (hargs'.imp fun _ _ h => h.mono hs)
    refine ⟨v' :: values, s'', ?_, hs.trans hs', hv'.mono hs', hforced, hready⟩
    rw [forceWhere_cons, outcome_bind_ok houtcome, outcome_bind_ok hrest, outcome_pure]

/-- Whether the tests of a plain row are guarded, given which positions are forced. -/
def GuardedVector (reg : Registry) (need : List Bool) (tests : List Test) : Prop :=
  List.Forall₂ (fun t forced => t.Guarded reg forced) tests need

/-- Whether all plain rows of a row are guarded. -/
def RowTest.Guarded (reg : Registry) (need : List Bool) : RowTest → Prop
  | .row tests => GuardedVector reg need tests
  | .group alternatives => ∀ tests ∈ alternatives, GuardedVector reg need tests
  | .otherwise => True

theorem answers_matchVector (hkeys : reg.DistinctKeys) (hforce : Forces reg force) :
    ∀ {tests : List Test} {need : List Bool}, GuardedVector reg need tests →
    ∀ {s : Store} {row : List Tree} {values : List Value} {trees : Table Tree} {b : Bindings},
      Ready reg s need row values → Tree.RepresentsTable reg s trees b →
      Answers (Tree.RepresentsTable reg) s (matchVector force tests values b)
        (acceptVector tests row trees)
  | [], _, .nil, _, [], [], _, _, _, hb => .pure_some hb
  | t :: tests, _ :: need, .cons ht htests, s, tree :: row, v :: values, trees, b,
      ⟨hv, hforced, hready⟩, hb => by
    rw [matchVector, acceptVector]
    refine (answers_matches hkeys hforce t ht hv hforced hb).bind
      (g := fun | none => none | some b => acceptVector tests row b)
      (fun s' _ => .pure_none) (fun s' trees' b' hs hb' => ?_)
    exact answers_matchVector hkeys hforce htests (hready.mono hs) hb'

theorem answers_matchGroup (hkeys : reg.DistinctKeys) (hforce : Forces reg force)
    {need : List Bool} {row : List Tree} {values : List Value} {alternatives : List (List Test)}
    (hg : ∀ tests ∈ alternatives, GuardedVector reg need tests) {s : Store}
    (hready : Ready reg s need row values) :
    Answers (Tree.RepresentsTable reg) s (matchGroup force values alternatives)
      (acceptGroup row alternatives) := by
  induction alternatives generalizing s with
  | nil => exact .pure_none
  | cons tests rest ih =>
    rw [matchGroup, acceptGroup]
    refine (answers_matchVector hkeys hforce (hg tests List.mem_cons_self) hready .nil).bind
      (g := fun | none => acceptGroup row rest | some b => some b)
      (fun s' hs => ?_) (fun s' trees b _ hb => .pure_some hb)
    exact ih (fun tests' h => hg tests' (List.mem_cons_of_mem _ h)) (hready.mono hs)

theorem answers_rowTest (hkeys : reg.DistinctKeys) (hforce : Forces reg force) {need : List Bool}
    {row : List Tree} {values : List Value} (t : RowTest) (hg : t.Guarded reg need) {s : Store}
    (hready : Ready reg s need row values) :
    Answers (Tree.RepresentsTable reg) s (t.matches force values) (t.accepts row) := by
  cases t with
  | row tests => exact answers_matchVector hkeys hforce hg hready .nil
  | group alternatives => exact answers_matchGroup hkeys hforce hg hready
  | otherwise => exact .pure_some .nil

/-- The first row that matches is the first that accepts the trees. -/
theorem answers_select {α : Type} (hkeys : reg.DistinctKeys) (hforce : Forces reg force)
    {need : List Bool} {row : List Tree} {values : List Value} {rows : List (TestRow α)}
    (hg : ∀ t ∈ rows, t.test.Guarded reg need) {s : Store} (hready : Ready reg s need row values) :
    Answers (fun s' chosen found => found.1 = chosen.1 ∧
      Tree.RepresentsTable reg s' chosen.2 found.2) s (select force values rows)
      (acceptRows row rows) := by
  induction rows generalizing s with
  | nil => exact .pure_none
  | cons t rest ih =>
    rw [select, acceptRows]
    refine (answers_rowTest hkeys hforce t.test (hg t List.mem_cons_self) hready).bind
      (g := fun | none => acceptRows row rest | some b => some (t.action, b))
      (fun s' hs => ?_) (fun s' trees b _ hb => .pure_some ⟨rfl, hb⟩)
    exact ih (fun t' h => hg t' (List.mem_cons_of_mem _ h)) (hready.mono hs)

end Answers

end LazyMatch
