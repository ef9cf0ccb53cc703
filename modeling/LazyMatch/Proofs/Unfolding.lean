import LazyMatch.Proofs.Calling
import LazyMatch.Proofs.Evolution
import LazyMatch.Proofs.History
import LazyMatch.Proofs.Spelling
import LazyMatch.Programs.Streams
import Mathlib

/-!
# Finite parts of infinite streams

The streams of the program `Programs.Streams`, with a `naturals_from` that logs the numbers it
computes. A stream of numbers is a chain of deferred cells. Some of the first ones have been
computed (`Store.Unfolds`), and the one after them is still the dispatch of `naturals_from` at the
next number.

* `runFrom_declarations`: what the declarations leave in the environment and in the store, one after
  the other (`Performs`);
* `exists_computed`: the first look at a cell logs its number and leaves the rest deferred;
* `exists_take`: `take` at a stream of which some cells have been computed, by induction on how many
  are taken; the case of none computes a cell as well, as the force plan forces the stream before
  any rule is tried;
* `exists_take_again`: what has been taken is taken again without any computation;
* `finite_parts`: all of this about the program.
-/

namespace LazyMatch

open Programs.Streams

/-! ### The declarations -/

/-- What `naturals_from` does: it logs the number before it answers. -/
def naturalsBody : Expr :=
  .sequence [.log (.var "n"),
    cons (.var "n") (apply "naturals_from" [.binary .add (.var "n") (int 1)])]

/-- What `take` does when there is something to take. -/
def takeBody : Expr :=
  .binary .add (.list [.var "h"]) (apply "take" [.binary .sub (.var "n") (int 1), .var "t"])

/-- `naturals_from n` is `n`, `n + 1` and so on, and logs what is computed. -/
def loggedNaturalsFrom : Step :=
  .function "naturals_from" [rule [ident "n"] ["n"] naturalsBody] true none none

/-- Streams, the stream of numbers and `take`. -/
def declarations : List Step := [datatype, loggedNaturalsFrom, take]

/-- `naturals_from`, compiled. -/
def naturalsFunction : Function where
  name := "naturals_from"
  lazy := true
  plan := ⟨["arg0"], [], ["arg0"]⟩
  rows := [⟨.row [.bind "n"], .forced (.closure ⟨0⟩)⟩]

/-- `take`, compiled: the stream is forced, and the number is not. -/
def takeFunction : Function where
  name := "take"
  lazy := false
  plan := ⟨["arg0", "arg1"], [("forced1", "arg1")], ["arg0", "forced1"]⟩
  rows := [
    ⟨.row [.equal (.int 0), .wild], .adapted (.closure ⟨1⟩)⟩,
    ⟨.row [.bind "n", .tag nilStream.key], .adapted (.closure ⟨2⟩)⟩,
    ⟨.row [.bind "n", .fields consStream.key [("head", .bind "h"), ("tail", .bind "t")]],
      .adapted (.closure ⟨3⟩)⟩]

/-- The session after the declaration of streams. -/
def streamsSession : Session where
  env := { registry := streams, datatypes := [("Stream", ⟨0⟩)] }
  store := {
    records := #[nilStream.entries [],
      [(.text "Nil", .thunk ⟨0⟩), (.text "Cons", .constructor consStream)],
      [(.text "Nil", .constructor nilStream), (.text "Cons", .constructor consStream)],
      [(.text "name", .text "Stream"), (.text "_constructors", .record ⟨2⟩),
        (.text "_values", .record ⟨1⟩), (.text "_sealed", .bool true)]]
    thunks := #[.pending (.constant ⟨0⟩)]
    datatypes := #[⟨3⟩] }

/-- The session after the declaration of `naturals_from` as well. -/
def numbersSession : Session where
  env := { streamsSession.env with globals := [("naturals_from", .function ⟨0⟩)] }
  store := { streamsSession.store with
    functions := #[naturalsFunction]
    closures := #[⟨["n"].map plainParam, naturalsBody, []⟩]
    stamps := 3 }

/-- What has been declared in the end. -/
def declaredEnv : Env :=
  { streamsSession.env with
    globals := [("naturals_from", .function ⟨0⟩), ("take", .function ⟨1⟩)] }

/-- What the declarations have put into the store in the end. -/
def declaredStore : Store :=
  { streamsSession.store with
    functions := #[naturalsFunction, takeFunction]
    closures := #[⟨["n"].map plainParam, naturalsBody, []⟩, ⟨[].map plainParam, .list [], []⟩,
      ⟨["n"].map plainParam, .list [], []⟩, ⟨["n", "h", "t"].map plainParam, takeBody, []⟩]
    stamps := 19 }

theorem plainNames_program : PlainNames ["n", "h", "t"] := by
  unfold PlainNames
  decide

section Declared

variable {s : Store}

theorem gives_int (i : ℤ) (scope : Scope) (s : Store) :
    Gives declaredEnv (fun again => again (.eval scope (int i))) s (.int i) s :=
  .step (gives_of_outcome rfl)

theorem function_naturals (h : declaredStore.Grows s) : s.function ⟨0⟩ = naturalsFunction := by
  rw [Store.function, h.functions]
  rfl

theorem function_take (h : declaredStore.Grows s) : s.function ⟨1⟩ = takeFunction := by
  rw [Store.function, h.functions]
  rfl

/-- The declaration of streams has made their datatype. -/
theorem carries_declaredStore :
    declaredStore.Carries ⟨0⟩ (.ofVariants "Stream" [nilStream, consStream]) :=
  ⟨⟨3⟩, ⟨2⟩, ⟨1⟩, [("Nil", .thunk ⟨0⟩), ("Cons", .constructor consStream)], rfl, rfl, rfl, rfl,
    .cons ⟨rfl, ⟨0⟩, by decide, rfl, ⟨0⟩, rfl, .inl rfl⟩ (.cons ⟨rfl, rfl⟩ .nil)⟩

/-- A constructor is read off its datatype, which takes up a stamp. -/
theorem gives_cons (h : declaredStore.Grows s) (scope : Scope) :
    Gives declaredEnv (fun again => again (.eval scope (.attribute "Stream" "Cons"))) s
      (.constructor consStream) s.withStamp := by
  obtain ⟨v, hv, hvariant⟩ := carries_declaredStore.exists_variant (c := consStream)
    (by decide) (by decide)
  cases hv
  exact (carries_declaredStore.mono h.widens).gives_attribute rfl (by decide)
    (hvariant s h.widens) scope

end Declared

/-! ### Numbers that are computed -/

section Naturals

variable {s : Store}

/-- A store with one more entry in its log. -/
def Store.withEntry (s : Store) (v : Value) : Store := { s with log := s.log.push v }

theorem grows_withEntry (s : Store) (v : Value) : s.Grows (s.withEntry v) :=
  { Store.Grows.refl s with defers := fun _ _ h => h }

theorem grows_withStamp (s : Store) : s.Grows s.withStamp :=
  { Store.Grows.refl s with defers := fun _ _ h => h }

/-- The stream of numbers from the next one on. -/
theorem gives_naturals (h : declaredStore.Grows s) {scope : Scope} {e : Expr} {k : ℤ}
    (hscope : Table.get? scope "naturals_from" = none)
    (he : Gives declaredEnv (fun again => again (.eval scope e)) s (.int k) s) :
    Gives declaredEnv (fun again => again (.eval scope (apply "naturals_from" [e]))) s
      (.thunk ⟨s.thunks.size⟩) (s.withThunk (.dispatch ⟨0⟩ [.int k])) := by
  have hfunction := function_naturals h
  have hname : declaredEnv.globals.get? "naturals_from" = some (.function ⟨0⟩) := rfl
  refine (gives_global hscope hname).call (he.evals gives_evals_nil) ?_
  exact gives_call_lazy (by rw [hfunction]; rfl) (by rw [hfunction]; rfl)

/-- The number is logged and the rest of the stream is deferred. -/
def Store.withRest (s : Store) (k : ℤ) : Store :=
  (s.withEntry (.int k)).withStamp.withThunk (.dispatch ⟨0⟩ [.int (k + 1)])

/-- A cell of the stream is built of the number and the rest, and is deferred as well. -/
def Store.withCell (s : Store) (k : ℤ) : Store :=
  ((s.withRest k).withRecord (consStream.entries [.int k, .thunk ⟨s.thunks.size⟩])).withThunk
    (.variant ⟨s.records.size⟩)

theorem grows_withCell (s : Store) (k : ℤ) : s.Grows (s.withCell k) :=
  (grows_withEntry s _).trans <| (grows_withStamp _).trans <|
    (Store.changes_withThunk (fun _ => False) _ _).toGrows.trans <|
    (Store.changes_withRecord (fun _ => False) _ _).toGrows.trans
    (Store.changes_withThunk (fun _ => False) _ _).toGrows

theorem size_withRest (s : Store) (k : ℤ) : (s.withRest k).thunks.size = s.thunks.size + 1 := by
  simp [Store.withRest, Store.withThunk, Store.withStamp, Store.withEntry]

theorem cell_withCell {t : ThunkRef} (ht : t.index < s.thunks.size + 1) (k : ℤ) :
    (s.withCell k).cell t = (s.withRest k).cell t := by
  rw [← size_withRest s k] at ht
  exact Store.cell_withThunk_of_lt (s := (s.withRest k).withRecord _) ht _

theorem cell_withCell_of_lt {t : ThunkRef} (ht : t.index < s.thunks.size) (k : ℤ) :
    (s.withCell k).cell t = s.cell t :=
  (cell_withCell (Nat.lt_succ_of_lt ht) k).trans
    (Store.cell_withThunk_of_lt (s := (s.withEntry (.int k)).withStamp) ht _)

theorem cell_withCell_rest (s : Store) (k : ℤ) :
    (s.withCell k).cell ⟨s.thunks.size⟩ = .pending (.dispatch ⟨0⟩ [.int (k + 1)]) :=
  (cell_withCell (Nat.lt_succ_self _) k).trans
    ((s.withEntry (.int k)).withStamp.cell_withThunk _)

/-- What the action of `naturals_from` does. -/
theorem gives_naturalsBody (h : declaredStore.Grows s) (k : ℤ) :
    Gives declaredEnv (fun again => again (.eval [("n", .int k)] naturalsBody)) s
      (.thunk ⟨(s.withRest k).thunks.size⟩) (s.withCell k) := by
  have hn : ∀ s, Gives declaredEnv (fun again => again (.eval [("n", .int k)] (.var "n"))) s
      (.int k) s := fun s => gives_var rfl
  have hlog : Gives declaredEnv (fun again => again (.eval [("n", .int k)] (.log (.var "n")))) s
      .null (s.withEntry (.int k)) := .step ((hn s).bind (gives_of_outcome rfl))
  have hgrows := h.trans (grows_withEntry s (.int k))
  have hnext : Gives declaredEnv (fun again => again (.eval [("n", .int k)]
      (.binary .add (.var "n") (int 1)))) (s.withEntry (.int k)).withStamp (.int (k + 1))
      (s.withEntry (.int k)).withStamp := (hn _).binary (by simp) (gives_int 1 _ _) rfl
  have hrest := gives_naturals (hgrows.trans (grows_withStamp _)) rfl hnext
  have hargs := (hn (s.withEntry (.int k)).withStamp).evals (hrest.evals gives_evals_nil)
  have hbuild : Gives declaredEnv (fun again => again (.call (.constructor consStream)
      [.int k, .thunk ⟨s.thunks.size⟩])) (s.withRest k) (.thunk ⟨(s.withRest k).thunks.size⟩)
      (s.withCell k) :=
    .step (gives_of_outcome rfl)
  have hcell := (gives_cons hgrows [("n", .int k)]).call hargs hbuild
  exact .step ((hlog.evals (hcell.evals gives_evals_nil)).bind (gives_of_outcome rfl))

/-- The cell is looked at, and the number has been computed. -/
def Store.computed (s : Store) (k : ℤ) : Store :=
  (s.withCell k).setCell ⟨s.thunks.size + 1⟩ (.resolved (.record ⟨s.records.size⟩))

theorem defers_withCell (s : Store) (k : ℤ) :
    (s.withCell k).Defers ⟨s.thunks.size + 1⟩ ⟨s.records.size⟩ := by
  have hcell := Store.cell_withThunk
    ((s.withRest k).withRecord (consStream.entries [.int k, .thunk ⟨s.thunks.size⟩]))
    (.variant ⟨s.records.size⟩)
  have hsize : ((s.withRest k).withRecord
      (consStream.entries [.int k, .thunk ⟨s.thunks.size⟩])).thunks.size = s.thunks.size + 1 :=
    size_withRest s k
  rw [hsize] at hcell
  exact .inr (.inl hcell)

theorem grows_computed (s : Store) (k : ℤ) : s.Grows (s.computed k) :=
  (grows_withCell s k).trans
    (Store.changes_resolved (P := fun _ => True) (defers_withCell s k) trivial).toGrows

theorem cell_computed_of_lt {t : ThunkRef} (ht : t.index < s.thunks.size) (k : ℤ) :
    (s.computed k).cell t = s.cell t := by
  have hne : t ≠ ⟨s.thunks.size + 1⟩ := by
    rintro rfl
    exact Nat.not_succ_lt_self ht
  rw [Store.computed, Store.cell_setCell_of_ne hne, cell_withCell_of_lt ht]

theorem cell_computed_rest (s : Store) (k : ℤ) :
    (s.computed k).cell ⟨s.thunks.size⟩ = .pending (.dispatch ⟨0⟩ [.int (k + 1)]) := by
  rw [Store.computed, Store.cell_setCell_of_ne (by simp), cell_withCell_rest]

theorem entries_computed (s : Store) (k : ℤ) : (s.computed k).entries ⟨s.records.size⟩ =
    consStream.entries [.int k, .thunk ⟨s.thunks.size⟩] :=
  (s.withRest k).entries_withRecord _

theorem lt_records_computed (s : Store) (k : ℤ) : s.records.size < (s.computed k).records.size := by
  show s.records.size < (s.records.push _).size
  rw [Array.size_push]
  exact Nat.lt_succ_self _

/-- **What the dispatch of `naturals_from` does.** -/
theorem gives_dispatch_naturals (h : declaredStore.Grows s) (k : ℤ) :
    Gives declaredEnv (fun again => again (.dispatch ⟨0⟩ [.int k])) s (.record ⟨s.records.size⟩)
      (s.computed k) := by
  have hbody := gives_naturalsBody h k
  rw [size_withRest] at hbody
  have hadapted : Gives declaredEnv (fun again => again (.handle (.adapted (.closure ⟨0⟩))
      [("n", .int k)])) s (.thunk ⟨s.thunks.size + 1⟩) (s.withCell k) :=
    gives_handle_plain (plainNames_program.mono (by simp)) (h.closure (by decide))
      (by simp [Table.get?]) hbody
  have hlayer : Gives declaredEnv (fun again => again (.force [] (.thunk ⟨s.thunks.size + 1⟩)))
      (s.withCell k) (.record ⟨s.records.size⟩) (s.computed k) :=
    gives_force (by simp) (.step (gives_iff.mpr
      ⟨0, fun _ _ => outcome_resolve_of_defers (defers_withCell s k) _⟩)) (gives_force_record _ _)
  exact gives_dispatch (function_naturals h) (gives_iff.mpr ⟨0, fun _ _ => rfl⟩)
    (gives_iff.mpr ⟨0, fun _ _ => rfl⟩) (.step (hadapted.bind hlayer))

/-- **The first look at a cell computes it**: its number is logged once, and the rest of the stream
is still to be computed. -/
theorem exists_computed {t : ThunkRef} {k : ℤ} (h : declaredStore.Grows s)
    (ht : s.cell t = .pending (.dispatch ⟨0⟩ [.int k])) :
    ∃ r t' s', Gives declaredEnv (fun again => again (.force [] (.thunk t))) s (.record r) s' ∧
      s.Grows s' ∧ s'.log = s.log.push (.int k) ∧ s'.cell t = .resolved (.record r) ∧
      r.index < s'.records.size ∧ s'.entries r = consStream.entries [.int k, .thunk t'] ∧
      s'.cell t' = .pending (.dispatch ⟨0⟩ [.int (k + 1)]) := by
  have hlt := Store.lt_of_cell_pending ht
  have hmark : s.Grows (s.setCell t (.running (.dispatch ⟨0⟩ [.int k]))) :=
    (Store.changes_setCell (P := (· = t)) (fun _ => by simp [Store.Defers, ht]) rfl _).toGrows
  have hresolve := gives_resolve ht (gives_dispatch_naturals (h.trans hmark) k) (by simp)
  have hmarked := Store.cell_setCell_self hlt (.running (.dispatch ⟨0⟩ [.int k]))
  have hlog : (s.setCell t (.running (.dispatch ⟨0⟩ [.int k]))).log = s.log := rfl
  -- From here on it only matters that `t` is marked.
  generalize s.setCell t (.running (.dispatch ⟨0⟩ [.int k])) = s₀ at hmark hresolve hmarked hlog
  have hlt₀ : t.index < s₀.thunks.size := Nat.lt_of_lt_of_le hlt hmark.thunks
  have hgrows := hmark.trans (grows_computed s₀ k)
  have hrunning := (cell_computed_of_lt hlt₀ k).trans hmarked
  have hne : (⟨s₀.thunks.size⟩ : ThunkRef) ≠ t := fun heq => by
    rw [← heq] at hlt₀
    exact Nat.lt_irrefl _ hlt₀
  refine ⟨⟨s₀.records.size⟩, ⟨s₀.thunks.size⟩, _,
    gives_force (by simp) hresolve (gives_force_record _ _), ?_, ?_,
    Store.cell_setCell_self (Nat.lt_of_lt_of_le hlt hgrows.thunks) _, lt_records_computed s₀ k,
    entries_computed s₀ k, ?_⟩
  · exact hgrows.trans (Store.changes_setCell (P := fun _ => True)
      (fun _ => by simp [Store.Defers, hrunning]) trivial _).toGrows
  · rw [← hlog]
    rfl
  · rw [Store.cell_setCell_of_ne hne, cell_computed_rest]

end Naturals

/-! ### Taking from a stream -/

theorem equal?_int (s : Store) (a b : ℤ) : s.equal? (.int a) (.int b) = some (decide (a = b)) := by
  unfold Store.equal?
  cases s.records.size * s.records.size with
  | zero => simp [Store.equalTo, Value.equalWith, Value.numeral?]
  | succ n => simp [Store.equalTo, Value.equalWith, Value.numeral?]

section Take

variable {s s₁ s₂ : Store} {t t' : ThunkRef} {r : RecordRef} {k : ℤ} {v w : Value}

theorem outcome_matches_int (force : Value → Run Value) (n m : ℤ) (b : Bindings) :
    outcome ((Test.equal (.int m)).matches force (.int n) b) s =
      (.ok (if n = m then some b else none), s) := by
  rw [Test.matches, outcome_get_bind, equal?_int]
  by_cases h : n = m <;> simp [h]

theorem outcome_select_skip {force : Value → Run Value} {values : List Value}
    {row : TestRow Handler} {rows : List (TestRow Handler)}
    (h : outcome (row.test.matches force values) s = (.ok none, s)) :
    outcome (select force values (row :: rows)) s = outcome (select force values rows) s := by
  rw [select, outcome_bind_ok h]

theorem outcome_select_found {force : Value → Run Value} {values : List Value} {b : Bindings}
    {row : TestRow Handler} {rows : List (TestRow Handler)}
    (h : outcome (row.test.matches force values) s = (.ok (some b), s)) :
    outcome (select force values (row :: rows)) s = (.ok (some (row.action, b)), s) := by
  rw [select, outcome_bind_ok h]
  rfl

/-- Nothing is taken when the number is zero. -/
theorem outcome_select_zero (force : Value → Run Value) (w : Value) :
    outcome (select force [.int 0, w] takeFunction.rows) s =
      (.ok (some (.adapted (.closure ⟨1⟩), [])), s) := by
  refine outcome_select_found ?_
  rw [RowTest.matches, matchVector, outcome_bind_ok (outcome_matches_int force 0 0 [])]
  rfl

/-- Otherwise the stream is taken apart. -/
theorem outcome_select_cons (force : Value → Run Value) {n : ℤ} (hn : n ≠ 0)
    (hr : s.entries r = consStream.entries [v, w]) :
    outcome (select force [.int n, .record r] takeFunction.rows) s =
      (.ok (some (.adapted (.closure ⟨3⟩), [("n", .int n), ("h", v), ("t", w)])), s) := by
  have htag : s.tag (.record r) = .text consStream.key := of_decide_eq_true (hasTag_of_entries hr)
  have hnil : s.hasTag (.record r) nilStream.key = false := by
    have hkey : consStream.key ≠ nilStream.key := by decide
    rw [Store.hasTag, htag]
    simpa using hkey
  have hfields : List.Forall₂ (fun name v => s.field? r name = some v) ["head", "tail"] [v, w] :=
    field?_of_entries hr rfl (by decide) (by decide)
  rw [List.forall₂_cons, List.forall₂_cons] at hfields
  obtain ⟨hhead, htail, -⟩ := hfields
  have hzero := outcome_matches_int (s := s) force n 0 []
  rw [if_neg hn] at hzero
  refine (outcome_select_skip ?_).trans <| (outcome_select_skip ?_).trans <| outcome_select_found ?_
  · rw [RowTest.matches, matchVector, outcome_bind_ok hzero]
    rfl
  · simp [RowTest.matches, matchVector, Test.matches, hnil]
  · simp [RowTest.matches, matchVector, Test.matches, hasTag_of_entries hr, Test.matchFields, hhead,
      htail, Table.put]

/-- The force plan of `take`. -/
theorem run_takeFunction (force : Value → Run Value) (v w : Value) :
    takeFunction.plan.run force [v, w] = force w >>= fun w => pure [v, w] := by
  simp [Plan.run, takeFunction, Plan.bindForced, Plan.read, Table.ofList, Table.put, Table.get?]

/-- A call of `take` forces the stream and selects a row. -/
theorem gives_take {n : ℤ} {a : Handler} {b : Bindings} (h : declaredStore.Grows s)
    (hforce : Gives declaredEnv (fun again => again (.force [] (.thunk t))) s w s₁)
    (hselect : ∀ force, outcome (select force [.int n, w] takeFunction.rows) s₁ =
      (.ok (some (a, b)), s₁))
    (hact : Gives declaredEnv (fun again => again (.handle a b)) s₁ v s₂) :
    Gives declaredEnv (fun again => again (.call (.function ⟨1⟩) [.int n, .thunk t])) s v s₂ := by
  have hfunction := function_take h
  have hplan : Gives declaredEnv (fun again => takeFunction.plan.run (fun v => again (.force [] v))
      [.int n, .thunk t]) s [.int n, w] s₁ := by
    simp only [run_takeFunction]
    exact hforce.bind (f := fun w _ => pure [Value.int n, w]) (gives_of_outcome rfl)
  exact gives_call_strict (by rw [hfunction]; rfl) (by rw [hfunction]; rfl)
    (gives_dispatch hfunction hplan (gives_iff.mpr ⟨0, fun _ _ => hselect _⟩) hact)

/-- Taking nothing looks at the stream all the same. -/
theorem gives_take_zero (h : declaredStore.Grows s) (h₁ : declaredStore.Grows s₁)
    (hforce : Gives declaredEnv (fun again => again (.force [] (.thunk t))) s w s₁) :
    Gives declaredEnv (fun again => again (.call (.function ⟨1⟩) [.int 0, .thunk t])) s
      (.list s₁.stamps []) s₁.withStamp := by
  refine gives_take h hforce (fun _ => outcome_select_zero _ _) ?_
  exact gives_handle_plain (plainNames_program.mono (by simp)) (h₁.closure (by decide)) (by simp)
    (.step (gives_evals_nil.bind (gives_of_outcome rfl)))

theorem gives_apply_take {scope : Scope} {e e' : Expr} {n : ℤ} {s₃ : Store}
    (hscope : Table.get? scope "take" = none)
    (he : Gives declaredEnv (fun again => again (.eval scope e)) s (.int n) s₁)
    (he' : Gives declaredEnv (fun again => again (.eval scope e')) s₁ (.thunk t) s₂)
    (h : Gives declaredEnv (fun again => again (.call (.function ⟨1⟩) [.int n, .thunk t])) s₂ v
      s₃) :
    Gives declaredEnv (fun again => again (.eval scope (apply "take" [e, e']))) s v s₃ := by
  have htake : declaredEnv.globals.get? "take" = some (.function ⟨1⟩) := rfl
  exact (gives_global hscope htake).call (he.evals (he'.evals gives_evals_nil)) h

/-- What the action of `take` does with a head and a tail. -/
theorem gives_takeBody {n : ℤ} {stamp : ℕ} {items : List Value}
    (hrest : Gives declaredEnv (fun again => again (.call (.function ⟨1⟩) [.int n, .thunk t]))
      s.withStamp (.list stamp items) s₁) :
    Gives declaredEnv (fun again => again (.eval [("n", .int (n + 1)), ("h", v), ("t", .thunk t)]
      takeBody)) s (.list s₁.stamps (v :: items)) s₁.withStamp := by
  have hhead : Gives declaredEnv (fun again => again (.eval [("n", .int (n + 1)), ("h", v),
      ("t", .thunk t)] (.list [.var "h"]))) s (.list s.stamps [v]) s.withStamp :=
    .step (((gives_var rfl).evals gives_evals_nil).bind (gives_of_outcome rfl))
  have hless : Gives declaredEnv (fun again => again (.eval [("n", .int (n + 1)), ("h", v),
      ("t", .thunk t)] (.binary .sub (.var "n") (int 1)))) s.withStamp (.int n) s.withStamp := by
    refine (gives_var rfl).binary (by simp) (gives_int 1 _ _) ?_
    show (Except.ok (Value.int (n + 1 - 1)), s.withStamp) = _
    rw [Int.add_sub_cancel]
  have htail : Gives declaredEnv (fun again => again (.eval [("n", .int (n + 1)), ("h", v),
      ("t", .thunk t)] (.var "t"))) s.withStamp (.thunk t) s.withStamp := gives_var rfl
  exact hhead.binary (by simp) (gives_apply_take rfl hless htail hrest) rfl

/-- Taking more takes the head, and the rest from the tail. -/
theorem gives_take_succ {n : ℤ} {stamp : ℕ} {items : List Value} (hn : n + 1 ≠ 0)
    (h : declaredStore.Grows s) (h₁ : declaredStore.Grows s₁)
    (hforce : Gives declaredEnv (fun again => again (.force [] (.thunk t))) s (.record r) s₁)
    (hr : s₁.entries r = consStream.entries [v, .thunk t'])
    (hrest : Gives declaredEnv (fun again => again (.call (.function ⟨1⟩) [.int n, .thunk t']))
      s₁.withStamp (.list stamp items) s₂) :
    Gives declaredEnv (fun again => again (.call (.function ⟨1⟩) [.int (n + 1), .thunk t])) s
      (.list s₂.stamps (v :: items)) s₂.withStamp := by
  refine gives_take h hforce (fun _ => outcome_select_cons _ hn hr) ?_
  refine gives_handle_plain plainNames_program (h₁.closure (by decide)) (by simp [Table.get?]) ?_
  exact gives_takeBody hrest

end Take

/-! ### Finite parts -/

/-- So many integers from a first one on. -/
def numbers (k : ℤ) (n : ℕ) : List Value := (List.range n).map fun i : ℕ => .int (k + (i : ℤ))

@[simp] theorem numbers_zero (k : ℤ) : numbers k 0 = [] := rfl

theorem add_natCast_succ (k : ℤ) (i : ℕ) : k + ((i + 1 : ℕ) : ℤ) = k + 1 + (i : ℤ) := by
  omega

theorem numbers_succ (k : ℤ) (n : ℕ) : numbers k (n + 1) = .int k :: numbers (k + 1) n := by
  rw [numbers, List.range_succ_eq_map, List.map_cons, List.map_map, numbers]
  refine congrArg₂ List.cons (by simp) (List.map_congr_left fun i _ => ?_)
  exact congrArg Value.int (add_natCast_succ k i)

/-- Whether the first cells of a stream of numbers have been computed, so many of them, and this is
what comes then. -/
inductive Store.Unfolds (s : Store) : ThunkRef → ℤ → ℕ → ThunkRef → Prop where
  | zero {t : ThunkRef} {k : ℤ} : s.Unfolds t k 0 t
  | succ {t t' u : ThunkRef} {k : ℤ} {j : ℕ} {r : RecordRef} (ht : t.index < s.thunks.size)
      (hcell : s.cell t = .resolved (.record r)) (hr : r.index < s.records.size)
      (hentries : s.entries r = consStream.entries [.int k, .thunk t'])
      (h : s.Unfolds t' (k + 1) j u) : s.Unfolds t k (j + 1) u

section Unfolds

variable {s s' : Store} {t u : ThunkRef} {k : ℤ} {j : ℕ}

/-- A cell that has been computed stays in front of its tail. -/
theorem Store.Unfolds.cons_mono {t' : ThunkRef} {r : RecordRef} (ht : t.index < s.thunks.size)
    (hcell : s.cell t = .resolved (.record r)) (hr : r.index < s.records.size)
    (hentries : s.entries r = consStream.entries [.int k, .thunk t']) (hgrows : s.Grows s')
    (hmatures : Matures s.thunks s'.thunks) (h : s'.Unfolds t' (k + 1) j u) :
    s'.Unfolds t k (j + 1) u :=
  .succ (Nat.lt_of_lt_of_le ht hmatures.1) (hmatures.resolved ht hcell) (hgrows.lt_records hr)
    ((hgrows.entries hr).trans hentries) h

/-- What has been computed stays. -/
theorem Store.Unfolds.mono (h : s.Unfolds t k j u) (hgrows : s.Grows s')
    (hmatures : Matures s.thunks s'.thunks) : s'.Unfolds t k j u := by
  induction h with
  | zero => exact .zero
  | succ ht hcell hr hentries _ ih => exact .cons_mono ht hcell hr hentries hgrows hmatures ih

theorem gives_force_resolved {r : RecordRef} (hcell : s.cell t = .resolved (.record r)) :
    Gives declaredEnv (fun again => again (.force [] (.thunk t))) s (.record r) s :=
  gives_force (by simp) (ends_resolve_of_resolved hcell) (gives_force_record _ r)

/-- **A look at a stream** computes its first cell if that has not been computed yet. -/
theorem exists_force (h : declaredStore.Grows s) (hj : s.Unfolds t k j u)
    (hu : s.cell u = .pending (.dispatch ⟨0⟩ [.int (k + j)])) :
    ∃ r t' s₁ u', Gives declaredEnv (fun again => again (.force [] (.thunk t))) s (.record r) s₁ ∧
      s.Grows s₁ ∧ s₁.log = s.log ++ (numbers (k + j) (1 - j)).toArray ∧
      s₁.entries r = consStream.entries [.int k, .thunk t'] ∧
      (∀ {s'}, s₁.Grows s' → Matures s₁.thunks s'.thunks → ∀ {i x},
        s'.Unfolds t' (k + 1) i x → s'.Unfolds t k (i + 1) x) ∧
      s₁.Unfolds t' (k + 1) (j - 1) u' ∧
      s₁.cell u' = .pending (.dispatch ⟨0⟩ [.int (k + 1 + (j - 1 : ℕ))]) := by
  cases hj with
  | zero =>
    simp only [Int.natCast_zero, Int.add_zero] at hu
    obtain ⟨r, t', s₁, hforce, hgrows, hlog, hcell, hr, hentries, hrest⟩ := exists_computed h hu
    have ht := Nat.lt_of_lt_of_le (Store.lt_of_cell_pending hu) hgrows.thunks
    refine ⟨r, t', s₁, t', hforce, hgrows, ?_, hentries,
      fun hgrows hmatures => .cons_mono ht hcell hr hentries hgrows hmatures, .zero, ?_⟩
    · simp [hlog, numbers_succ]
    · simpa using hrest
  | @succ _ t' _ _ j r ht hcell hr hentries hrest =>
    refine ⟨r, t', s, u, gives_force_resolved hcell, .refl s, ?_, hentries,
      fun hgrows hmatures => .cons_mono ht hcell hr hentries hgrows hmatures, hrest, ?_⟩
    · simp
    · rw [hu, add_natCast_succ, Nat.add_sub_cancel]

/-- The log of a look at the first cell and of looks at further ones. -/
theorem numbers_append (k : ℤ) (j n : ℕ) :
    numbers (k + j) (1 - j) ++ numbers (k + 1 + (j - 1 : ℕ)) (n + 1 - (j - 1)) =
      numbers (k + j) (n + 2 - j) := by
  cases j with
  | zero => simp [numbers_succ]
  | succ j =>
    have hcount : n + 1 - j = n + 2 - (j + 1) := by omega
    have hnone : 1 - (j + 1) = 0 := by omega
    rw [Nat.add_sub_cancel, ← add_natCast_succ, hcount, hnone, numbers_zero, List.nil_append]

/-- **Taking from a stream of which some cells have been computed** answers the first numbers, and
computes exactly the cells up to the one after the last that is taken. -/
theorem exists_take (n : ℕ) (h : declaredStore.Grows s) (hj : s.Unfolds t k j u)
    (hu : s.cell u = .pending (.dispatch ⟨0⟩ [.int (k + j)])) :
    ∃ stamp s' u', Gives declaredEnv
        (fun again => again (.call (.function ⟨1⟩) [.int n, .thunk t])) s
        (.list stamp (numbers k n)) s' ∧
      s.Grows s' ∧ s'.log = s.log ++ (numbers (k + j) (n + 1 - j)).toArray ∧
      s'.Unfolds t k (max j (n + 1)) u' ∧
      s'.cell u' = .pending (.dispatch ⟨0⟩ [.int (k + (max j (n + 1) : ℕ))]) := by
  -- Along the stream the number of cells that have been computed already goes down with `n`.
  induction n generalizing s t k j u with
  | zero =>
    obtain ⟨r, t', s₁, u', hforce, hgrows, hlog, hentries, hcons, hrest, hu'⟩ :=
      exists_force h hj hu
    have hmax : max j (0 + 1) = j - 1 + 1 := by omega
    refine ⟨s₁.stamps, s₁.withStamp, u', gives_take_zero h (h.trans hgrows) hforce,
      hgrows.trans (grows_withStamp s₁), hlog, ?_, ?_⟩
    · rw [hmax]
      exact hcons (grows_withStamp s₁) (.refl _) (hrest.mono (grows_withStamp s₁) (.refl _))
    · rw [hmax, add_natCast_succ]
      exact hu'
  | succ n ih =>
    obtain ⟨r, t', s₁, u', hforce, hgrows, hlog, hentries, hcons, hrest, hu'⟩ :=
      exists_force h hj hu
    have hgrows₁ := (h.trans hgrows).trans (grows_withStamp s₁)
    obtain ⟨stamp, s₂, u₂, htake, hgrows₂, hlog₂, hunfolds, hu₂⟩ :=
      ih hgrows₁ (hrest.mono (grows_withStamp s₁) (.refl _)) hu'
    have hmax : max j (n + 1 + 1) = max (j - 1) (n + 1) + 1 := by omega
    have hgrows' : s₁.Grows s₂.withStamp :=
      (grows_withStamp s₁).trans (hgrows₂.trans (grows_withStamp s₂))
    have hmatures := Ends.matures htake
    refine ⟨s₂.stamps, s₂.withStamp, u₂, ?_, hgrows.trans hgrows', ?_, ?_, ?_⟩
    · rw [numbers_succ]
      exact gives_take_succ (by omega) h (h.trans hgrows) hforce hentries htake
    · calc s₂.log = s.log ++ (numbers (k + j) (1 - j)).toArray ++
            (numbers (k + 1 + (j - 1 : ℕ)) (n + 1 - (j - 1))).toArray := by rw [hlog₂, ← hlog]; rfl
        _ = s.log ++ (numbers (k + j) (n + 2 - j)).toArray := by
          simp [← numbers_append k j n]
    · rw [hmax]
      exact hcons hgrows' hmatures (hunfolds.mono (grows_withStamp s₂) (.refl _))
    · rw [hmax, add_natCast_succ]
      exact hu₂

/-- **Taking again what has been taken** computes nothing. -/
theorem exists_take_again (n : ℕ) (h : declaredStore.Grows s) (hj : s.Unfolds t k j u)
    (hn : n < j) :
    ∃ stamp stamps, Gives declaredEnv
      (fun again => again (.call (.function ⟨1⟩) [.int n, .thunk t])) s
      (.list stamp (numbers k n)) { s with stamps := stamps } := by
  induction n generalizing s t k j with
  | zero =>
    cases hj with
    | zero => cases hn
    | succ ht hcell hr hentries hrest =>
      exact ⟨_, _, gives_take_zero h h (gives_force_resolved hcell)⟩
  | succ n ih =>
    cases hj with
    | zero => cases hn
    | succ ht hcell hr hentries hrest =>
      obtain ⟨stamp, stamps, htake⟩ := ih (h.trans (grows_withStamp s))
        (hrest.mono (grows_withStamp s) (.refl _)) (Nat.lt_of_succ_lt_succ hn)
      refine ⟨stamps, stamps + 1, ?_⟩
      rw [numbers_succ]
      exact gives_take_succ (by omega) h h (gives_force_resolved hcell) hentries htake

end Unfolds

/-! ### The program -/

/-- Whether a step is accepted in a session, and this is the session that it leaves. -/
def Performs (fuel : ℕ) (step : Step) (session session' : Session) : Prop :=
  Prod.map Except.toBool id (runFrom (Session.perform (fun env => perform env fuel) step) session) =
    (true, session')

/-- Steps are accepted one after the other. -/
theorem Performs.cons {fuel : ℕ} {step : Step} {steps : List Step}
    {session session₁ session₂ : Session} (h : Performs fuel step session session₁)
    (hsteps : ∃ answers, runFrom (steps.mapM (Session.perform fun env => perform env fuel))
      session₁ = (.ok answers, session₂)) :
    ∃ answers, runFrom ((step :: steps).mapM (Session.perform fun env => perform env fuel))
      session = (.ok answers, session₂) := by
  obtain ⟨answers, hsteps⟩ := hsteps
  rcases hstep : runFrom (Session.perform (fun env => perform env fuel) step) session
    with ⟨e | answer, session'⟩
  · rw [Performs, hstep] at h
    cases h
  · rw [Performs, hstep] at h
    obtain ⟨-, rfl⟩ := Prod.mk.inj h
    rw [id] at hsteps
    rw [List.mapM_cons, runFrom_bind_ok hstep, runFrom_bind_ok hsteps]
    exact ⟨answer :: answers, rfl⟩

set_option maxRecDepth 100000 in
theorem performs_datatype (fuel : ℕ) :
    Performs (fuel + 3) datatype {} streamsSession := by
  rw [Performs]
  cbv

set_option maxRecDepth 100000 in
theorem performs_naturals (fuel : ℕ) :
    Performs (fuel + 3) loggedNaturalsFrom streamsSession numbersSession := by
  rw [Performs]
  cbv

set_option maxRecDepth 100000 in
theorem performs_take (fuel : ℕ) :
    Performs (fuel + 3) take numbersSession ⟨declaredEnv, declaredStore⟩ := by
  rw [Performs]
  cbv

/-- The declarations are accepted, and this is what they leave. -/
theorem runFrom_declarations (fuel : ℕ) :
    ∃ answers, runFrom (declarations.mapM (Session.perform fun env => perform env (fuel + 3))) {} =
      (.ok answers, ⟨declaredEnv, declaredStore⟩) :=
  (performs_datatype fuel).cons <| (performs_naturals fuel).cons <| (performs_take fuel).cons
    ⟨[], rfl⟩

/-- **Finite parts of an infinite stream.** In whatever store the one after the declarations has
grown into, `take n (naturals_from k)` answers the integers from `k` up to `k + n - 1`; the numbers
that are computed for this are those from `k` up to `k + n`, each once and in this order. The stream
itself is made without computing anything. Once `n` elements have been taken from it, any `m ≤ n` of
them can be taken from it again in whatever store that one grows into, and this computes nothing:
all it uses up is stamps. -/
theorem finite_parts (fuel : ℕ) (k : ℤ) (n : ℕ) :
    ∃ answers env s₀, runFrom (declarations.mapM (Session.perform fun env =>
        perform env (fuel + 3))) {} = (.ok answers, ⟨env, s₀⟩) ∧ s₀.log = #[] ∧
      ∀ s, s₀.Grows s →
        (∃ stamp s', Gives env (fun again => again (.eval []
            (apply "take" [int n, apply "naturals_from" [int k]]))) s
            (.list stamp (numbers k n)) s' ∧
          s'.log = s.log ++ (numbers k (n + 1)).toArray) ∧
        ∃ t s₁, Gives env (fun again => again (.eval [] (apply "naturals_from" [int k]))) s
            (.thunk t) s₁ ∧ s₁.log = s.log ∧
          ∃ stamp s₂, Gives env (fun again => again (.eval [("s", .thunk t)]
              (apply "take" [int n, .var "s"]))) s₁ (.list stamp (numbers k n)) s₂ ∧
            s₂.log = s.log ++ (numbers k (n + 1)).toArray ∧
            ∀ s₃, s₂.Grows s₃ → Matures s₂.thunks s₃.thunks → ∀ m ≤ n, ∃ stamp stamps,
              Gives env (fun again => again (.eval [("s", .thunk t)]
                (apply "take" [int m, .var "s"]))) s₃ (.list stamp (numbers k m))
                { s₃ with stamps := stamps } := by
  obtain ⟨answers, hdeclared⟩ := runFrom_declarations fuel
  refine ⟨answers, declaredEnv, declaredStore, hdeclared, rfl, fun s hs => ?_⟩
  have hstream := gives_naturals hs rfl (gives_int k [] s)
  have hgrows : s.Grows (s.withThunk (.dispatch ⟨0⟩ [.int k])) :=
    (Store.changes_withThunk (fun _ => False) _ _).toGrows
  have hcell : (s.withThunk (.dispatch ⟨0⟩ [.int k])).cell ⟨s.thunks.size⟩ =
      .pending (.dispatch ⟨0⟩ [.int (k + (0 : ℕ))]) := by
    rw [Int.natCast_zero, Int.add_zero, Store.cell_withThunk]
  obtain ⟨stamp, s₂, u, htake, hgrows₂, hlog, hunfolds, -⟩ :=
    exists_take n (hs.trans hgrows) .zero hcell
  rw [Int.natCast_zero, Int.add_zero] at hlog
  have hvar : ∀ s', Gives declaredEnv (fun again => again (.eval [("s", .thunk ⟨s.thunks.size⟩)]
      (.var "s"))) s' (.thunk ⟨s.thunks.size⟩) s' := fun s' => gives_var rfl
  refine ⟨⟨stamp, s₂, gives_apply_take rfl (gives_int n _ _) hstream htake, hlog⟩,
    ⟨s.thunks.size⟩, _, hstream, rfl, stamp, s₂,
    gives_apply_take rfl (gives_int n _ _) (hvar _) htake, hlog, ?_⟩
  intro s₃ hgrows₃ hmatures m hm
  obtain ⟨stamp', stamps, htake'⟩ := exists_take_again m
    ((hs.trans hgrows).trans (hgrows₂.trans hgrows₃)) (hunfolds.mono hgrows₃ hmatures) (by omega)
  exact ⟨stamp', stamps, gives_apply_take rfl (gives_int m _ _) (hvar _) htake'⟩

theorem finite_parts_two :
    ∃ env s₀ t s₁ stamp s₂, s₀.log = #[] ∧
      Gives env (fun again => again (.eval [] (apply "naturals_from" [int 5]))) s₀ (.thunk t) s₁ ∧
      Gives env (fun again => again (.eval [("s", .thunk t)] (apply "take" [int 2, .var "s"]))) s₁
        (.list stamp [.int 5, .int 6]) s₂ ∧
      s₂.log = #[.int 5, .int 6, .int 7] ∧
      ∃ stamp stamps, Gives env
        (fun again => again (.eval [("s", .thunk t)] (apply "take" [int 1, .var "s"]))) s₂
        (.list stamp [.int 5]) { s₂ with stamps := stamps } := by
  obtain ⟨-, env, s₀, -, hlog, h⟩ := finite_parts 0 5 2
  obtain ⟨-, t, s₁, hstream, -, stamp, s₂, htake, hlog₂, hagain⟩ := h s₀ (.refl s₀)
  rw [hlog] at hlog₂
  exact ⟨env, s₀, t, s₁, stamp, s₂, hlog, hstream, htake, hlog₂,
    hagain s₂ (.refl s₂) (.refl _) 1 (by omega)⟩

end LazyMatch
