import LazyMatch.Plan
import Mathlib.Data.List.Forall2
import Mathlib.Data.List.Nodup

/-!
# What a force plan does

A plan speaks of names: parameters `arg0`, `arg1`, … and fresh names `forced0`, `forced1`, … for
those that are forced. The names are all different, so filling the frame, running the bindings and
reading the names to dispatch on amounts to going through the arguments once, from left to right.

* `forceWhere` is that walk: it forces the arguments in demand and hands on the others;
* `Plan.run_ofDemand`: running the plan of a demand is the walk.
-/

namespace LazyMatch

/-! ### Names -/

/-- The standard name of a parameter. -/
def argName (i : ℕ) : String := "arg" ++ toString i

/-- The name of a forced parameter. -/
def forcedName (i : ℕ) : String := "forced" ++ toString i

theorem repr_injective {i j : ℕ} (h : i.repr = j.repr) : i = j := by
  have hd : Nat.toDigits 10 i = Nat.toDigits 10 j := by
    rw [← Nat.toList_repr, ← Nat.toList_repr, h]
  rw [← Nat.ofDigitChars_toDigits (b := 10) (n := i) (by decide) (by decide), hd,
    Nat.ofDigitChars_toDigits (by decide) (by decide)]

theorem argName_injective {i j : ℕ} (h : argName i = argName j) : i = j :=
  repr_injective (String.append_right_inj _ |>.mp h)

theorem forcedName_injective {i j : ℕ} (h : forcedName i = forcedName j) : i = j :=
  repr_injective (String.append_right_inj _ |>.mp h)

theorem forcedName_ne_argName (i j : ℕ) : forcedName i ≠ argName j := by
  intro h
  have := congrArg (fun s : String => s.toList.head?) h
  simp [forcedName, argName] at this

theorem standardNames_eq (n : ℕ) : standardNames n = (List.range n).map argName := rfl

theorem nodup_standardNames (n : ℕ) : (standardNames n).Nodup :=
  List.Nodup.map (fun _ _ h => argName_injective h) List.nodup_range

/-! ### The plan of a demand, position by position -/

/-- The names to dispatch on for a demand that starts at a position. -/
def dispatchFrom : ℕ → List Bool → List String
  | _, [] => []
  | k, needed :: need => (if needed then forcedName k else argName k) :: dispatchFrom (k + 1) need

/-- The bindings for a demand that starts at a position. -/
def bindingsFrom : ℕ → List Bool → List (String × String)
  | _, [] => []
  | k, needed :: need =>
    (if needed then [(forcedName k, argName k)] else []) ++ bindingsFrom (k + 1) need

theorem dispatch_eq_dispatchFrom (k : ℕ) (need : List Bool) :
    ((((List.range' k need.length).map argName).zip need).zipIdx k).map
      (fun ((p, needed), i) => if needed then "forced" ++ toString i else p) =
      dispatchFrom k need := by
  induction need generalizing k with
  | nil => rfl
  | cons needed need ih =>
    simp only [List.length_cons, List.range'_succ, List.map_cons, List.zip_cons_cons,
      List.zipIdx_cons, dispatchFrom, ih, forcedName]

theorem bindings_eq_bindingsFrom (k : ℕ) (need : List Bool) :
    (((List.range' k need.length).map argName).zip (dispatchFrom k need)).filterMap
      (fun (old, new) => if new = old then none else some (new, old)) = bindingsFrom k need := by
  induction need generalizing k with
  | nil => rfl
  | cons needed need ih =>
    simp only [List.length_cons, List.range'_succ, List.map_cons, dispatchFrom,
      List.zip_cons_cons, bindingsFrom, ← ih]
    cases needed with
    | false => simp
    | true => simp [forcedName_ne_argName]

/-- The plan of a demand over the standard names. -/
theorem Plan.ofDemand_standardNames (need : List Bool) :
    Plan.ofDemand (standardNames need.length) need =
      .ok ⟨standardNames need.length, bindingsFrom 0 need, dispatchFrom 0 need⟩ := by
  have hd := dispatch_eq_dispatchFrom 0 need
  have hb := bindings_eq_bindingsFrom 0 need
  rw [← List.range_eq_range', ← standardNames_eq] at hd hb
  simp only [Plan.ofDemand, standardNames, List.length_map, List.length_range, if_true]
  simp only [← standardNames.eq_1, hd, hb]

/-! ### The walk -/

section Walk

variable {m : Type → Type} [Monad m]

/-- Go through arguments from left to right: force those in demand and hand on the others. -/
def forceWhere (force : Value → m Value) : List Bool → List Value → m (List Value)
  | needed :: need, v :: args => do
    let w ← if needed then force v else pure v
    return w :: (← forceWhere force need args)
  | _, _ => pure []

theorem forceWhere_cons (force : Value → m Value) (needed : Bool) (need : List Bool) (v : Value)
    (args : List Value) :
    forceWhere force (needed :: need) (v :: args) =
      ((if needed then force v else pure v) >>= fun w =>
        forceWhere force need args >>= fun values => pure (w :: values)) := by
  cases needed <;> rfl

variable [MonadExceptOf Stop m] [LawfulMonad m]

/-- Reading names that are all in the frame. -/
theorem mapM_read {frame : Table Value} {names : List String} {values : List Value}
    (h : List.Forall₂ (fun name v => frame.get? name = some v) names values) :
    names.mapM (Plan.read (m := m) frame) = pure values := by
  induction h with
  | nil => simp
  | cons hv _ ih => simp [Plan.read, hv, ih]

/-- Names stay readable when another name is written. -/
theorem readable_put {frame : Table Value} {names : List String} {values : List Value}
    (h : List.Forall₂ (fun name v => frame.get? name = some v) names values) {new : String}
    (hnew : new ∉ names) (w : Value) :
    List.Forall₂ (fun name v => (frame.put new w).get? name = some v) names values := by
  induction h with
  | nil => exact .nil
  | cons hv _ ih =>
    simp only [List.mem_cons, not_or] at hnew
    exact .cons (by rw [Table.get?_put_of_ne _ (Ne.symm hnew.1), hv]) (ih hnew.2)

/-- Running the bindings of a demand and then reading what has been read already and the names to
dispatch on. What was read already stays readable, since the fresh names are new to it. -/
theorem bindForced_walk (force : Value → m Value) (need : List Bool) :
    ∀ (k : ℕ) (args : List Value) (frame : Table Value) (seen : List String) (values : List Value),
      args.length = need.length →
      (∀ i v, args[i]? = some v → frame.get? (argName (k + i)) = some v) →
      List.Forall₂ (fun name v => frame.get? name = some v) seen values →
      (∀ i, k ≤ i → forcedName i ∉ seen) →
      (do
        let frame ← Plan.bindForced force (bindingsFrom k need) frame
        (seen ++ dispatchFrom k need).mapM (Plan.read frame)) =
        (do return values ++ (← forceWhere force need args)) := by
  induction need with
  | nil =>
    intro k args frame seen values hlen _ hseen _
    obtain rfl := List.length_eq_zero_iff.mp hlen
    simp [bindingsFrom, dispatchFrom, Plan.bindForced, forceWhere, mapM_read hseen]
  | cons needed need ih =>
    intro k args frame seen values hlen hargs hseen hnew
    obtain _ | ⟨v, args⟩ := args
    · simp at hlen
    have hv : frame.get? (argName k) = some v := by simpa using hargs 0 v (by simp)
    have hrest : ∀ i w, args[i]? = some w → frame.get? (argName (k + 1 + i)) = some w := by
      intro i w hw
      rw [Nat.add_assoc, Nat.add_comm 1 i]
      exact hargs (i + 1) w (by simpa using hw)
    cases needed with
    | false =>
      have hstep := ih (k + 1) args frame (seen ++ [argName k]) (values ++ [v])
        (by simpa using hlen) hrest (List.rel_append hseen (.cons hv .nil)) (by
          intro i hi
          simp only [List.mem_append, List.mem_singleton, not_or]
          exact ⟨hnew i (by omega), forcedName_ne_argName i k⟩)
      simpa [bindingsFrom, dispatchFrom, forceWhere] using hstep
    | true =>
      simp only [bindingsFrom, dispatchFrom, forceWhere, if_true, List.singleton_append,
        Plan.bindForced, Plan.read, hv, pure_bind, bind_assoc]
      refine bind_congr fun w => ?_
      have hstep := ih (k + 1) args (frame.put (forcedName k) w) (seen ++ [forcedName k])
        (values ++ [w]) (by simpa using hlen) (by
          intro i u hu
          rw [Table.get?_put_of_ne _ (forcedName_ne_argName k _).symm]
          exact hrest i u hu)
        (List.rel_append (readable_put hseen (hnew k (Nat.le_refl k)) w)
          (.cons (Table.get?_put_self ..) .nil)) (by
          intro i hi
          simp only [List.mem_append, List.mem_singleton, not_or]
          exact ⟨hnew i (by omega), fun h => by have := forcedName_injective h; omega⟩)
      simpa using hstep

/-- **Running the plan of a demand goes through the arguments once.** -/
theorem Plan.run_ofDemand (force : Value → m Value) {need : List Bool} {plan : Plan}
    (hplan : Plan.ofDemand (standardNames need.length) need = .ok plan) {args : List Value}
    (hargs : args.length = need.length) :
    plan.run force args = forceWhere force need args := by
  rw [Plan.ofDemand_standardNames, Except.ok.injEq] at hplan
  subst hplan
  have hnames : (Table.names ((standardNames need.length).zip args)).Nodup := by
    rw [Table.names, List.map_fst_zip (by simp [standardNames, hargs])]
    exact nodup_standardNames _
  have hframe : ∀ i v, args[i]? = some v →
      Table.get? ((standardNames need.length).zip args) (argName (0 + i)) = some v := by
    intro i v hv
    have hi := (List.getElem?_eq_some_iff.mp hv).1
    refine Table.get?_of_mem hnames (List.mem_of_getElem? (i := i) ?_)
    rw [List.getElem?_zip_eq_some]
    exact ⟨by simp [standardNames, argName, List.getElem?_range (hargs ▸ hi)], hv⟩
  have hwalk := bindForced_walk force need 0 args _ [] [] hargs hframe .nil (by simp)
  simpa [Plan.run, Table.ofList_of_nodup hnames] using hwalk

end Walk

end LazyMatch
