import LazyMatch.Store.Equality
import LazyMatch.Store.Text

/-!
# Dispatch

Matching walks a test and a value together and collects bindings. It forces a value only where the
test says so; how that is done is a parameter, since forcing runs arbitrary computations. A failing
alternative leaves no binding behind. A comparison that has no answer never ends.

* `Test.matches` puts one test to a value, `RowTest.matches` those of a row to the scrutinees;
* `select` finds the first row that matches;
* `Function.dispatch` runs the force plan of a function, selects a row and hands over to its action.
-/

namespace LazyMatch

mutual

/-- Match a value, adding to the bindings; `none` when it does not match. -/
def Test.matches (force : Value → Run Value) :
    Test → Value → Bindings → Run (Option Bindings)
  | .wild, _, b => return some b
  | .bind name, v, b => return some (b.put name v)
  | .equal w, v, b => do
    match (← get).equal? v w with
    | some true => return some b
    | some false => return none
    | none => throw .exhausted
  | .tag key, v, b => return if (← get).hasTag v key then some b else none
  | .fields key subs, v, b => do
    match v, (← get).hasTag v key with
    | .record r, true => Test.matchFields force subs r b
    | _, _ => return none
  | .named inner name, v, b => return (← inner.matches force v b).map (·.put name v)
  | .either options, v, b => Test.matchFirst force options v b
  | .strict inner, v, b => do inner.matches force (← force v) b

/-- Match the fields of a record in order. A field that is not there is a fault. -/
def Test.matchFields (force : Value → Run Value) :
    List (String × Test) → RecordRef → Bindings → Run (Option Bindings)
  | [], _, b => return some b
  | (name, sub) :: rest, r, b => do
    match (← get).field? r name with
    | none => raise .missingKey
    | some v =>
      match ← sub.matches force v b with
      | none => return none
      | some b => Test.matchFields force rest r b

/-- The bindings of the first option that matches. -/
def Test.matchFirst (force : Value → Run Value) :
    List Test → Value → Bindings → Run (Option Bindings)
  | [], _, _ => return none
  | p :: rest, v, b => do
    match ← p.matches force v b with
    | none => Test.matchFirst force rest v b
    | some b => return some b

end

/-- Match tests against scrutinees, position by position, up to the shorter of the two lists. -/
def matchVector (force : Value → Run Value) :
    List Test → List Value → Bindings → Run (Option Bindings)
  | p :: ps, v :: vs, b => do
    match ← p.matches force v b with
    | none => return none
    | some b => matchVector force ps vs b
  | _, _, b => return some b

/-- The bindings of the first of several rows that matches. -/
def matchGroup (force : Value → Run Value) (values : List Value) :
    List (List Test) → Run (Option Bindings)
  | [] => return none
  | tests :: rest => do
    match ← matchVector force tests values [] with
    | none => matchGroup force values rest
    | some b => return some b

/-- Match a row against the scrutinees. -/
def RowTest.matches (force : Value → Run Value) (values : List Value) :
    RowTest → Run (Option Bindings)
  | .row tests => matchVector force tests values []
  | .group alternatives => matchGroup force values alternatives
  | .otherwise => return some []

/-- The action of the first row that matches, with its bindings. -/
def select {α : Type} (force : Value → Run Value) (values : List Value) :
    List (TestRow α) → Run (Option (α × Bindings))
  | [] => return none
  | row :: rest => do
    match ← row.test.matches force values with
    | none => select force values rest
    | some b => return some (row.action, b)

/-- Select a row and hand its bindings to its action; it is a fault when there is none. -/
def matchRows {α : Type} (force : Value → Run Value) (act : α → Bindings → Run Value)
    (name : String) (rows : List (TestRow α)) (values : List Value) : Run Value := do
  match ← select force values rows with
  | some (action, b) => act action b
  | none => throw ((← get).noMatch name values)

/-- Run the force plan of a function on its arguments, then match its rows. -/
def Function.dispatch (force : Value → Run Value) (act : Handler → Bindings → Run Value)
    (f : Function) (args : List Value) : Run Value := do
  matchRows force act f.name f.rows (← f.plan.run force args)

end LazyMatch
