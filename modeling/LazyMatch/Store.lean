import LazyMatch.Compiled
import LazyMatch.Expr

/-!
# The store

The store keeps what has an identity: records, deferred values, functions, closures, datatypes and
visits to constructors, beside the log, the counters and the supply of stamps. Nothing is ever
removed. A deferred value goes from pending to resolved, and is marked while its computation runs. A
record keeps its keys, unless it holds the members of a datatype and one of those is taken away.

* `Run` is a computation over the store: whatever it changed before it failed stays changed;
* `Store.newRecord`, `Store.newThunk`, … put things into the store;
* `Store.tag` reads the tag of a variant, which is the entry of its record under the empty name.
-/

namespace LazyMatch

/-- Local names, innermost first. -/
abbrev Scope := List (String × Value)

/-- What a rule binds, in the order in which it was bound. -/
abbrev Bindings := Table Value

/-- How an action is run on what its rule bound. -/
inductive Handler where
  /-- Hand it all bindings by name, wanted or not. -/
  | direct (action : Value)
  /-- Hand it the bindings it wants; an action that cannot be called is the answer itself. -/
  | adapted (action : Value)
  /-- Like `adapted`, and force the answer. -/
  | forced (action : Value)

/-- A compiled function. A lazy one defers its whole dispatch. -/
structure Function where
  name : String
  lazy : Bool
  plan : Plan
  rows : List (TestRow Handler)

instance : Inhabited Function := ⟨⟨"", false, ⟨[], [], []⟩, []⟩⟩

/-- How a function runs the action of a rule. A lazy one forces what the action answers, unless the
action is escaped. -/
def Handler.ofAction : Bool → Value → Handler
  | true, .phrase (.defer _ content) => .adapted content
  | true, v => .forced v
  | false, v => .adapted v

/-- The function of compiled rules. -/
def Function.ofCompiled (name : String) (lazy : Bool) (c : Compiled Value) : Function where
  name := name
  lazy := lazy
  plan := c.plan
  rows := c.rows.map fun row => ⟨row.test, Handler.ofAction lazy row.action⟩

/-- The number of arguments that a function takes. -/
def Function.arity (f : Function) : Nat := f.plan.params.length

/-- A function, written out. -/
def Function.quoted (f : Function) : String :=
  "<" ++ (if f.lazy then "lazy " else "") ++ "function " ++ f.name ++ "/" ++ toString f.arity ++ ">"

/-- An action made of parameters and a body, in the scope it was made in. -/
structure Closure where
  params : List (Param Value)
  body : Expr
  scope : Scope

instance : Inhabited Closure := ⟨⟨[], .constant .null, []⟩⟩

/-- What a deferred value computes. -/
inductive Computation where
  /-- An expression in a scope. -/
  | expr (label : Option String) (scope : Scope) (body : Expr)
  /-- The call of a function of no arguments. -/
  | call (callee : Value)
  /-- A lazy constant. -/
  | constant (r : RecordRef)
  /-- What a lazy factory has built. -/
  | variant (r : RecordRef)
  /-- The dispatch of a lazy function. -/
  | dispatch (f : FunctionRef) (args : List Value)

/-- The state of a deferred value. -/
inductive Cell where
  | pending (c : Computation)
  /-- Its computation is under way. -/
  | running (c : Computation)
  | resolved (v : Value)

-- What a reference to nothing would stand for: it never comes to anything.
instance : Inhabited Cell := ⟨.running (.constant ⟨0⟩)⟩

/-- Keys and entries in order. -/
abbrev Entries := List (Value × Value)

/-- The entry under a key. -/
def Entries.get? : Entries → Value → Option Value
  | [], _ => none
  | (k, v) :: rest, key => if k.sameKey key then some v else Entries.get? rest key

/-- Write an entry: in place when an equal key is there already, otherwise at the end. -/
def Entries.put : Entries → Value → Value → Entries
  | [], key, w => [(key, w)]
  | (k, v) :: rest, key, w =>
    if k.sameKey key then (k, w) :: rest else (k, v) :: Entries.put rest key w

/-- Write the entry at a place, if the key is still there, and under the key otherwise. -/
def Entries.putAt (e : Entries) (i : Nat) (key w : Value) : Entries :=
  if (e[i]?).any (·.1 = key) then e.set i (key, w) else e.put key w

/-- Take the entry under a key away. -/
def Entries.erase (e : Entries) (key : Value) : Entries := e.filter fun (k, _) => !k.sameKey key

/-- The entries of a table. -/
def Entries.ofTable (t : Table Value) : Entries := t.map fun (name, v) => (.text name, v)

/-- How far a visit to the constructors of a datatype has come. -/
inductive Visit where
  /-- The one at `next` comes next, as long as the record still holds `size` of them. -/
  | underway (constructors : RecordRef) (next size : Nat)
  /-- Constructors were entered in the meantime. -/
  | disturbed
  | over

instance : Inhabited Visit := ⟨.over⟩

/-- Everything that has an identity, and what evaluation leaves behind. -/
structure Store where
  records : Array Entries := #[]
  thunks : Array Cell := #[]
  functions : Array Function := #[]
  closures : Array Closure := #[]
  /-- Which records hold the members of the datatypes. -/
  datatypes : Array RecordRef := #[]
  visits : Array Visit := #[]
  /-- The next unused stamp. -/
  stamps : Nat := 0
  counters : Table Nat := []
  log : Array Value := #[]

/-- A computation over the store. -/
abbrev Run := ExceptT Stop (StateM Store)

/-- Fail. -/
def raise {α : Type} (f : Fault) : Run α := throw (.fault f)

/-- Run a computation that needs stamps. -/
def withStamps {α : Type} (x : Fresh α) : Run α :=
  modifyGet fun s => let (a, n) := x.run s.stamps; (a, { s with stamps := n })

/-- A result that may be missing for any reason. -/
def orStop {α : Type} : Except Stop α → Run α
  | .ok a => pure a
  | .error stop => throw stop

/-- A result that may be a fault. -/
def orRaise {α : Type} : Except Fault α → Run α
  | .ok a => pure a
  | .error f => raise f

namespace Store

/-- The entries of a record. -/
def entries (s : Store) (r : RecordRef) : Entries := s.records[r.index]?.getD []

/-- The state of a deferred value. -/
def cell (s : Store) (t : ThunkRef) : Cell := s.thunks[t.index]?.getD default

/-- A function. -/
def function (s : Store) (f : FunctionRef) : Function := s.functions[f.index]?.getD default

/-- A closure. -/
def closure (s : Store) (c : ClosureRef) : Closure := s.closures[c.index]?.getD default

/-- How far a visit has come. -/
def visit (s : Store) (v : VisitRef) : Visit := s.visits[v.index]?.getD default

/-- The record that holds the members of a datatype. -/
def members (s : Store) (d : DatatypeRef) : RecordRef := s.datatypes[d.index]?.getD ⟨s.records.size⟩

/-- Let a record hold the members of a datatype. -/
def setMembers (s : Store) (d : DatatypeRef) (r : RecordRef) : Store :=
  { s with datatypes := s.datatypes.setIfInBounds d.index r }

/-- Say how far a visit has come. -/
def setVisit (s : Store) (v : VisitRef) (state : Visit) : Store :=
  { s with visits := s.visits.setIfInBounds v.index state }

/-- Give a deferred value a new state. -/
def setCell (s : Store) (t : ThunkRef) (c : Cell) : Store :=
  { s with thunks := s.thunks.setIfInBounds t.index c }

/-- Give a record new entries. -/
def setEntries (s : Store) (r : RecordRef) (e : Entries) : Store :=
  { s with records := s.records.setIfInBounds r.index e }

/-- The entry of a record under a name. -/
def field? (s : Store) (r : RecordRef) (name : String) : Option Value :=
  (s.entries r).get? (.text name)

/-- The tag of a value: the entry of a record under the empty name, and null for anything else. -/
def tag (s : Store) : Value → Value
  | .record r => (s.field? r "").getD .null
  | _ => .null

/-- Whether a value has a tag. -/
def hasTag (s : Store) (v : Value) (key : String) : Bool := decide (s.tag v = .text key)

/-- Whether a value counts as true: nothing, zero and what is empty do not. -/
def isTrue (s : Store) : Value → Bool
  | .null => false
  | .bool b => b
  | .int i => i ≠ 0
  | .float _ decimal => !(Numeral.ofDecimal decimal).same (.ofInt 0)
  | .text t => t ≠ ""
  | .list _ items | .tuple _ items => !items.isEmpty
  | .record r => !(s.entries r).isEmpty
  | .phrase (.row r) => r.width ≠ 0
  | _ => true

end Store

/-! ### Putting things into the store -/

/-- A new record. -/
def newRecord (e : Entries) : Run RecordRef :=
  modifyGet fun s => (⟨s.records.size⟩, { s with records := s.records.push e })

/-- A new deferred value. -/
def newThunk (c : Computation) : Run ThunkRef :=
  modifyGet fun s => (⟨s.thunks.size⟩, { s with thunks := s.thunks.push (.pending c) })

/-- A new function. -/
def newFunction (f : Function) : Run FunctionRef :=
  modifyGet fun s => (⟨s.functions.size⟩, { s with functions := s.functions.push f })

/-- A new closure. -/
def newClosure (c : Closure) : Run ClosureRef :=
  modifyGet fun s => (⟨s.closures.size⟩, { s with closures := s.closures.push c })

/-- A new datatype with the given members. -/
def newDatatype (members : Table Value) : Run DatatypeRef := do
  let r ← newRecord (.ofTable members)
  modifyGet fun s => (⟨s.datatypes.size⟩, { s with datatypes := s.datatypes.push r })

/-- A new visit to the constructors that a record holds. -/
def newVisit (constructors : RecordRef) : Run VisitRef :=
  modifyGet fun s =>
    let visit := .underway constructors 0 (s.entries constructors).length
    (⟨s.visits.size⟩, { s with visits := s.visits.push visit })

/-- A new list. -/
def newList (items : List Value) : Run Value := return .list (← withStamps fresh) items

/-- A new tuple. -/
def newTuple (items : List Value) : Run Value := return .tuple (← withStamps fresh) items

mutual

/-- A fresh value of a datum. It fails when a key of a record cannot be one. -/
def Datum.make : Datum → Run Value
  | .null => pure .null
  | .bool b => pure (.bool b)
  | .int i => pure (.int i)
  | .float decimal => return .float (← withStamps fresh) decimal
  | .text s => pure (.text s)
  | .list items => do newList (← Datum.makeAll items)
  | .tuple items => do newTuple (← Datum.makeAll items)
  | .record entries => return .record (← newRecord (← Datum.makeEntries entries))

/-- Fresh values of data. -/
def Datum.makeAll : List Datum → Run (List Value)
  | [] => pure []
  | d :: rest => return (← d.make) :: (← Datum.makeAll rest)

/-- Fresh keys and entries of a record. -/
def Datum.makeEntries : List (Datum × Datum) → Run Entries
  | [] => pure []
  | (k, d) :: rest => do
    if !k.isKey then raise .wrongType
    return (← k.make, ← d.make) :: (← Datum.makeEntries rest)

end

/-- What a constructor is as a value: the one value of a constant, which is deferred when the
constant is lazy, or the factory itself. -/
def Constructor.make (c : Constructor) : Run Value :=
  match c.shape with
  | .factory _ => pure (.constructor c)
  | .constant => do
    let r ← newRecord [(.text "", .text c.key)]
    if c.lazy then return .thunk (← newThunk (.constant r)) else return .record r

/-- The entries of a variant: the fields under their names, then the tag under the empty name. -/
def Constructor.entries (c : Constructor) (args : List Value) : Entries :=
  Entries.ofTable (Table.put (Table.ofList (c.fields.zip args)) "" (.text c.key))

/-- Build a variant. A lazy factory defers what it has built. -/
def Constructor.build (c : Constructor) (args : List Value) : Run Value :=
  if args.length = c.fields.length then do
    let r ← newRecord (c.entries args)
    if c.lazy then return .thunk (← newThunk (.variant r)) else return .record r
  else raise (.wrongFieldCount c.key c.fields.length args.length)

end LazyMatch
