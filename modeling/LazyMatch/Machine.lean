import LazyMatch.Dispatch
import LazyMatch.Store.Member

/-!
# Evaluation

Evaluating an expression, calling a function and forcing a deferred value run each other without a
bound, so evaluation is given fuel. Each kind of work is a `Task`; `step` does one task, handing the
tasks it leads to back to its argument `again`, and `perform` closes the circle with one unit of
fuel less. Running out of fuel is not a fault of the program.

* `resolve` computes one layer of a deferred value; while its computation runs the value is marked,
  and whatever ends the computation takes the mark off;
* `forceLayers` goes on until the value is not deferred; a chain of layers that comes back to
  itself is a fault;
* `settle` forces the entries of records in place, breadth first;
* `handle` runs the action of a rule on what the rule bound.
-/

namespace LazyMatch

/-- What expressions can refer to besides their scope. -/
structure Env where
  registry : Registry := .empty
  datatypes : Table DatatypeRef := []
  globals : Table Value := []
  /-- Phrases stored under names. -/
  phrases : Table Phrase := []

/-- What evaluation has to do. -/
inductive Task where
  | eval (scope : Scope) (e : Expr)
  | pattern (p : PatternExpr)
  | row (r : RowExpr)
  | action (scope : Scope) (a : ActionExpr)
  | call (callee : Value) (args : List Value)
  | dispatch (f : FunctionRef) (args : List Value)
  | handle (h : Handler) (b : Bindings)
  | resolve (t : ThunkRef)
  /-- Force a value whose chain of layers has come through `passed`. -/
  | force (passed : List ThunkRef) (v : Value)
  | settle (queue : List RecordRef)

/-- A member, read off the datatype of a name. -/
def Env.attribute (env : Env) (datatype name : String) : Run Value :=
  match env.datatypes.get? datatype with
  | none => raise .missingKey
  | some d => readMember d name

/-! ### Operations on values -/

/-- Two integers, or a fault. -/
def integers (a b : Value) : Except Fault (Int × Int) :=
  match a.integer?, b.integer? with
  | some x, some y => .ok (x, y)
  | _, _ => .error .wrongType

/-- Join two texts, lists or tuples, or add two integers. A tuple joined with the empty one is the
same tuple. -/
def add : Value → Value → Run Value
  | .text a, .text b => return .text (a ++ b)
  | .list _ a, .list _ b => newList (a ++ b)
  | .tuple s a, .tuple _ [] => return .tuple s a
  | .tuple _ [], .tuple t b => return .tuple t b
  | .tuple _ a, .tuple _ b => newTuple (a ++ b)
  | a, b => do
    let (x, y) ← orRaise (integers a b)
    return .int (x + y)

/-- Order of integers, or of texts by code point. -/
def less : Value → Value → Except Fault Bool
  | .text a, .text b => .ok (a < b)
  | a, b => (integers a b).map fun (x, y) => x < y

/-- Whether there is only one object of a value, however often it is made. Of most numbers and texts
there can be several. -/
def Value.isUnique : Value → Bool
  | .int i => -5 ≤ i && i ≤ 256
  | .float _ _ => false
  | .text t => t.toList.length < 2 && t.toList.all (·.toNat < 256)
  | _ => true

/-- Whether an expression makes its value anew. -/
def Expr.makes : Expr → Bool
  | .constant _ | .binary .add _ _ | .binary .sub _ _ | .binary .mul _ _ => true
  | _ => false

/-- An operation on two values. -/
def binary : BinaryOp → Value → Value → Run Value
  | .add, a, b => add a b
  | .sub, a, b => do
    let (x, y) ← orRaise (integers a b)
    return .int (x - y)
  | .mul, a, b => do
    let (x, y) ← orRaise (integers a b)
    return .int (x * y)
  | .less, a, b => return .bool (← orRaise (less a b))
  | .same, a, b => return .bool (a.same b)

/-- A row for a rule. -/
def toRuleRow (v : Value) : Run RuleRow := do
  match ← withStamps (RuleRow.ofValue? v) with
  | some row => return row
  | none => raise (.notARow (← orStop ((← get).written v)))

/-- A group of rows. It needs at least one, and each must be plain. -/
def groupRows (rows : List RuleRow) : Run Value := do
  match rows.mapM RuleRow.row? with
  | some (first :: rest) => return .phrase (.group (← withStamps fresh) first rest)
  | _ => raise .violatedAssumption

/-! ### Arguments -/

/-- Whether a parameter can take an argument by name. -/
def Param.takesName {α : Type} (p : Param α) : Bool := p.kind = .plain || p.kind = .keyword

/-- Whether some parameter takes all further arguments by name. -/
def takesAllNames {α : Type} (params : List (Param α)) : Bool :=
  params.any (·.kind = .restKeyword)

/-- Whether some parameter can take an argument of this name. -/
def wants {α : Type} (params : List (Param α)) (name : String) : Bool :=
  params.any fun p => p.takesName && p.key = name

/-- What the parameters take of arguments by position and of bindings by name. -/
def distribute (b : Bindings) (extra : Bindings) :
    List (Param Value) → List Value → Run Scope
  | [], [] => return []
  | [], _ :: _ => raise .wrongType
  | ⟨name, .restPositional, _⟩ :: rest, args => do
    return (name, ← newTuple args) :: (← distribute b extra rest [])
  | ⟨name, .restKeyword, _⟩ :: rest, args => do
    return (name, .record (← newRecord (.ofTable extra))) :: (← distribute b extra rest args)
  | ⟨name, .positional, _⟩ :: rest, v :: args | ⟨name, .plain, _⟩ :: rest, v :: args => do
    return (name, v) :: (← distribute b extra rest args)
  | p :: rest, args => do
    match (if p.takesName then b.get? p.key else none).or p.fallback with
    | some v => return (p.name, v) :: (← distribute b extra rest args)
    | none => raise .wrongType

/-- The scope of a closure's body: its parameters over the scope it was made in. A binding that no
parameter takes is a fault, and so is a parameter that gets nothing. -/
def Closure.enter (c : Closure) (args : List Value) (b : Bindings) : Run Scope := do
  let extra := b.filter fun e => !wants c.params e.1
  if !extra.isEmpty && !takesAllNames c.params then raise .wrongType
  return (← distribute b extra c.params args) ++ c.scope

/-- The bindings that an action with these parameters is handed: all if it takes all or cannot tell
which it takes, else those it can take by name. -/
def wanted (params : List (Param Value)) (b : Bindings) : Bindings :=
  if takesAllNames params || params.any Param.isDisguised then b
  else b.filter fun e => wants params e.1

/-- The arguments for plain parameters, from bindings under exactly their names. -/
def argumentsFor (params : List String) (b : Bindings) : Run (List Value) := do
  match b.all (fun e => params.contains e.1), params.mapM b.get? with
  | true, some args => return args
  | _, _ => raise .wrongType

/-- Add an entry to those of a record that is being made: a key and what it is the key of. A later
entry under an equal key replaces the earlier one in place. -/
def addPair (entries : Entries) (v : Value) : Run Entries := do
  match ← listElements v with
  | [key, entry] => if key.isKey then return entries.put key entry else raise .wrongType
  | _ => raise .notAPair

/-! ### The tasks -/

section Tasks

variable (env : Env) (again : Task → Run Value)

/-- Operations on one value. -/
def unary : UnaryOp → Value → Run Value
  | .force, v => again (.force [] v)
  | .forceOnce, .thunk t => again (.resolve t)
  | .forceOnce, v => raise (v.refusal "force")
  | .complete, v => do
    let v ← again (.force [] v)
    match v with
    | .record r => do discard (again (.settle [r])); return v
    | _ => return v
  | .isDeferred, v => return .bool v.isDeferred
  | .isResolved, .thunk t => do
    match (← get).cell t with
    | .resolved _ => return .bool true
    | _ => return .bool false
  | .isResolved, v => raise (v.refusal "is_resolved")
  | .tag, v => return (← get).tag v
  | .text, v => return .text (Text.anonymous (← orStop ((← get).shown v)))

/-- The value of a name: local, else global. -/
def lookup (scope : Scope) (name : String) : Run Value :=
  match (Table.get? scope name).or (env.globals.get? name) with
  | some v => pure v
  | none => raise .unboundName

/-- Evaluate an expression. -/
def evalExpr (scope : Scope) : Expr → Run Value
  | .constant d => d.make
  | .var name => lookup env scope name
  | .attribute datatype name => env.attribute datatype name
  | .call callee args => do
    let callee ← again (.eval scope callee)
    again (.call callee (← args.mapM fun e => again (.eval scope e)))
  | .list items => do newList (← items.mapM fun e => again (.eval scope e))
  | .tuple items => do newTuple (← items.mapM fun e => again (.eval scope e))
  | .record entries => do
    let entries ← entries.mapM fun (name, e) => return (name, ← again (.eval scope e))
    return .record (← newRecord (.ofTable (Table.ofList entries)))
  | .get container key => do
    let container ← again (.eval scope container)
    let key ← key.make
    reading (·.index container key)
  | .sequence steps => do
    let values ← steps.mapM fun e => again (.eval scope e)
    match values.getLast? with
    | some v => return v
    | none => raise .outOfRange
  | .cond test yes no => do
    let v ← again (.eval scope test)
    if (← get).isTrue v then again (.eval scope yes) else again (.eval scope no)
  | .unary op arg => do unary again op (← again (.eval scope arg))
  | .binary op left right => do
    let a ← again (.eval scope left)
    let b ← again (.eval scope right)
    if op = .same && (left.makes || right.makes) && !a.isUnique then return .bool false
    else binary op a b
  | .log entry => do
    let v ← again (.eval scope entry)
    modify fun s => { s with log := s.log.push v }
    return .null
  | .count counter => do
    let n := ((← get).counters.get? counter).getD 0 + 1
    modify fun s => { s with counters := s.counters.put counter n }
    return .int n
  | .fail text => raise (.failure text)
  | .delay label body => return .thunk (← newThunk (.expr label scope body))
  | .delayCall callee => do
    let v ← again (.eval scope callee)
    if v.isCallable then return .thunk (← newThunk (.call v)) else raise .violatedAssumption
  | .phrase p => do return .phrase (← withStamps (Phrase.ofValue (← again (.pattern p))))
  | .action a => again (.action scope a)

/-- The plain value that a pattern is written as, or the phrase. A pattern sees global names only,
wherever it stands. -/
def makePattern : PatternExpr → Run Value
  | .datum d => d.make
  | .tuple items => do newTuple (← items.mapM fun p => again (.pattern p))
  | .name text => return .phrase (.name (← withStamps fresh) text)
  | .literal d => do
    let v ← d.make
    return .phrase (.literal (← withStamps fresh) v)
  | .escape content => do
    return .phrase (← withStamps (Phrase.escape (← again (.pattern content))))
  | .defer content => do
    let v ← again (.pattern content)
    return .phrase (.defer (← withStamps fresh) v)
  | .named inner name => do
    let p ← withStamps (Phrase.ofValue (← again (.pattern inner)))
    return .phrase (.named (← withStamps fresh) p ⟨← withStamps fresh, name⟩)
  | .either alternatives => do
    let values ← alternatives.mapM fun p => again (.pattern p)
    let phrases ← withStamps (Phrase.ofValues values)
    return .phrase (.either (← withStamps fresh) phrases)
  | .value e => again (.eval [] e)
  | .stored name =>
    match env.phrases.get? name with
    | some p => return .phrase p
    | none => raise .missingKey
  | .row r => again (.row r)

/-- The plain value that a row is written as, or the phrase. -/
def makeRow : RowExpr → Run Value
  | .list cells => do newList (← cells.mapM fun p => again (.pattern p))
  | .tuple cells => do newTuple (← cells.mapM fun p => again (.pattern p))
  | .row cells => do
    let values ← cells.mapM fun p => again (.pattern p)
    let phrases ← withStamps (Phrase.ofValues values)
    return .phrase (.row (.mk (← withStamps fresh) phrases))
  | .group rows => do
    let values ← rows.mapM fun r => again (.row r)
    groupRows (← values.mapM toRuleRow)
  | .otherwise => return .phrase .otherwise
  | .pattern p => again (.pattern p)
  | .datum d => d.make

/-- Make an action. -/
def makeAction (scope : Scope) : ActionExpr → Run Value
  | .constant d => d.make
  | .value e => again (.eval scope e)
  | .collect => return .kind .record
  | .escape a => do return .phrase (← withStamps (Phrase.escape (← again (.action scope a))))
  | .lambda params body => do
    let params ← params.mapM fun p => do
      let fallback ← p.fallback.mapM Datum.make
      return { name := p.name, kind := p.kind, fallback }
    if !Param.wellFormed params then raise .malformedParameters
    return .closure (← newClosure ⟨Param.arrange params, body, scope⟩)

/-- Run the body of a closure on arguments and bindings. -/
def enter (c : ClosureRef) (args : List Value) (b : Bindings) : Run Value := do
  let closure := (← get).closure c
  again (.eval (← closure.enter args b) closure.body)

/-- Make a record of a value: a copy of a record, or one of keys and entries. What says itself which
keys it has must have none. -/
def makeRecord : Value → Run Value
  | .record r => do return .record (← newRecord ((← get).entries r))
  | .noted _ _ => raise .wrongType
  | .datatype d => do
    match (← get).member d "keys" with
    | .ok keys =>
      let keys ← listElements (← again (.call keys []))
      if keys.isEmpty then return .record (← newRecord []) else raise .wrongType
    | .error (.noSuchAttribute _) =>
      return .record (← newRecord (← foldElements addPair [] (.datatype d)))
    | .error fault => raise fault
  | v => do return .record (← newRecord (← foldElements addPair [] v))

/-- Make an object of a kind. -/
def makeObject : Kind → List Value → Run Value
  | .record, [] => return .record (← newRecord [])
  | .record, [v] => makeRecord again v
  | .datatype, [name] => return .datatype (← makeUndeclared name)
  | .object, [] => create [.kind .object]
  | _, _ => raise .wrongType

/-- Make an object again. The older way takes the kind itself for what it builds on, or that of all
objects; the newer one makes an object that has nothing to it yet. -/
def rebuild : Rebuilder → List Value → Run Value
  | .older, [kind, .kind .object, _] => create [kind]
  | .older, [.kind .datatype, .kind .datatype, name] => makeObject again .datatype [name]
  | .older, [.kind .record, .kind .record, v] | .older, [.kind .record, .noted _ _, v] =>
    makeObject again .record [v]
  | .newer, .kind .record :: _ => makeObject again .record []
  | .newer, args => create args
  | _, _ => raise .wrongType

/-- Call a value with arguments by position. -/
def call : Value → List Value → Run Value
  | .constructor c, args => if c.isConstant then raise .wrongType else c.build args
  | .function f, args => do
    let function := (← get).function f
    if args.length = function.arity then
      if function.lazy then return .thunk (← newThunk (.dispatch f args))
      else again (.dispatch f args)
    else raise (.wrongArgumentCount function.name function.arity args.length)
  | .closure c, args => enter again c args []
  | .operation _ op d, args => operate d op args
  | .kind k, args => makeObject again k args
  | .noted _ _, args => makeObject again .record args
  | .rebuilder r, args => rebuild again r args
  | _, _ => raise .wrongType

/-- The names of the parameters of what is neither a closure nor the kind of records; a factory or
a function has none. -/
def parameters : Value → List String
  | .operation _ op _ => op.params
  | .kind .datatype => ["name"]
  | .rebuilder r => r.params
  | _ => []

/-- The bindings that a value is handed which is neither a closure nor the kind of records: those
that its parameters name, but all for an operation that all datatypes share. -/
def wantedBy (v : Value) (b : Bindings) : Bindings :=
  match v with
  | .operation _ op _ => if op.isShared then b else b.filter fun e => op.params.contains e.1
  | v => b.filter fun e => (parameters v).contains e.1

/-- Run the action of a rule on what the rule bound. -/
def handle : Handler → Bindings → Run Value
  | .direct (.closure c), b => enter again c [] b
  | .adapted (.closure c), b => do enter again c [] (wanted ((← get).closure c).params b)
  | .direct (.kind .record), b | .adapted (.kind .record), b
  | .direct (.noted _ _), b | .adapted (.noted _ _), b => return .record (← newRecord (.ofTable b))
  | .direct v, b => do
    if v.isCallable then again (.call v (← argumentsFor (parameters v) b)) else raise .wrongType
  | .adapted v, b => do
    if v.isCallable then again (.call v (← argumentsFor (parameters v) (wantedBy v b)))
    else return v
  | .forced v, b => do again (.force [] (← again (.handle (.adapted v) b)))

/-- Compute what a deferred value stands for. -/
def compute : Computation → Run Value
  | .expr _ scope body => again (.eval scope body)
  | .call callee => again (.call callee [])
  | .constant r | .variant r => return .record r
  | .dispatch f args => again (.dispatch f args)

/-- One layer of a deferred value. Its computation runs at most once at a time and is forgotten when
it has answered; until then the value stays pending and can be asked again. -/
def resolve (t : ThunkRef) : Run Value := do
  match (← get).cell t with
  | .resolved v => return v
  | .running _ => raise (.circularForce (← orStop ((← get).shown (.thunk t))))
  | .pending c =>
    modify (·.setCell t (.running c))
    let v ← tryCatch (compute again c) fun stop => do
      modify (·.setCell t (.pending c))
      throw stop
    if v = .thunk t then
      modify (·.setCell t (.pending c))
      raise (.circularForce (← orStop ((← get).shown (.thunk t))))
    else
      modify (·.setCell t (.resolved v))
      return v

/-- Force layer by layer until the value is not deferred. -/
def forceLayers (passed : List ThunkRef) : Value → Run Value
  | .thunk t => do
    if t ∈ passed then raise (.circularForce (← orStop ((← get).shown (.thunk t))))
    else again (.force (t :: passed) (← again (.resolve t)))
  | v => return v

/-- Fail on a record that no longer has so many entries. -/
def requireSize (r : RecordRef) (size : Nat) : Run Unit := do
  if ((← get).entries r).length ≠ size then raise .disturbed

/-- Force the entry at a place of a record, where it is, and answer it. -/
def settleEntry (r : RecordRef) (i : Nat) : Run Value := do
  match ((← get).entries r)[i]? with
  | some (key, .thunk t) => do
    let v ← again (.force [] (.thunk t))
    modify fun s => s.setEntries r ((s.entries r).putAt i key v)
    return v
  | some (_, v) => return v
  | none => return .null

/-- Force the entries at the given places of a record, where they are by then, and answer the
records among them. The record must keep its size the while. -/
def settleEntries (r : RecordRef) (size : Nat) : List Nat → Run (List RecordRef)
  | [] => do
    requireSize r size
    return []
  | i :: rest => do
    requireSize r size
    let v ← settleEntry again r i
    let found ← settleEntries r size rest
    match v with
    | .record q => return q :: found
    | _ => return found

/-- Force the entries of queued records in place, and of the records they hold. With a record that
is not in the store this never comes to an end. -/
def settle : List RecordRef → Run Value
  | [] => return .null
  | r :: queue => do
    match (← get).records[r.index]? with
    | none => throw .exhausted
    | some entries => do
      let found ← settleEntries again r entries.length (List.range entries.length)
      again (.settle (queue ++ found))

/-- Do one task. -/
def step : Task → Run Value
  | .eval scope e => evalExpr env again scope e
  | .pattern p => makePattern env again p
  | .row r => makeRow again r
  | .action scope a => makeAction again scope a
  | .call callee args => call again callee args
  | .dispatch f args => do
    let function := (← get).function f
    function.dispatch (fun v => again (.force [] v)) (fun h b => again (.handle h b)) args
  | .handle h b => handle again h b
  | .resolve t => resolve again t
  | .force passed v => forceLayers again passed v
  | .settle queue => settle again queue

end Tasks

/-- Do a task, with fuel for so many levels of tasks within tasks. -/
def perform (env : Env) : Nat → Task → Run Value
  | 0, _ => throw .exhausted
  | fuel + 1, task => step env (perform env fuel) task

end LazyMatch
