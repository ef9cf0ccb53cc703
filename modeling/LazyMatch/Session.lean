import LazyMatch.Fault.Message
import LazyMatch.Session.Step

/-!
# Sessions

A session holds a registry, global names, stored phrases and a store, and works through steps. A
step that fails leaves whatever it changed before; the session goes on.

* `Session.perform` does one step, with an evaluator for what there is to evaluate.
-/

namespace LazyMatch

/-- What persists between steps. -/
structure Session where
  env : Env := {}
  store : Store := {}

/-- A computation over a session. -/
abbrev SessionM := ExceptT Stop (StateM Session)

namespace Session

/-- Run a computation over the store of the session. -/
def run {α : Type} (x : Env → Run α) : SessionM α := do
  let session ← get
  let (result, store) := StateT.run (ExceptT.run (x session.env)) session.store
  set { session with store }
  MonadExcept.ofExcept result

/-- Fail. -/
def fail {α : Type} (f : Fault) : SessionM α := throw (.fault f)

/-- A result that may be a fault. -/
def orFail {α : Type} : Except Fault α → SessionM α
  | .ok a => return a
  | .error f => fail f

/-- Something that must be there. -/
def required {α : Type} : Option α → SessionM α
  | some a => return a
  | none => fail .missingKey

/-- Fail unless a condition holds. -/
def demand (condition : Bool) (f : Fault) : SessionM Unit :=
  if condition then return () else fail f

/-- The store. -/
def heap : SessionM Store := return (← get).store

/-- Something written that depends on the store, unless it cannot be written. -/
def writing {α : Type} (write : Store → Except Stop α) : SessionM α :=
  run fun _ => do orStop (write (← get))

/-- A value in running text. -/
def shown (v : Value) : SessionM String := writing (·.shown v)

/-! ### Tags -/

/-- The registry, with the constructors that the datatypes have by now. -/
def registry : SessionM Registry := do
  let session ← get
  let registry := session.env.registry
  return { registry with datatypes := registry.datatypes.map fun (name, d) =>
    match session.env.datatypes.get? name with
    | some ref => (name, d.current session.store ref)
    | none => (name, d) }

/-- The datatype of a name. -/
def datatype (name : String) : SessionM DatatypeRef := do required ((← get).env.datatypes.get? name)

/-- A value, unfolded. -/
def view (v : Value) : SessionM View := run fun _ => do orStop ((← get).view v)

/-- The name that a datatype has by now. -/
def currentName (d : DatatypeRef) : SessionM View := do view (← orFail ((← heap).member d "name"))

/-- Describe a constructor. Any other value has no description, whether it can be shown or not. -/
def describe : Value → SessionM Description
  | .constructor c => return ⟨c, ← currentName (← datatype c.datatype)⟩
  | v => do
    let _ ← writing (·.written v)
    fail (v.refusal "key")

/-- Describe all datatypes. -/
def describeAll : SessionM (List (View × List Description)) := do
  (← get).env.datatypes.mapM fun (_, d) => do
    let name ← currentName d
    let constructors ← run fun _ => listElements (.datatype d)
    return (name, ← constructors.mapM describe)

/-- The constructor that a datatype gives for a name, or whatever stands there for one. -/
def ask (again : Task → Run Value) (d : DatatypeRef) (name : String) : Run Value := do
  let lookUp ← readMember d Operation.constructor.key
  again (.call lookUp [.text name])

/-- What a qualified tag stands for that the registry does not resolve: whatever its datatype holds
for a constructor, unless that is nothing. -/
def stranger? (again : Task → Run Value) (env : Env) (tag : String) : Run (Option Value) := do
  match Registry.qualified? tag with
  | none => return none
  | some (datatype, name) =>
    match env.datatypes.get? datatype with
    | none => return none
    | some d =>
      if ← holdsConstructor d (.text name) then
        let v ← ask again d name
        return if v = .null then none else some v
      else return none

variable (evaluate : Env → Task → Run Value)

/-- What a tag stands for. -/
def resolve? (tag : String) : SessionM (Option Value) := do
  match (← registry).resolve? tag with
  | some c => return some (.constructor c)
  | none => run fun env => stranger? (evaluate env) env tag

/-- What a tag stands for that must stand for something. -/
def lookup (tag : String) : SessionM Value := do
  match ← resolve? evaluate tag with
  | some v => return v
  | none => fail (.rules { cause := .unknownTag tag })

/-- Resolve the identifiers of patterns. What is no constructor cannot say whether it is a
constant. -/
def resolver : SessionM Resolver := do
  let session ← get
  let r ← registry
  return fun tag => do
    match ← r.resolver tag with
    | some c => return some c
    | none =>
      let stranger := stranger? (evaluate session.env) session.env tag
      match (StateT.run (ExceptT.run stranger) session.store).1 with
      | .ok (some (.constructor c)) => return some c
      | .ok (some v) => throw (v.refusal "is_constant")
      | .error (.fault f) => throw f
      | .ok none | .error .exhausted => return none

/-- Evaluate an expression outside any scope. -/
def eval (e : Expr) : SessionM Value := run fun env => evaluate env (.eval [] e)

/-- Evaluate a pattern to a plain value or a phrase. -/
def pattern (p : PatternExpr) : SessionM Value :=
  run fun env => evaluate env (.pattern p)

/-- Evaluate a row to a plain value or a phrase. -/
def row (r : RowExpr) : SessionM Value := run fun env => evaluate env (.row r)

/-- Make an action. -/
def action (a : ActionExpr) : SessionM Value :=
  run fun env => evaluate env (.action [] a)

/-- The phrase that a pattern stands for. -/
def phrase (p : PatternExpr) : SessionM Phrase := do
  let v ← pattern evaluate p
  run fun _ => withStamps (Phrase.ofValue v)

/-- The row of a rule. -/
def ruleRow (r : RowExpr) : SessionM RuleRow := do
  let v ← row evaluate r
  run fun _ => toRuleRow v

/-- Make rules: first evaluate all of them in order, each row before its action, then make their
rows. A rule is a row and exactly one action. -/
def rules (rules : List RuleExpr) : SessionM (List (Rule Value)) := do
  let made ← rules.mapM fun rule => do
    let r ← rule.row.mapM (row evaluate)
    return (r, ← rule.actions.mapM (action evaluate))
  made.mapM fun
    | (some r, [a]) => return { row := ← run fun _ => toRuleRow r, action := a }
    | _ => fail .malformedRule

/-! ### Rows of tests -/

mutual

/-- Make a test. -/
def test : TestExpr → SessionM Test
  | .wild => return .wild
  | .bind name => return .bind name
  | .equal e => return .equal (← eval evaluate e)
  | .tag key => return .tag key
  | .fields key subs => return .fields key (Table.ofList (← testFields subs))
  | .named inner name => return .named (← test inner) name
  | .either options => return .either (← tests options)
  | .strict inner => return .strict (← test inner)

/-- Make the tests of fields. -/
def testFields : List (String × TestExpr) → SessionM (List (String × Test))
  | [] => return []
  | (name, c) :: rest => return (name, ← test c) :: (← testFields rest)

/-- Make tests. -/
def tests : List TestExpr → SessionM (List Test)
  | [] => return []
  | c :: rest => return (← test c) :: (← tests rest)

end

/-- Make a row of tests, whose action is handed all bindings and is made before the tests. -/
def testRow (r : TestRowExpr) : SessionM (TestRow Handler) := do
  let action ← action evaluate r.action
  let test ← match r.test with
    | .row cells => RowTest.row <$> tests evaluate cells
    | .group alternatives => RowTest.group <$> alternatives.mapM (tests evaluate)
    | .otherwise => pure .otherwise
  return ⟨test, .direct action⟩

/-! ### Complaints -/

/-- Make a complaint. -/
def complaint : Complaint → SessionM Fault
  | .rules text guilty => do
    let guilty ← guilty.mapM (phrase evaluate)
    return .rules { cause := .other text, guilty }
  | .unknownTag tag guilty => do
    let guilty ← guilty.mapM (phrase evaluate)
    return .rules { cause := .unknownTag tag, guilty }
  | .noRules => return .rules { cause := .noRules }
  | .wrongWidth expected guilty => do
    match ← phrase evaluate guilty with
    | .row r => return .rules { cause := .wrongWidth r.width expected, guilty := some (.row r) }
    | _ => fail .wrongType
  | .differentNames guilty names => do
    let guilty ← phrase evaluate guilty
    let cause := .differentNames (names.map Names.ofList)
    return .rules { cause, guilty := some guilty }
  | .alreadyDefined name => return .declaration (.alreadyDefined name)
  | .declaration text => return .declaration (.other text)
  | .noMatch function scrutinees => do
    let values ← scrutinees.mapM (eval evaluate)
    match (← heap).noMatch function values with
    | .fault (.noMatch function tags) => return .noMatch function tags
    | stop => throw stop

/-- The phrase that a place is. -/
def placePhrase : Place → SessionM (Option Phrase)
  | .nowhere => return none
  | .row r => return some (← ruleRow evaluate r).phrase
  | .cell p => return some (← phrase evaluate p)

/-- Locate a complaint. Only those about rules have a place. -/
def locate (f : Fault) (function : Option String) (place : Place) : SessionM Fault := do
  let row ← placePhrase evaluate place
  match f with
  | .rules e => return .rules (e.locate function row)
  | _ => fail .unsupported

/-- Make an issue. -/
def issue (i : Issue) : SessionM Fault := do
  i.locations.foldlM (fun f (function, place) => locate evaluate f function place)
    (← complaint evaluate i.complaint)

/-- The text, the picture and the tags of a fault. -/
def issueAnswer (f : Fault) (s : Store) : Except Stop Answer := do
  let text ← f.message? s
  let picture ← match f with
    | .rules e => some <$> e.picture s.spelling
    | _ => pure none
  let tags := match f with
    | .noMatch _ tags => some tags
    | _ => none
  return .issue (text.getD "") picture tags

/-! ### Declarations -/

/-- Declare a datatype. Its members are made with it. -/
def declareDatatype (name : String) (specs : List Spec) (mode : Datum) :
    SessionM (Datatype × List Note) := do
  match (← registry).declare name specs mode with
  | .error f => fail (.declaration f)
  | .ok (datatype, registry) =>
    let d ← run fun _ => datatype.make
    modify fun s => { s with env := { s.env with
      registry
      datatypes := s.env.datatypes.put name d } }
    let shown := ", ".intercalate (datatype.variants.map (·.quoted))
    return (datatype, [⟨1, "datatype " ++ name ++ ": " ++ shown⟩])

/-- Compile rules into a function, which is kept in the store. -/
def compile (name : String) (lazy : Bool) (rules : List (Rule Value)) :
    SessionM (FunctionRef × Function) := do
  let compiled ← orFail (Compiled.ofRules (← resolver evaluate) name rules)
  let function := Function.ofCompiled name lazy compiled
  return (← run fun _ => newFunction function, function)

/-- The texts of rows. -/
def rowTexts (rows : List RowTest) : SessionM (List String) :=
  writing fun s => rows.mapM (·.spelled s.written)

/-- Declare a function. -/
def declareFunction (name : String) (ruleExprs : List RuleExpr) (lazy : Bool)
    (global : String) : SessionM (FunctionReport × List Note) := do
  let (ref, function) ← compile evaluate name lazy (← rules evaluate ruleExprs)
  let texts ← rowTexts (function.rows.map (·.test))
  modify fun s => { s with env := { s.env with
    globals := s.env.globals.put global (.function ref) } }
  return (⟨function.quoted, function.plan, texts⟩,
    ⟨1, name ++ ": " ++ function.plan.text⟩ :: texts.map fun t => ⟨2, "    " ++ t⟩)

/-- Call a value. -/
def call (callee : Value) (args : List Value) : SessionM Value :=
  run fun env => evaluate env (.call callee args)

/-! ### Looking at the passes -/

/-- The arity that rules are given, or else have. -/
def arityOf (rules : List (Rule Value)) : Option Int → SessionM Int
  | some n => return n
  | none => return Int.ofNat (← orFail (ruleWidth rules))

/-- A row with the names of its cells, which only a plain row has. -/
def withNames : PatternRow → SessionM (PatternRow × Option Names)
  | .row cells =>
    match Pattern.namesAll? cells with
    | some names => return (.row cells, some names)
    | none => fail .outOfRange
  | other => return (other, none)

/-- What each pass makes of rules. -/
def passes (rules : List (Rule Value)) (arity : Option Int) (unchecked : Bool) :
    SessionM Passes := do
  let arity ← arityOf rules arity
  orFail (if unchecked then .ok () else requireWidth arity rules)
  let resolve ← resolver evaluate
  let rows ← rules.mapM fun rule => orFail (PatternRow.ofRow resolve rule.row)
  let flat := plainRows rows
  let columns ← orFail (columnsOf flat arity.toNat)
  let need ← orFail (columnDemand flat arity.toNat)
  let plan ← orFail (Plan.ofDemand (standardNames arity.toNat) need)
  let grouped ← rows.mapM withNames
  return { arity, flat, columns, need, plan, grouped
           rows := ← rowTexts (rows.map PatternRow.test) }

/-- What is known of a phrase as a pattern. -/
def patternReport (p : Phrase) : SessionM PatternReport := do
  let pattern ← orFail (Pattern.ofPhrase (← resolver evaluate) p)
  writing fun s => do
    let tree ← pattern.view s.spelled
    let text ← s.spelled pattern.token
    let test ← pattern.test.spelled s.written
    return { tree, text, test, demands := pattern.demands, names := pattern.names? }

/-! ### Steps -/

/-- The notes that a verbosity lets through, if one was given. -/
def info (verbosity : Option (Option Int)) (notes : List Note) : Option String :=
  verbosity.map fun asked => Report.printed (Report.verbosity asked) notes

/-- A value, unfolded. -/
def answer (v : Value) : SessionM Outcome := return { answer := .value (← view v) }

/-- Do one step. -/
def perform : Step → SessionM Outcome
  | .datatype name specs mode verbosity => do
    demand (mode.wellKeyed && Spec.allWellKeyed specs) .wrongType
    let (datatype, notes) ← declareDatatype name specs mode
    return { answer := .datatype datatype (info verbosity notes), notes }
  | .registry => return { answer := .registry (← describeAll) }
  | .lookup tag => do
    let c ← lookup evaluate tag
    return { answer := .constructor (some (← describe c)) }
  | .isLazy tag => do
    match ← lookup evaluate tag with
    | .constructor c => return { answer := .flag c.lazy }
    | v => fail (v.refusal "lazy")
  | .resolve tag => do
    let c ← resolve? evaluate tag
    return { answer := .constructor (← c.mapM describe) }
  | .contains tag none => return { answer := .flag (← resolve? evaluate tag).isSome }
  | .contains tag (some name) => do
    let d ← datatype name
    return { answer := .flag (← run fun _ => holdsConstructor d (.text tag)) }
  | .constructor name tag => do
    let d ← datatype name
    let c ← run fun env => ask (evaluate env) d tag
    return { answer := .constructor (some (← describe c)) }
  | .assign name member => do
    let d ← datatype name
    run fun _ => assignMember d (.text member) .null
    return {}
  | .keep name p => do
    let p ← phrase evaluate p
    modify fun s => { s with env := { s.env with phrases := s.env.phrases.put name p } }
    return { answer := .text (← shown (.phrase p)) }
  | .phrase p => do
    let p ← phrase evaluate p
    return { answer := .phrase p (← shown (.phrase p)) (← writing (·.written (.phrase p))) }
  | .row r => do
    let r ← ruleRow evaluate r
    return { answer := .row r (← shown (.phrase r.phrase)) }
  | .pattern p => do return { answer := .pattern (← patternReport evaluate (← phrase evaluate p)) }
  | .passes ruleExprs arity unchecked => do
    return { answer := .passes (← passes evaluate (← rules evaluate ruleExprs) arity unchecked) }
  | .plan params need => return { answer := .plan (← orFail (Plan.ofDemand params need)) }
  | .function name ruleExprs lazy other verbosity => do
    let (report, notes) ← declareFunction evaluate name ruleExprs lazy (other.getD name)
    return { answer := .function report (info verbosity notes), notes }
  | .define name e => do
    let v ← eval evaluate e
    modify fun s => { s with env := { s.env with globals := s.env.globals.put name v } }
    return {}
  | .eval e => do answer (← eval evaluate e)
  | .print es => do
    let values ← es.mapM (eval evaluate)
    return { printed := Text.anonymous (" ".intercalate (← values.mapM shown)) ++ "\n" }
  | .cases values ruleExprs => do
    let values ← values.mapM (eval evaluate)
    let (ref, _) ← compile evaluate "caseof" false (← rules evaluate ruleExprs)
    answer (← call evaluate (.function ref) values)
  | .matchRows name rows values showOnly => do
    let rows ← rows.mapM (testRow evaluate)
    let values ← values.mapM (eval evaluate)
    if showOnly then return { answer := .rows (← rowTexts (rows.map (·.test))) }
    else
      answer (← run fun env =>
        LazyMatch.matchRows (fun v => evaluate env (.force [] v))
          (fun h b => evaluate env (.handle h b)) name rows values)
  | .issue i => do
    let f ← issue evaluate i
    return { answer := ← writing (issueAnswer f) }
  | .report verbosity notes issues => do
    demand (notes.all (Datum.allWellKeyed ·.1)) .wrongType
    let notes := notes.map fun (words, level) =>
      { level := level.getD 1, text := " ".intercalate (words.map Datum.plain) : Note }
    let faults ← issues.mapM (issue evaluate)
    let messages ← writing fun s => faults.mapM (·.message? s)
    let text := Report.printed (Report.verbosity verbosity) notes ++
      Report.complaints (messages.map (·.getD ""))
    return { answer := .report (Report.calm text) }

end Session

end LazyMatch
