import LazyMatch.Store.Text
import LazyMatch.Store.Visit

/-!
# Members of a datatype

What can be read off a datatype by name: the record of its members and what it is made by, then what
that record holds, what describes it and its operations. A constructor that shares its name with one
of these is hidden; any other is read as its value.

* `Datatype.make` makes a declared datatype, `makeUndeclared` one that is not;
* `readMember` reads a member, `assignMember` and `removeMember` change one;
* `operate` runs an operation.

What is declared does not change: that it is, is itself a member. Declaring a datatype once more
fails, but only after the constructors have been entered.
-/

namespace LazyMatch

/-- Make a declared datatype: its name, its constructors and their values under their names, and
that it is declared. -/
def Datatype.make (d : Datatype) : Run DatatypeRef := do
  let values ← d.variants.mapM fun c => return (c.name, ← c.make)
  let values ← newRecord (.ofTable values)
  let constructors ← newRecord (.ofTable (d.variants.map fun c => (c.name, .constructor c)))
  newDatatype [("name", .text d.name), ("_constructors", .record constructors),
    ("_values", .record values), ("_sealed", .bool true)]

/-- Make a datatype that has a name and no constructors, and is not declared. -/
def makeUndeclared (name : Value) : Run DatatypeRef := do
  let constructors ← newRecord []
  let values ← newRecord []
  newDatatype [("name", name), ("_constructors", .record constructors), ("_values", .record values)]

/-- A datatype with the constructors that its members hold by now, if they are a record and nothing
stands in for the operation that looks them up. -/
def Datatype.current (d : Datatype) (s : Store) (ref : DatatypeRef) : Datatype :=
  match s.member ref "_constructors", s.field? (s.members ref) Operation.constructor.key with
  | .ok (.record r), none =>
    let constructors := (s.entries r).filterMap fun
      | (.text name, .constructor c) => some (name, c)
      | _ => none
    { d with constructors }
  | _, _ => { d with constructors := [] }

/-! ### Reading -/

/-- What every datatype has that no member hides. -/
def Store.fixture? (s : Store) (d : DatatypeRef) (name : String) : Option Value :=
  if name = "__class__" then some (.kind .datatype)
  else if name = "__dict__" then some (.record (s.members d))
  else if name = "__weakref__" then some .null
  else none

/-- What describes every datatype. -/
def description? (name : String) : Option Value :=
  if name = "__module__" then some (.text "variety.registry")
  else if name = "__doc__" then
    some (.text ("\n\tCreated once at declaration; immutable thereafter.\n" ++
      "\tConstructors read as attributes: constants give their value, factories are callable.\n\t"))
  else none

/-- The names of all that every datatype has. -/
def commonNames : List String :=
  ["__module__", "__doc__"] ++ Operation.own.map (·.key) ++ ["__dict__", "__weakref__"] ++
    Operation.inherited.map (·.key) ++ ["__class__"]

/-- Read a member that is not the value of a constructor. -/
def readOwn? (d : DatatypeRef) (name : String) : Run (Option Value) := do
  let s ← get
  match ((s.fixture? d name).or (s.field? (s.members d) name)).or (description? name) with
  | some v => return some v
  | none => (Operation.ofKey? name).mapM fun op => return .operation (← withStamps fresh) op d

/-- Read a member. -/
def readMember (d : DatatypeRef) (name : String) : Run Value := do
  match ← readOwn? d name with
  | some v => return v
  | none => reading (·.member d name)

/-! ### Changing -/

/-- The fault of changing a datatype that is declared. It shows the name, unless that is a tuple
that does not hold exactly one word. -/
def alreadyDeclared (d : DatatypeRef) : Run Fault := do
  let s ← get
  match s.member d "name" with
  | .ok (.tuple _ []) => return .notOneWord 0
  | .ok (.tuple _ (first :: _ :: rest)) =>
    discard (orStop (s.shown first))
    return .notOneWord (rest.length + 2)
  | _ => return .alreadyDeclared (← orStop (s.title d))

/-- Fail on a datatype that is declared. -/
def requireUndeclared (d : DatatypeRef) : Run Unit := do
  let s ← get
  match s.field? (s.members d) "_sealed" with
  | some v => if s.isTrue v then raise (← alreadyDeclared d)
  | none => return ()

/-- Put a member into the record of members. -/
def putMember (d : DatatypeRef) (name : String) (v : Value) : Run Unit :=
  modify fun s => s.setEntries (s.members d) ((s.entries (s.members d)).put (.text name) v)

/-- Write a member. -/
def assignMember (d : DatatypeRef) (name v : Value) : Run Unit := do
  requireUndeclared d
  match name, v with
  | .text "__class__", .kind .datatype => return ()
  | .text "__class__", _ => raise .wrongType
  | .text "__dict__", .record r => modify (·.setMembers d r)
  | .text "__dict__", _ => raise .wrongType
  | .text "__weakref__", _ => raise .unsupported
  | .text name, v => putMember d name v
  | _, _ => raise .wrongType

/-- Take a member away, or all of them. -/
def removeMember (d : DatatypeRef) : Value → Run Unit
  | .text "__class__" => raise .wrongType
  | .text "__dict__" => do
    let none ← newRecord []
    modify (·.setMembers d none)
  | .text name => do
    let s ← get
    if (s.field? (s.members d) name).isSome then
      modify fun s => s.setEntries (s.members d) ((s.entries (s.members d)).erase (.text name))
    else raise .unsupported
  | _ => raise .wrongType

/-- Enter something under a name into a member: a record, or a list, where the name is an index. -/
def enterWithin (d : DatatypeRef) (part : String) (name v : Value) : Run Unit := do
  match ← orRaise ((← get).member d part), name.integer? with
  | .record r, _ =>
    if name.isKey then modify fun s => s.setEntries r ((s.entries r).put name v)
    else raise .wrongType
  | .list _ items, some i =>
    match position? items.length i with
    | some i => putMember d part (← newList (items.set i v))
    | none => raise .outOfRange
  | _, _ => raise .wrongType

/-- The name that a value has. -/
def Store.nameOf (s : Store) : Value → Except Fault Value
  | .constructor c => .ok (.text c.name)
  | .function f => .ok (.text (s.function f).name)
  | .phrase (.named _ _ name) => .ok (.phrase name.phrase)
  | .datatype d => s.member d "name"
  | _ => .error .unsupported

/-- Enter a constructor under its name, with a new value of it. Anything else that has a name is
entered too before it turns out to have no value. -/
def enterConstructor (d : DatatypeRef) (v : Value) : Run Unit := do
  let name ← orRaise ((← get).nameOf v)
  enterWithin d "_constructors" name v
  match v with
  | .constructor c => enterWithin d "_values" name (← c.make)
  | v => raise (v.refusal "runtime_value")

/-! ### Operations -/

/-- The record of members, or null when it is empty. -/
def Store.state (s : Store) (d : DatatypeRef) : Value :=
  if (s.entries (s.members d)).isEmpty then .null else .record (s.members d)

/-- How to make a datatype again: what to call, with what arguments, and what members to give it. -/
def olderRecipe (d : DatatypeRef) : Run Value := do
  let args ← newTuple [.kind .datatype, .kind .object, .null]
  match (← get).state d with
  | .null => newTuple [.rebuilder .older, args]
  | state => newTuple [.rebuilder .older, args, state]

/-- The older way to make a datatype again, unless it says that its members have fixed places. -/
def recipe (d : DatatypeRef) : Run Value := do
  let s ← get
  match s.member d "__slots__" with
  | .ok places => if s.isTrue places then raise .wrongType else olderRecipe d
  | .error (.noSuchAttribute _) => olderRecipe d
  | .error fault => raise fault

/-- The newer way to make a datatype again. -/
def newerRecipe (d : DatatypeRef) : Run Value := do
  let args ← newTuple [.kind .datatype]
  newTuple [.rebuilder .newer, args, (← get).state d, .null, .null]

/-- The numbers that say in which way to take a datatype apart lie below this and not below its
opposite. -/
def versionLimit : Int := 2147483648

/-- Make an object of a kind that has nothing to it yet. Only a datatype takes further arguments,
and a record is not made like this. -/
def create : List Value → Run Value
  | .kind .datatype :: _ => return .datatype (← newDatatype [])
  | [.kind .object] => return .object (← withStamps fresh)
  | _ => raise .wrongType

/-- Run an operation of a datatype. -/
def operate (d : DatatypeRef) : Operation → List Value → Run Value
  | .write, [] | .text, [] | .format, [.text ""] =>
    return .text (← orStop ((← get).written (.datatype d)))
  | .visit, [] => return .visit (← visitConstructors d)
  | .contains, [name] => return .bool (← holdsConstructor d name)
  | .constructor, [name] => do
    let constructors ← reading (·.member d "_constructors")
    reading (·.index constructors name)
  | .value, [name] => do
    match ← reading (·.variant? d name) with
    | some v => return v
    | none => raise (.noSuchAttribute (← orStop ((← get).shown name)))
  | .declare, [constructors] => do
    foldElements (fun _ c => enterConstructor d c) () constructors
    assignMember d (.text "_sealed") (.bool true)
    return .null
  | .name, [name] => do
    assignMember d (.text "name") name
    assignMember d (.text "_constructors") (.record (← newRecord []))
    assignMember d (.text "_values") (.record (← newRecord []))
    return .null
  | .assign, [name, v] => do assignMember d name v; return .null
  | .remove, [name] => do removeMember d name; return .null
  | .read, [.text name] => do
    match ← readOwn? d name with
    | some v => return v
    | none => raise .unsupported
  | .create, args => create args
  | .hash, [] => return .int (Text.number d.id / 16)
  | .compare c, [v] =>
    match c, v.same (.datatype d) with
    | .equal, true => return .bool true
    | .different, true => return .bool false
    | _, _ => return .undecided
  | .dismantle, [] => recipe d
  | .dismantleAs, [v] =>
    match v.integer? with
    | some version =>
      if version < -versionLimit || versionLimit ≤ version then raise .tooLarge
      else if version < 2 then recipe d
      else newerRecipe d
    | none => raise .wrongType
  | .members, [] => return (← get).state d
  | .recognise, _ => return .undecided
  | .extend, [] => return .null
  | .size, [] => return .int 24
  | .list, [] => do
    let s ← get
    let keys := (s.entries (s.members d)).map (·.1)
    let others := commonNames.filter fun name => !keys.any (·.sameKey (.text name))
    newList (keys ++ others.map .text)
  | _, _ => raise .wrongType

end LazyMatch
