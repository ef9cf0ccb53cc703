import LazyMatch.Store

/-!
# Elements and members

What is inside a value. Lists and tuples have elements, a text its characters and a record its keys;
an index or a key leads to one of them. A datatype has members under names, and where it has none
the values of its constructors.

* `Store.elements?` lists the elements, `Store.index` finds one;
* `reading` reads something off the store;
* `Store.variant?` is the value of a constructor, `Store.member` reads a member.
-/

namespace LazyMatch

/-- Where an index points among so many elements; a negative one counts from the end. -/
def position? (size : Nat) (i : Int) : Option Nat :=
  let i := if i < 0 then i + size else i
  if 0 ≤ i && i < size then some i.toNat else none

namespace Store

/-- The elements of a value that can be gone through again and again. -/
def elements? (s : Store) : Value → Option (List Value)
  | .list _ items | .tuple _ items => some items
  | .text t => some (t.toList.map fun c => .text (String.ofList [c]))
  | .record r => some ((s.entries r).map (·.1))
  | _ => none

/-- The entry of a record under a key, or the element of a sequence at an index. The kind of records
has nothing inside and only notes the key, or all keys of a tuple. -/
def index (s : Store) : Value → Value → Except Fault Value
  | .kind .record, .tuple _ keys => .ok (.noted s.stamps keys)
  | .kind .record, key => .ok (.noted s.stamps [key])
  | .record r, key =>
    if key.isKey then
      match (s.entries r).get? key with
      | some v => .ok v
      | none => .error .missingKey
    else .error .wrongType
  | v, key =>
    match s.elements? v, key.integer? with
    | some items, some i =>
      match (position? items.length i).bind (items[·]?) with
      | some v => .ok v
      | none => .error .outOfRange
    | _, _ => .error .wrongType

/-- The value of the constructor of a name, if there is one. -/
def variant? (s : Store) (d : DatatypeRef) (name : Value) : Except Fault (Option Value) :=
  match s.field? (s.members d) "_values" with
  | none => .ok none
  | some values =>
    match s.index values name with
    | .ok v => .ok (some v)
    | .error .missingKey => .ok none
    | .error f => .error f

/-- The member of a datatype under a name, or else the value of the constructor of that name. -/
def member (s : Store) (d : DatatypeRef) (name : String) : Except Fault Value :=
  match s.field? (s.members d) name with
  | some v => .ok v
  | none => do
    match ← s.variant? d (.text name) with
    | some v => return v
    | none => throw (.noSuchAttribute name)

end Store

/-- Read something off the store. It may be a note of keys, which takes up the next stamp. -/
def reading {α : Type} (read : Store → Except Fault α) : Run α := do
  let a ← orRaise (read (← get))
  discard (withStamps fresh)
  return a

/-- The fault of asking a value for what its kind does not have. A datatype says what was asked. -/
def Value.refusal (v : Value) (name : String) : Fault :=
  match v with
  | .datatype _ => .noSuchAttribute name
  | _ => .unsupported

end LazyMatch
