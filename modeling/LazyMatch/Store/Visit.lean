import LazyMatch.Store.Element
import LazyMatch.Store.Equality
import LazyMatch.Text.Split

/-!
# Going through elements

Some values give elements one after the other: lists and tuples, a text its characters, a record its
keys, a datatype its constructors, and a visit those it has not come to yet. A visit remembers how
far it has come, also when what is done with an element fails, and it is disturbed for good when
constructors are entered in the meantime.

* `advance` goes one step further with a visit;
* `foldElements` does something with each element, `listElements` only lists them;
* `holds` looks for one.
-/

namespace LazyMatch

/-- The next constructor of a visit, if there is one left. -/
def advance (v : VisitRef) : Run (Option Value) := do
  match (← get).visit v with
  | .over => return none
  | .disturbed => raise .disturbed
  | .underway constructors next size =>
    let entries := (← get).entries constructors
    if entries.length = size then
      match entries[next]? with
      | some (_, c) =>
        modify (·.setVisit v (.underway constructors (next + 1) size))
        return some c
      | none =>
        modify (·.setVisit v .over)
        return none
    else
      modify (·.setVisit v .disturbed)
      raise .disturbed

/-- How many steps a visit has left at most, counting the one that ends it. -/
def Store.stepsLeft (s : Store) (v : VisitRef) : Nat :=
  match s.visit v with
  | .underway _ next size => size - next + 1
  | _ => 1

/-- A new visit to the constructors of a datatype. -/
def visitConstructors (d : DatatypeRef) : Run VisitRef := do
  match ← orRaise ((← get).member d "_constructors") with
  | .record constructors => newVisit constructors
  | .kind .record | .noted _ _ => raise .wrongType
  | v => raise (v.refusal "values")

variable {β : Type}

/-- Do something with each constructor that a visit has left, in so many steps. -/
def foldVisit (act : β → Value → Run β) (v : VisitRef) : Nat → β → Run β
  | 0, b => return b
  | steps + 1, b => do
    match ← advance v with
    | some c => foldVisit act v steps (← act b c)
    | none => return b

/-- Do something with each element of a value, one after the other. A note of keys comes to itself
only. -/
def foldElements (act : β → Value → Run β) (init : β) : Value → Run β
  | .visit v => do foldVisit act v ((← get).stepsLeft v) init
  | .datatype d => do
    let v ← visitConstructors d
    foldVisit act v ((← get).stepsLeft v) init
  | .noted stamp keys => act init (.noted stamp keys)
  | v => do
    match (← get).elements? v with
    | some items => items.foldlM act init
    | none => raise .wrongType

/-- The elements of a value. -/
def listElements (v : Value) : Run (List Value) :=
  foldElements (fun items item => return items ++ [item]) [] v

/-! ### Looking for an element -/

/-- Whether one of several values is the one wanted or equal to it. -/
def anyEqual (wanted : Value) : List Value → Run Bool
  | [] => return false
  | v :: rest => do
    let s ← get
    match if v.same wanted then some true else s.equal? v wanted with
    | some true => return true
    | some false => anyEqual wanted rest
    | none => throw .exhausted

/-- Go on with a visit until it comes to the value wanted, in so many steps. -/
def seek (wanted : Value) (v : VisitRef) : Nat → Run Bool
  | 0 => return false
  | steps + 1 => do
    match ← advance v with
    | none => return false
    | some c => if ← anyEqual wanted [c] then return true else seek wanted v steps

/-- Whether a value holds another: a record as a key, a text as a part of it, and anything else as
an element. A datatype holds what its constructors hold, and there are at most `depth` of them in
one another. -/
def holds (wanted : Value) : Nat → Value → Run Bool
  | depth + 1, .datatype d => do holds wanted depth (← orRaise ((← get).member d "_constructors"))
  | _, .record r => do
    if wanted.isKey then return (((← get).entries r).get? wanted).isSome else raise .wrongType
  | _, .text t =>
    match wanted with
    | .text part => return Text.hasPart part.toList t.toList
    | _ => raise .wrongType
  | _, .list _ items | _, .tuple _ items => anyEqual wanted items
  | _, .visit v => do seek wanted v ((← get).stepsLeft v)
  | _, .noted _ _ => return false
  | _, _ => raise .wrongType

/-- Whether a datatype holds something among its constructors. -/
def holdsConstructor (d : DatatypeRef) (wanted : Value) : Run Bool := do
  holds wanted ((← get).datatypes.size + 1) (.datatype d)

end LazyMatch
