import LazyMatch.Datatype.Kind
import LazyMatch.Datatype.Operation
import LazyMatch.Datatype.Registry

/-!
# Values and phrases

Values are what functions take and give. Records and deferred values can change, so a value only
refers to them and their contents are kept in the store; functions, closures and the members of
datatypes are kept there too.
Floating-point numbers, lists, tuples and phrases never change, so a value holds them whole, with a
stamp that tells two of equal contents apart. The stamp is new whenever one is made, so two of one
stamp are one object.

Phrases are the nodes of patterns. A row of phrases, a group of rows and the fallback are phrases as
well, and so is the identifier at the head of a structured form or behind a named one, so that a
diagnostic can point at any of them.

* `Value`, `Phrase` and `Row`, with decidable equality, which looks at the contents as well;
* `Value.identity` is what tells an object apart, and `Value.same` compares by it alone;
* `Value.numeral?` and `Value.sameKey`, the equality of record keys.
-/

namespace LazyMatch

/-- Where the store keeps a record. -/
structure RecordRef where
  index : Nat
deriving DecidableEq, Repr

/-- Where the store keeps a deferred value. -/
structure ThunkRef where
  index : Nat
deriving DecidableEq, Repr

/-- Where the store keeps a function. -/
structure FunctionRef where
  index : Nat
deriving DecidableEq, Repr

/-- Where the store keeps a closure. -/
structure ClosureRef where
  index : Nat
deriving DecidableEq, Repr

/-- Where the store keeps which record holds the members of a datatype. -/
structure DatatypeRef where
  index : Nat
deriving DecidableEq, Repr

/-- What a datatype is numbered by. -/
def DatatypeRef.id (d : DatatypeRef) : Nat := 4 * d.index + 15

/-- Where the store keeps how far a visit to constructors has come. -/
structure VisitRef where
  index : Nat
deriving DecidableEq, Repr

/-- An identifier inside a phrase. It goes by its text; the stamp tells it apart. -/
structure Ident where
  stamp : Nat
  text : String
deriving DecidableEq, Repr

instance : Coe Ident String := ⟨Ident.text⟩

mutual

/-- What functions take and give. -/
inductive Value where
  | null
  | bool (b : Bool)
  | int (i : Int)
  | float (stamp : Nat) (decimal : String)
  | text (s : String)
  | list (stamp : Nat) (items : List Value)
  | tuple (stamp : Nat) (items : List Value)
  | record (r : RecordRef)
  | thunk (t : ThunkRef)
  /-- A constructor. A factory builds a value from its fields. -/
  | constructor (c : Constructor)
  | function (f : FunctionRef)
  | closure (c : ClosureRef)
  | datatype (d : DatatypeRef)
  /-- An operation of a datatype. -/
  | operation (stamp : Nat) (op : Operation) (d : DatatypeRef)
  | phrase (p : Phrase)
  /-- A visit to the constructors of a datatype, one after the other. -/
  | visit (v : VisitRef)
  /-- A kind of objects. As an action, that of records answers a record of all its bindings. -/
  | kind (k : Kind)
  /-- The kind of records, with a note of keys. -/
  | noted (stamp : Nat) (keys : List Value)
  | rebuilder (r : Rebuilder)
  /-- An object that is nothing but distinct. -/
  | object (stamp : Nat)
  /-- What comes of a comparison that is left open. -/
  | undecided

/-- A node of a pattern. -/
inductive Phrase where
  /-- A bare identifier. -/
  | name (stamp : Nat) (text : String)
  | literal (stamp : Nat) (value : Value)
  /-- The structured form `[head field field ...]`. -/
  | compound (stamp : Nat) (head : Ident) (fields : List Phrase)
  /-- The escape `($ content)`. -/
  | defer (stamp : Nat) (content : Value)
  /-- The form `(inner :as name)`. -/
  | named (stamp : Nat) (inner : Phrase) (name : Ident)
  /-- Alternation within one cell. -/
  | either (stamp : Nat) (alternatives : List Phrase)
  | row (r : Row)
  /-- Several rows that share an action. -/
  | group (stamp : Nat) (first : Row) (rest : List Row)
  /-- The unconditional fallback. -/
  | otherwise

/-- One pattern per argument position. -/
inductive Row where
  | mk (stamp : Nat) (cells : List Phrase)

end

instance : Inhabited Value := ⟨.null⟩

/-- An identifier as a phrase. -/
def Ident.phrase (i : Ident) : Phrase := .name i.stamp i.text

/-- The cells of a row. -/
def Row.cells : Row → List Phrase
  | .mk _ cells => cells

/-- The number of cells of a row. -/
def Row.width (r : Row) : Nat := r.cells.length

/-! ### Equality -/

mutual

/-- Whether two values are equal throughout. -/
def Value.beq : Value → Value → Bool
  | .null, .null => true
  | .bool a, .bool b => a == b
  | .int a, .int b => a == b
  | .float s a, .float t b => s == t && a == b
  | .text a, .text b => a == b
  | .list s xs, .list t ys => s == t && Value.beqAll xs ys
  | .tuple s xs, .tuple t ys => s == t && Value.beqAll xs ys
  | .record a, .record b => a == b
  | .thunk a, .thunk b => a == b
  | .constructor a, .constructor b => a == b
  | .function a, .function b => a == b
  | .closure a, .closure b => a == b
  | .datatype a, .datatype b => a == b
  | .operation s a d, .operation t b e => s == t && a == b && d == e
  | .phrase p, .phrase q => Phrase.beq p q
  | .visit a, .visit b => a == b
  | .kind a, .kind b => a == b
  | .noted s xs, .noted t ys => s == t && Value.beqAll xs ys
  | .rebuilder a, .rebuilder b => a == b
  | .object a, .object b => a == b
  | .undecided, .undecided => true
  | _, _ => false

/-- Equality of values, one by one. -/
def Value.beqAll : List Value → List Value → Bool
  | [], [] => true
  | a :: as, b :: bs => Value.beq a b && Value.beqAll as bs
  | _, _ => false

/-- Whether two phrases are equal throughout. -/
def Phrase.beq : Phrase → Phrase → Bool
  | .name s a, .name t b => s == t && a == b
  | .literal s a, .literal t b => s == t && Value.beq a b
  | .compound s a ps, .compound t b qs => s == t && a == b && Phrase.beqAll ps qs
  | .defer s a, .defer t b => s == t && Value.beq a b
  | .named s p a, .named t q b => s == t && a == b && Phrase.beq p q
  | .either s ps, .either t qs => s == t && Phrase.beqAll ps qs
  | .row a, .row b => Row.beq a b
  | .group s a as, .group t b bs => s == t && Row.beq a b && Row.beqAll as bs
  | .otherwise, .otherwise => true
  | _, _ => false

/-- Equality of phrases, one by one. -/
def Phrase.beqAll : List Phrase → List Phrase → Bool
  | [], [] => true
  | p :: ps, q :: qs => Phrase.beq p q && Phrase.beqAll ps qs
  | _, _ => false

/-- Whether two rows are equal throughout. -/
def Row.beq : Row → Row → Bool
  | .mk s ps, .mk t qs => s == t && Phrase.beqAll ps qs

/-- Equality of rows, one by one. -/
def Row.beqAll : List Row → List Row → Bool
  | [], [] => true
  | a :: as, b :: bs => Row.beq a b && Row.beqAll as bs
  | _, _ => false

end

mutual

theorem Value.beq_iff : ∀ a b : Value, Value.beq a b = true ↔ a = b
  | .list s xs, b => by
    cases b <;> simp only [Value.beq, Bool.and_eq_true, beq_iff_eq, Value.beqAll_iff xs,
      Value.list.injEq, Bool.false_eq_true, reduceCtorEq]
  | .tuple s xs, b => by
    cases b <;> simp only [Value.beq, Bool.and_eq_true, beq_iff_eq, Value.beqAll_iff xs,
      Value.tuple.injEq, Bool.false_eq_true, reduceCtorEq]
  | .noted s xs, b => by
    cases b <;> simp only [Value.beq, Bool.and_eq_true, beq_iff_eq, Value.beqAll_iff xs,
      Value.noted.injEq, Bool.false_eq_true, reduceCtorEq]
  | .phrase p, b => by
    cases b <;> simp only [Value.beq, Phrase.beq_iff p, Value.phrase.injEq, Bool.false_eq_true,
      reduceCtorEq]
  | .null, b | .bool _, b | .int _, b | .float _ _, b | .text _, b | .record _, b | .thunk _, b
  | .constructor _, b | .function _, b | .closure _, b | .datatype _, b | .visit _, b | .kind _, b
  | .rebuilder _, b | .object _, b | .undecided, b => by
    cases b <;> simp [Value.beq]
  | .operation _ _ _, b => by cases b <;> simp [Value.beq, and_assoc]

theorem Value.beqAll_iff : ∀ as bs : List Value, Value.beqAll as bs = true ↔ as = bs
  | [], bs => by cases bs <;> simp [Value.beqAll]
  | a :: as, bs => by
    cases bs <;> simp only [Value.beqAll, Bool.and_eq_true, Value.beq_iff a, Value.beqAll_iff as,
      List.cons.injEq, Bool.false_eq_true, reduceCtorEq]

theorem Phrase.beq_iff : ∀ p q : Phrase, Phrase.beq p q = true ↔ p = q
  | .name s a, q => by cases q <;> simp [Phrase.beq]
  | .literal s a, q => by
    cases q <;> simp only [Phrase.beq, Bool.and_eq_true, beq_iff_eq, Value.beq_iff a,
      Phrase.literal.injEq, Bool.false_eq_true, reduceCtorEq]
  | .compound s a ps, q => by
    cases q <;> simp only [Phrase.beq, Bool.and_eq_true, beq_iff_eq, Phrase.beqAll_iff ps,
      Phrase.compound.injEq, and_assoc, Bool.false_eq_true, reduceCtorEq]
  | .defer s a, q => by
    cases q <;> simp only [Phrase.beq, Bool.and_eq_true, beq_iff_eq, Value.beq_iff a,
      Phrase.defer.injEq, Bool.false_eq_true, reduceCtorEq]
  | .named s p a, q => by
    cases q <;> simp only [Phrase.beq, Bool.and_eq_true, beq_iff_eq, Phrase.beq_iff p,
      Phrase.named.injEq, and_assoc, and_comm, Bool.false_eq_true, reduceCtorEq]
  | .either s ps, q => by
    cases q <;> simp only [Phrase.beq, Bool.and_eq_true, beq_iff_eq, Phrase.beqAll_iff ps,
      Phrase.either.injEq, Bool.false_eq_true, reduceCtorEq]
  | .row r, q => by
    cases q <;> simp only [Phrase.beq, Row.beq_iff r, Phrase.row.injEq, Bool.false_eq_true,
      reduceCtorEq]
  | .group s r rs, q => by
    cases q <;> simp only [Phrase.beq, Bool.and_eq_true, beq_iff_eq, Row.beq_iff r,
      Row.beqAll_iff rs, Phrase.group.injEq, and_assoc, Bool.false_eq_true, reduceCtorEq]
  | .otherwise, q => by cases q <;> simp [Phrase.beq]

theorem Phrase.beqAll_iff : ∀ ps qs : List Phrase, Phrase.beqAll ps qs = true ↔ ps = qs
  | [], qs => by cases qs <;> simp [Phrase.beqAll]
  | p :: ps, qs => by
    cases qs <;> simp only [Phrase.beqAll, Bool.and_eq_true, Phrase.beq_iff p,
      Phrase.beqAll_iff ps, List.cons.injEq, Bool.false_eq_true, reduceCtorEq]

theorem Row.beq_iff : ∀ a b : Row, Row.beq a b = true ↔ a = b
  | .mk s ps, .mk t qs => by
    simp only [Row.beq, Bool.and_eq_true, beq_iff_eq, Phrase.beqAll_iff ps, Row.mk.injEq]

theorem Row.beqAll_iff : ∀ as bs : List Row, Row.beqAll as bs = true ↔ as = bs
  | [], bs => by cases bs <;> simp [Row.beqAll]
  | a :: as, bs => by
    cases bs <;> simp only [Row.beqAll, Bool.and_eq_true, Row.beq_iff a, Row.beqAll_iff as,
      List.cons.injEq, Bool.false_eq_true, reduceCtorEq]

end

instance : DecidableEq Value := fun a b => decidable_of_iff _ (Value.beq_iff a b)

instance : DecidableEq Phrase := fun p q => decidable_of_iff _ (Phrase.beq_iff p q)

instance : DecidableEq Row := fun a b => decidable_of_iff _ (Row.beq_iff a b)

/-! ### Identity -/

/-- What tells an object apart from all others. Truth values, integers and texts are the same when
they are equal. -/
inductive Identity where
  | null
  | bool (b : Bool)
  | int (i : Int)
  | text (s : String)
  /-- There is only one empty tuple. -/
  | emptyTuple
  /-- What has a stamp. -/
  | stamp (n : Nat)
  | record (r : RecordRef)
  | thunk (t : ThunkRef)
  | constructor (c : Constructor)
  | function (f : FunctionRef)
  | closure (c : ClosureRef)
  /-- The unconditional fallback. -/
  | otherwise
  | datatype (d : DatatypeRef)
  | visit (v : VisitRef)
  | kind (k : Kind)
  | rebuilder (r : Rebuilder)
  | undecided
deriving DecidableEq

/-- What tells a phrase apart. -/
def Phrase.identity : Phrase → Identity
  | .name stamp _ | .literal stamp _ | .compound stamp _ _ | .defer stamp _ | .named stamp _ _
  | .either stamp _ | .row (.mk stamp _) | .group stamp _ _ => .stamp stamp
  | .otherwise => .otherwise

/-- What tells a value apart. -/
def Value.identity : Value → Identity
  | .null => .null
  | .bool b => .bool b
  | .int i => .int i
  | .text s => .text s
  | .tuple _ [] => .emptyTuple
  | .float stamp _ | .list stamp _ | .tuple stamp _ | .operation stamp _ _ | .noted stamp _
  | .object stamp => .stamp stamp
  | .record r => .record r
  | .thunk t => .thunk t
  | .constructor c => .constructor c
  | .function f => .function f
  | .closure c => .closure c
  | .phrase p => p.identity
  | .datatype d => .datatype d
  | .visit v => .visit v
  | .kind k => .kind k
  | .rebuilder r => .rebuilder r
  | .undecided => .undecided

/-- Whether two values are one object. -/
def Value.same (a b : Value) : Bool := a.identity = b.identity

/-! ### Numbers and keys -/

namespace Value

/-- The exact value of a value that is a number. -/
def numeral? : Value → Option Numeral
  | .bool b => some (.ofInt (if b then 1 else 0))
  | .int i => some (.ofInt i)
  | .float _ decimal => some (.ofDecimal decimal)
  | _ => none

/-- The integer that a value counts as in arithmetic. -/
def integer? : Value → Option Int
  | .bool b => some (if b then 1 else 0)
  | .int i => some i
  | _ => none

/-- The text that a value is. -/
def text? : Value → Option String
  | .text s => some s
  | _ => none

/-- Whether a value is deferred. -/
def isDeferred : Value → Bool
  | .thunk _ => true
  | _ => false

/-- Whether a value can be called. -/
def isCallable : Value → Bool
  | .constructor c => !c.isConstant
  | .function _ | .closure _ | .operation _ _ _ | .kind _ | .noted _ _ | .rebuilder _ => true
  | _ => false

mutual

/-- Whether a value can be the key of an entry: it holds no list and no record. -/
def isKey : Value → Bool
  | .list _ _ | .record _ => false
  | .tuple _ items | .noted _ items => areKeys items
  | _ => true

/-- Whether all of several values can be keys. -/
def areKeys : List Value → Bool
  | [] => true
  | v :: rest => isKey v && areKeys rest

end

mutual

/-- Equality, given the equality of records, of which one may have no answer: numbers compare by
value, lists of one length and tuples element by element up to the first difference, notes of keys
by the keys, operations by what they are of, and whatever else has an identity by that. A float that
is not a number equals nothing, itself included. -/
def equalWith (records : RecordRef → RecordRef → Option Bool) : Value → Value → Option Bool
  | .list s xs, .list t ys =>
    if s = t then some true
    else if xs.length ≠ ys.length then some false
    else equalAllWith records xs ys
  | .tuple s xs, .tuple t ys | .noted s xs, .noted t ys =>
    if s = t then some true else equalAllWith records xs ys
  | .record a, .record b => records a b
  | .operation _ a d, .operation _ b e => some (a == b && (d == e || a.isShared))
  | a, b => match numeral? a, numeral? b with
    | some x, some y => some (x.same y)
    | _, _ => some (a.same b)

/-- Equality of elements, one by one up to the first difference. One object is equal to itself
here, whatever it is. -/
def equalAllWith (records : RecordRef → RecordRef → Option Bool) :
    List Value → List Value → Option Bool
  | [], [] => some true
  | a :: as, b :: bs =>
    match if a.same b then some true else equalWith records a b with
    | some true => equalAllWith records as bs
    | answer => answer
  | _, _ => some false

end

/-- Equality of record keys, which hold no records: they are one object or equal. -/
def sameKey (a b : Value) : Bool :=
  a.same b || equalWith (fun r q => some (r == q)) a b = some true

end Value

end LazyMatch
