import LazyMatch.Text.Object

/-!
# Operations of a datatype

Beside its constructors a datatype has operations, which can be read off it by name and called like
any function. Those that would change it fail once it is declared. Further ones it has in common
with all other objects.

* `Operation.key` is the name of an operation, `Operation.ofKey?` finds it by that;
* `Operation.form` says how it is shown.
-/

namespace LazyMatch

/-- The comparisons that every object has. -/
inductive Comparison where
  | below
  | atMost
  | equal
  | different
  | above
  | atLeast
deriving DecidableEq, Repr

/-- An operation of a datatype. -/
inductive Operation where
  /-- Give the datatype its name. -/
  | name
  /-- Write the datatype out. -/
  | write
  /-- Go through the constructors. -/
  | visit
  /-- Whether there is a constructor of a name. -/
  | contains
  /-- The constructor of a name. -/
  | constructor
  /-- The value of the constructor of a name. -/
  | value
  /-- Change a member. -/
  | assign
  /-- Enter constructors and declare the datatype. -/
  | declare
  /-- Make a datatype that has no members yet. -/
  | create
  /-- A number by which to find the datatype. -/
  | hash
  /-- The text of the datatype. -/
  | text
  /-- A member, but not the value of a constructor. -/
  | read
  /-- Take a member away. -/
  | remove
  | compare (c : Comparison)
  /-- Take the datatype apart, in one of two ways. -/
  | dismantleAs
  | dismantle
  /-- The record of members. -/
  | members
  /-- Whether a kind of object belongs to this kind, which is left open. -/
  | recognise
  /-- Note that there is a new kind of datatypes, which does nothing. -/
  | extend
  /-- The text of the datatype in a format, of which there is only the empty one. -/
  | format
  /-- How much room the datatype takes. -/
  | size
  /-- The names of all members and operations. -/
  | list
deriving DecidableEq, Repr

/-- How an operation is shown. -/
inductive Operation.Form where
  /-- As one of this kind of datatypes. -/
  | own
  /-- As one of every object. -/
  | wrapped
  /-- As one that is built in. -/
  | builtIn
  /-- As one that is built in and shared by all datatypes. -/
  | shared
deriving DecidableEq, Repr

namespace Operation

/-- The operations that datatypes do not share with other objects, in order. -/
def own : List Operation :=
  [.name, .write, .visit, .contains, .constructor, .value, .assign, .declare]

/-- The operations of every object, in order. -/
def inherited : List Operation :=
  [.create, .hash, .text, .read, .remove, .compare .below, .compare .atMost, .compare .equal,
    .compare .different, .compare .above, .compare .atLeast, .dismantleAs, .dismantle, .members,
    .recognise, .extend, .format, .size, .list]

/-- The name under which an operation is read off a datatype. -/
def key : Operation → String
  | .name => "__init__"
  | .write => "__repr__"
  | .visit => "__iter__"
  | .contains => "__contains__"
  | .constructor => "constructor"
  | .value => "__getattr__"
  | .assign => "__setattr__"
  | .declare => "_seal"
  | .create => "__new__"
  | .hash => "__hash__"
  | .text => "__str__"
  | .read => "__getattribute__"
  | .remove => "__delattr__"
  | .compare .below => "__lt__"
  | .compare .atMost => "__le__"
  | .compare .equal => "__eq__"
  | .compare .different => "__ne__"
  | .compare .above => "__gt__"
  | .compare .atLeast => "__ge__"
  | .dismantleAs => "__reduce_ex__"
  | .dismantle => "__reduce__"
  | .members => "__getstate__"
  | .recognise => "__subclasshook__"
  | .extend => "__init_subclass__"
  | .format => "__format__"
  | .size => "__sizeof__"
  | .list => "__dir__"

/-- The operation that is read off under a name. -/
def ofKey? (key : String) : Option Operation := (own ++ inherited).find? (·.key = key)

/-- The names of the parameters that can be given by name. -/
def params : Operation → List String
  | .name | .contains | .constructor | .value => ["name"]
  | .assign => ["name", "value"]
  | .declare => ["constructors"]
  | _ => []

/-- How an operation is shown. -/
def form : Operation → Form
  | .name | .write | .visit | .contains | .constructor | .value | .assign | .declare => .own
  | .hash | .text | .read | .remove | .compare _ => .wrapped
  | .dismantleAs | .dismantle | .members | .format | .size | .list => .builtIn
  | .create | .recognise | .extend => .shared

/-- Whether an operation is one and the same for all datatypes. -/
def isShared (op : Operation) : Bool := op.form = .shared

/-- The name of an operation, qualified. -/
def qualified (op : Operation) : String :=
  (if op.form = .wrapped || op = .create then "object." else "Datatype.") ++ op.key

/-- An operation, written out, given how its datatype is and the number of that. Only an operation
of its own shows the datatype. -/
def quoted (op : Operation) (datatype : String) (number : Nat) : String :=
  match op.form with
  | .own => "<bound method " ++ op.qualified ++ " of " ++ datatype ++ ">"
  | .wrapped => Text.object ("method-wrapper '" ++ op.key ++ "' of Datatype object") number
  | .builtIn => Text.object ("built-in method " ++ op.key ++ " of Datatype object") number
  | .shared => Text.object ("built-in method " ++ op.key ++ " of type object") 11

end Operation

end LazyMatch
