/-!
# Constructors

A constructor is one variant of a datatype: its name, whether it is lazy, and its shape, which is
that of a constant or of a factory with named fields.
-/

namespace LazyMatch

/-- A constant stands for one value; a factory builds a value from its fields. -/
inductive Shape where
  | constant
  | factory (fields : List String)
deriving DecidableEq, Repr

/-- One variant of a datatype. -/
structure Constructor where
  datatype : String
  name : String
  lazy : Bool
  shape : Shape
deriving DecidableEq, Repr

namespace Constructor

/-- The qualified tag, which the values of this constructor carry. -/
def key (c : Constructor) : String := c.datatype ++ "." ++ c.name

/-- Whether the constructor takes no arguments at all. -/
def isConstant (c : Constructor) : Bool :=
  match c.shape with
  | .constant => true
  | .factory _ => false

/-- The field names in order; a constant has none. -/
def fields (c : Constructor) : List String :=
  match c.shape with
  | .constant => []
  | .factory fields => fields

/-- A constructor, written out. -/
def quoted (c : Constructor) : String :=
  "<" ++ (if c.lazy then "lazy " else "") ++ c.key ++ ">"

end Constructor

end LazyMatch
