import LazyMatch.Text.Object

/-!
# Kinds of objects

The kind of an object is an object too, which makes objects of that kind when it is called. Two
functions make an object again, given its kind.

* `Kind` and `Rebuilder`, with how they are shown.
-/

namespace LazyMatch

/-- A kind of objects. -/
inductive Kind where
  /-- Objects that are nothing but distinct. -/
  | object
  | record
  | datatype
deriving DecidableEq, Repr

namespace Kind

/-- The name of a kind. -/
def name : Kind → String
  | .object => "object"
  | .record => "dict"
  | .datatype => "Datatype"

/-- The name of a kind, qualified. -/
def qualified : Kind → String
  | .datatype => "variety.registry.Datatype"
  | k => k.name

/-- A kind, written out. -/
def quoted (k : Kind) : String := "<class '" ++ k.qualified ++ "'>"

end Kind

/-- What makes an object again. -/
inductive Rebuilder where
  /-- From its kind, the kind that this builds on, and what it consists of. -/
  | older
  /-- From its kind and anything else that this needs. -/
  | newer
deriving DecidableEq, Repr

namespace Rebuilder

/-- The name of a rebuilder. -/
def name : Rebuilder → String
  | .older => "_reconstructor"
  | .newer => "__newobj__"

/-- The name of a rebuilder, qualified. -/
def qualified (r : Rebuilder) : String := "copyreg." ++ r.name

/-- The names of the parameters that can be given by name. -/
def params : Rebuilder → List String
  | .older => ["cls", "base", "state"]
  | .newer => ["cls"]

/-- A rebuilder, written out. -/
def quoted : Rebuilder → String
  | .older => Text.object "function _reconstructor" 19
  | .newer => Text.object "function __newobj__" 23

end Rebuilder

end LazyMatch
