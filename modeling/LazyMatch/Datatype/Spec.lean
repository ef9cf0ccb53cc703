import LazyMatch.Datatype.Constructor
import LazyMatch.Datum

/-!
# Declarations

How a declaration describes the constructors of a datatype, which of them are to be lazy, and why it
may be refused.

* `Spec` describes one constructor: a name, a tuple of a name and field names, or either of these
  marked lazy;
* `Mode` says which constructors of a datatype are lazy;
* `DeclarationFault` is why a declaration is refused, with its wording.
-/

namespace LazyMatch

/-- How a declaration describes one constructor. -/
inductive Spec where
  | datum (d : Datum)
  | tuple (items : List Spec)
  /-- Lazy on its own, whatever the datatype's mode. -/
  | marked (spec : Spec)

namespace Spec

mutual

/-- A description, written out. -/
def quoted : Spec → String
  | .datum d => d.quoted
  | .tuple items => Text.parenthesised (quotedAll items)
  | .marked spec => "Lazy(spec=" ++ quoted spec ++ ")"

/-- The descriptions in a tuple, written out. -/
def quotedAll : List Spec → List String
  | [] => []
  | s :: rest => quoted s :: quotedAll rest

end

mutual

/-- Whether the keys of all records in a description can be keys. -/
def wellKeyed : Spec → Bool
  | .datum d => d.wellKeyed
  | .tuple items => allWellKeyed items
  | .marked spec => wellKeyed spec

/-- Whether the keys of all records in several descriptions can be keys. -/
def allWellKeyed : List Spec → Bool
  | [] => true
  | s :: rest => wellKeyed s && allWellKeyed rest

end

/-- The text that a description is. -/
def text? : Spec → Option String
  | .datum (.text s) => some s
  | _ => none

/-- The elements of a description that is a tuple; a mark is a tuple of one. -/
def items? : Spec → Option (List Spec)
  | .datum (.tuple items) => some (items.map .datum)
  | .tuple items => some items
  | .marked spec => some [spec]
  | .datum _ => none

/-- The texts of a description that is a tuple of texts. -/
def texts? (spec : Spec) : Option (List String) := spec.items?.bind (·.mapM text?)

/-- The name and shape that an unmarked description gives: a text is a constant, and a tuple of
texts with at least one element is a factory. -/
def constructor? (spec : Spec) : Option (String × Shape) :=
  match spec.text?, spec.texts? with
  | some name, _ => some (name, .constant)
  | none, some (name :: fields) => some (name, .factory fields)
  | none, _ => none

end Spec

/-- Which constructors of a datatype are lazy. -/
inductive Mode where
  | strict
  | marked
  | all
deriving DecidableEq, Repr

/-- The mode that a declaration asks for. -/
def Mode.ofDatum? : Datum → Option Mode
  | .text s =>
    if s = "none" then some .strict
    else if s = "marked" then some .marked
    else if s = "all" then some .all
    else none
  | _ => none

/-- Why a declaration is refused. -/
inductive DeclarationFault where
  | unknownMode (mode : Datum)
  | alreadyDefined (name : String)
  | markedStrict (spec : Spec)
  | notAConstructor (spec : Spec)
  /-- Any other complaint, in its own words. -/
  | other (text : String)

/-- The complaint in words. -/
def DeclarationFault.message : DeclarationFault → String
  | .unknownMode mode =>
    "Lazy-mode must be one of ('none', 'marked', 'all'), not " ++ mode.quoted ++ "."
  | .alreadyDefined name => Text.quoted name ++ " is already defined."
  | .markedStrict spec => "Lazy marker on " ++ spec.quoted ++ " in a strict datatype."
  | .notAConstructor spec => "Cannot make a constructor out of " ++ spec.quoted ++ "."
  | .other text => text

end LazyMatch
