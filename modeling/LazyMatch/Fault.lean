import LazyMatch.Names
import LazyMatch.Phrase.OfValue

/-!
# Faults

Everything that can go wrong, by cause. A `RuleFault` aborts the compilation of one function; on
its way out it learns the function and the row it belongs to, so that its message can show a picture
of the row with a caret under the guilty phrase. The wording is in `LazyMatch.Fault.Message`.

* `Fault` is a cause; `Stop` adds running out of fuel, which is none;
* `Written` is a text that may not come about.
-/

namespace LazyMatch

/-- Why rules do not compile. -/
inductive RuleCause where
  | noRules
  | wrongWidth (width : Nat) (expected : Int)
  | unknownTag (tag : String)
  /-- The names that each alternative binds. -/
  | differentNames (names : List Names)
  /-- Any other complaint, in its own words. -/
  | other (text : String)
deriving DecidableEq

/-- Why rules do not compile, and where. -/
structure RuleFault where
  cause : RuleCause
  guilty : Option Phrase := none
  function : Option String := none
  row : Option Phrase := none
deriving DecidableEq

/-- Fill in the function and the row, where they are not known yet. -/
def RuleFault.locate (e : RuleFault) (function : Option String) (row : Option Phrase) :
    RuleFault :=
  { e with function := e.function.or function, row := e.row.or row }

/-- Why a path leads to no program. -/
inductive ProgramFault where
  /-- Nothing is there. -/
  | missing
  /-- A directory, in which nothing says what to run. -/
  | directory
  /-- The path goes through something missing, and once that is cut out it names a directory. -/
  | detour
  /-- The path goes on below a file. -/
  | belowFile
  /-- One of its names is too long. -/
  | tooLong
  /-- It holds a character that no path can have. -/
  | malformed
deriving DecidableEq, Repr

/-- What can go wrong. -/
inductive Fault where
  | declaration (fault : DeclarationFault)
  | rules (fault : RuleFault)
  /-- No rule matches; the scrutinees are described by their tags. -/
  | noMatch (function : String) (tags : List String)
  /-- Forcing a deferred value requires forcing itself first. -/
  | circularForce (shown : String)
  /-- An expression that fails on purpose. -/
  | failure (text : String)
  | wrongFieldCount (key : String) (expected got : Nat)
  | wrongArgumentCount (function : String) (expected got : Nat)
  /-- A rule's row is neither a sequence of patterns nor a group nor the fallback. -/
  | notARow (shown : String)
  | noSuchAttribute (name : String)
  /-- A declared datatype does not change. -/
  | alreadyDeclared (datatype : String)
  /-- A declared datatype does not change, and its name has so many words in place of one. -/
  | notOneWord (words : Nat)
  | missingKey
  | outOfRange
  | violatedAssumption
  | malformedRule
  /-- An action cannot have these parameters. -/
  | malformedParameters
  /-- A record is made of keys and entries, two by two. -/
  | notAPair
  /-- Something came or went while it was being gone through. -/
  | disturbed
  /-- An integer has more digits than can be written. -/
  | tooManyDigits
  /-- An integer is too large or too small for its use. -/
  | tooLarge
  | unboundName
  | wrongType
  /-- Something was asked to do what its kind does not do. -/
  | unsupported
  | program (fault : ProgramFault)

/-- Why a computation ends without a value. -/
inductive Stop where
  | fault (f : Fault)
  | exhausted

/-- A text, unless something in it cannot be written. -/
abbrev Written := Except Stop String

end LazyMatch
