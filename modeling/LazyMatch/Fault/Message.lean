import LazyMatch.Text.Picture
import LazyMatch.Store.Text

/-!
# The wording of faults

A fault of rules tells the function it belongs to and shows a picture of its row, with carets under
the guilty phrase. The text of a phrase depends on the store, since a literal may be a record, so
the wording is made when the fault is shown; there is none while the row cannot be written.

* `RuleFault.picture`, `RuleFault.message`;
* `Fault.message?` is the wording of a fault that has one; the rest speak for themselves.
-/

namespace LazyMatch

/-- A set of names in braces. -/
def Names.braced (names : Names) : String := "\x7b" ++ ", ".intercalate names ++ "\x7d"

/-- The cause of a fault of rules in words. -/
def RuleCause.message : RuleCause → String
  | .noRules => "There are no rules to compile."
  | .wrongWidth width expected =>
    "This row has " ++ toString width ++ " patterns; " ++ toString expected ++ " are needed."
  | .unknownTag tag => Text.quoted tag ++ " is not a registered constructor."
  | .differentNames names =>
    "The alternatives bind different names: " ++ " / ".intercalate (names.map Names.braced)
  | .other text => text

namespace RuleFault

/-- The row of an error behind the name of its function, with carets under the guilty phrase, or
under the whole row when no phrase is guilty. Without a row there is no picture, and with one there
is none unless both the row and the guilty phrase can be written. -/
def picture (spelling : Spelling) (e : RuleFault) : Written :=
  match e.row with
  | none => return ""
  | some row => do
    let w ← Line.write spelling e.guilty row {}
    let (start, width) := w.span.getD (0, w.width)
    let caption ← match e.guilty with
      | none => pure ""
      | some guilty => guilty.spelled spelling
    return Picture.render (e.function.getD "" ++ " |") w.text start width caption

/-- A fault of rules in words. -/
def message (spelling : Spelling) (e : RuleFault) : Written :=
  let what := match e.function with
    | none => e.cause.message
    | some name => "In " ++ name ++ ": " ++ e.cause.message
  match e.row with
  | none => return what
  | some _ => return what ++ "\n" ++ (← e.picture spelling)

end RuleFault

/-- A fault in words, if it has any; only that of rules needs something written. -/
def Fault.message? (s : Store) : Fault → Except Stop (Option String)
  | .declaration fault => return some fault.message
  | .rules fault => some <$> fault.message s.spelling
  | .noMatch function tags =>
    return some ("No rule of " ++ function ++ " matches (" ++ ", ".intercalate tags ++ ").")
  | .circularForce shown =>
    return some ("Forcing this deferred value requires forcing itself first: " ++ shown)
  | .failure text => return some text
  | .wrongFieldCount key expected got =>
    return some (key ++ " takes " ++ toString expected ++ " fields but got " ++ toString got)
  | .wrongArgumentCount function expected got =>
    return some (function ++ " takes " ++ toString expected ++ " arguments but got " ++
      toString got)
  | .notARow shown =>
    return some ("A row must be a sequence of patterns, an or-group, or ELSE; not " ++ shown)
  | .noSuchAttribute name => return some name
  | .alreadyDeclared datatype => return some ("Datatype " ++ datatype ++ " is already declared.")
  | .notOneWord 0 => return some "not enough arguments for format string"
  | .notOneWord _ => return some "not all arguments converted during string formatting"
  | _ => return none

/-- Whether a fault is a complaint about declarations, rules or forcing, which the command line
reports; any other fault goes through. -/
def Fault.isComplaint : Fault → Bool
  | .declaration _ | .rules _ | .noMatch _ _ | .circularForce _ => true
  | _ => false

end LazyMatch
