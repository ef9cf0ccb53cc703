import LazyMatch.Machine
import LazyMatch.Report
import LazyMatch.Store.View

/-!
# Steps of a session

What can be asked of a session, one step at a time, and what it answers: declarations of datatypes
and functions, evaluation, and a look at each pass that rules go through on their way to a function.
-/

namespace LazyMatch

/-- How a test is written. -/
inductive TestExpr where
  | wild
  | bind (name : String)
  | equal (e : Expr)
  | tag (key : String)
  | fields (key : String) (subs : List (String × TestExpr))
  | named (inner : TestExpr) (name : String)
  | either (options : List TestExpr)
  | strict (inner : TestExpr)

/-- How the test of a row is written. -/
inductive RowTestExpr where
  | row (tests : List TestExpr)
  | group (alternatives : List (List TestExpr))
  | otherwise

/-- How a row of tests is written. -/
structure TestRowExpr where
  test : RowTestExpr
  action : ActionExpr

/-- What a fault of rules is located in. -/
inductive Place where
  | nowhere
  | row (r : RowExpr)
  /-- Any phrase in place of a row. -/
  | cell (p : PatternExpr)

/-- A complaint made by hand. -/
inductive Complaint where
  | rules (text : String) (guilty : Option PatternExpr)
  | unknownTag (tag : String) (guilty : Option PatternExpr)
  | noRules
  | wrongWidth (expected : Int) (guilty : PatternExpr)
  | differentNames (guilty : PatternExpr) (names : List (List String))
  | alreadyDefined (name : String)
  | declaration (text : String)
  | noMatch (function : String) (scrutinees : List Expr)

/-- A complaint, and where to locate it. -/
structure Issue where
  complaint : Complaint
  locations : List (Option String × Place)

/-- What can be asked of a session. -/
inductive Step where
  /-- Declare a datatype. -/
  | datatype (name : String) (specs : List Spec) (mode : Datum) (verbosity : Option (Option Int))
  /-- List all datatypes. -/
  | registry
  /-- Resolve a tag that must be there. -/
  | lookup (tag : String)
  | isLazy (tag : String)
  /-- Resolve a tag that need not be there. -/
  | resolve (tag : String)
  /-- Whether a tag resolves, or whether a datatype has a constructor of this name. -/
  | contains (tag : String) (datatype : Option String)
  | constructor (datatype name : String)
  /-- Try to change a declared datatype. -/
  | assign (datatype name : String)
  /-- Keep a phrase under a name. -/
  | keep (name : String) (p : PatternExpr)
  | phrase (p : PatternExpr)
  | row (r : RowExpr)
  | pattern (p : PatternExpr)
  /-- Show each pass over a list of rules. -/
  | passes (rules : List RuleExpr) (arity : Option Int) (unchecked : Bool)
  | plan (params : List String) (need : List Bool)
  /-- Declare a function and keep it under its name or another. -/
  | function (name : String) (rules : List RuleExpr) (lazy : Bool) (other : Option String)
      (verbosity : Option (Option Int))
  /-- Keep a value under a name. -/
  | define (name : String) (e : Expr)
  | eval (e : Expr)
  | print (es : List Expr)
  /-- Compile rules for these values alone and dispatch on them. -/
  | cases (values : List Expr) (rules : List RuleExpr)
  /-- Match rows of tests, or only show them. -/
  | matchRows (name : String) (rows : List TestRowExpr) (values : List Expr) (showOnly : Bool)
  | issue (i : Issue)
  /-- Print notes and complaints. -/
  | report (verbosity : Option Int) (notes : List (List Datum × Option Int)) (issues : List Issue)

/-- A pattern for showing. -/
inductive PatternView where
  | wildcard
  | constant (key : String)
  | factory (key : String) (fields : List PatternView)
  | deferred (text : String)
  | named (name : String) (inner : PatternView)
  | either (alternatives : List PatternView)
  | verbatim (text : String)

mutual

/-- A pattern for showing, given how phrases are spelled. -/
def Pattern.view (spelled : Phrase → Written) : Pattern → Except Stop PatternView
  | .wildcard _ => return .wildcard
  | .constant _ c => return .constant c.key
  | .factory _ c fields => return .factory c.key (← Pattern.viewAll spelled fields)
  | .deferred token _ => return .deferred (← spelled token)
  | .named _ inner name => return .named name (← inner.view spelled)
  | .either _ alternatives => return .either (← Pattern.viewAll spelled alternatives)
  | .verbatim token => return .verbatim (← spelled token)

/-- Patterns for showing. -/
def Pattern.viewAll (spelled : Phrase → Written) : List Pattern → Except Stop (List PatternView)
  | [] => return []
  | p :: rest => return (← p.view spelled) :: (← Pattern.viewAll spelled rest)

end

/-- What is known of a pattern. -/
structure PatternReport where
  tree : PatternView
  text : String
  demands : Bool
  test : String
  names : Option Names

/-- What each pass makes of a list of rules. -/
structure Passes where
  arity : Int
  flat : List (List Pattern)
  columns : List (List Pattern)
  need : List Bool
  plan : Plan
  /-- The rows in their groups; a plain row with the names it binds. -/
  grouped : List (PatternRow × Option Names)
  rows : List String

/-- What is known of a constructor: beside itself the name that its datatype has by now. -/
structure Description where
  constructor : Constructor
  datatype : View

/-- What is known of a function. -/
structure FunctionReport where
  quoted : String
  plan : Plan
  rows : List String

/-- How a run of the command line ended. -/
structure Exit where
  /-- The exit status, if the run ended with one. -/
  status : Option Nat
  stdout : String := ""
  stderr : String := ""
deriving DecidableEq, Repr

/-- What a session answers. -/
inductive Answer where
  | done
  | flag (b : Bool)
  | text (s : String)
  | value (v : View)
  | datatype (d : Datatype) (info : Option String)
  /-- The datatypes by name, each with its constructors. -/
  | registry (datatypes : List (View × List Description))
  | constructor (c : Option Description)
  | phrase (p : Phrase) (text quoted : String)
  | row (r : RuleRow) (text : String)
  | pattern (r : PatternReport)
  | passes (p : Passes)
  | plan (p : Plan)
  | function (f : FunctionReport) (info : Option String)
  | rows (texts : List String)
  | issue (text : String) (picture : Option String) (tags : Option (List String))
  | report (text : String)
  | exit (e : Exit)

/-- The answer to a step, with what it told and printed on the way. -/
structure Outcome where
  answer : Answer := .done
  notes : List Note := []
  printed : String := ""

end LazyMatch
