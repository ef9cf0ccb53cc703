import LazyMatch.Pattern.Demand
import LazyMatch.Table

/-!
# Tests

What dispatch asks of a value: about its tag, its fields or the value itself, with wildcards,
bindings and alternations. Constructors and their laziness are gone; what is left of them is a mark
on every nested position that has to be forced before it can be inspected.

* `Test` is what is asked of one value, `RowTest` of all scrutinees, `TestRow` adds an action;
* `Pattern.test` is the test of a pattern, `PatternRow.test` that of a row.
-/

namespace LazyMatch

/-- What is asked of a value. -/
inductive Test where
  | wild
  | bind (name : String)
  | equal (value : Value)
  | tag (key : String)
  /-- A tag, and tests for some of the fields under it. -/
  | fields (key : String) (subs : List (String × Test))
  | named (inner : Test) (name : String)
  | either (options : List Test)
  /-- Force the value, then inspect it. -/
  | strict (inner : Test)

/-- What goes through verbatim: an identifier binds, a literal compares with its value, and anything
else compares with itself. -/
def Test.ofValue : Value → Test
  | .phrase (.name _ text) => if text = "_" then .wild else .bind text
  | .phrase (.literal _ v) => .equal v
  | v => .equal v

mutual

/-- The test of a pattern. -/
def Pattern.test : Pattern → Test
  | .wildcard _ => .wild
  | .constant _ c => .tag c.key
  | .factory _ c fields => .fields c.key (Pattern.testFields c.fields fields [])
  | .deferred _ content => .ofValue content
  | .named _ inner name => .named inner.test name
  | .either _ alternatives => .either (Pattern.tests alternatives)
  | .verbatim token => .ofValue (.phrase token)

/-- Enter the tests of sub-patterns under the names of their fields. Wildcards constrain nothing and
are left out; nested positions have no column of their own, so they are forced in place. -/
def Pattern.testFields : List String → List Pattern → Table Test → Table Test
  | name :: names, p :: ps, subs =>
    if p.isWildcard then Pattern.testFields names ps subs
    else Pattern.testFields names ps
      (subs.put name (if p.demands then .strict p.test else p.test))
  | _, _, subs => subs

/-- The tests of patterns. -/
def Pattern.tests : List Pattern → List Test
  | [] => []
  | p :: rest => p.test :: Pattern.tests rest

end

theorem Pattern.tests_eq (ps : List Pattern) : Pattern.tests ps = ps.map Pattern.test := by
  induction ps with
  | nil => rfl
  | cons p rest ih => simp [Pattern.tests, ih]

/-- What a row asks of the scrutinees. -/
inductive RowTest where
  | row (tests : List Test)
  | group (alternatives : List (List Test))
  | otherwise

/-- A row of tests and what to do when it is the first to match. -/
structure TestRow (α : Type) where
  test : RowTest
  action : α

/-- The test of a row. -/
def PatternRow.test : PatternRow → RowTest
  | .row cells => .row (cells.map Pattern.test)
  | .group rows => .group (rows.map (·.map Pattern.test))
  | .otherwise => .otherwise

/-! ### Text -/

mutual

/-- The text of a test, given how literals are spelled. -/
def Test.spelled (literal : Value → Written) : Test → Written
  | .wild => return "_"
  | .bind name => return name
  | .equal v => literal v
  | .tag key => return ":" ++ key
  | .fields key subs => do
    return ":" ++ key ++ "\x7b" ++ ", ".intercalate (← Test.spelledFields literal subs) ++ "\x7d"
  | .named inner name => return "(" ++ (← inner.spelled literal) ++ " :as " ++ name ++ ")"
  | .either options => return "(:or " ++ " ".intercalate (← Test.spelledAll literal options) ++ ")"
  | .strict inner => return "!" ++ (← inner.spelled literal)

/-- The texts of the tests of fields. -/
def Test.spelledFields (literal : Value → Written) :
    List (String × Test) → Except Stop (List String)
  | [] => return []
  | (name, p) :: rest => do
    let first ← p.spelled literal
    return (name ++ ": " ++ first) :: (← Test.spelledFields literal rest)

/-- The texts of tests. -/
def Test.spelledAll (literal : Value → Written) : List Test → Except Stop (List String)
  | [] => return []
  | p :: rest => return (← p.spelled literal) :: (← Test.spelledAll literal rest)

end

/-- The text of the tests of one plain row. -/
def Test.rowSpelled (literal : Value → Written) (tests : List Test) : Written :=
  return "[" ++ " ".intercalate (← Test.spelledAll literal tests) ++ "]"

/-- The text of a row. -/
def RowTest.spelled (literal : Value → Written) : RowTest → Written
  | .row tests => Test.rowSpelled literal tests
  | .group alternatives =>
    return "(:or " ++ " ".intercalate (← alternatives.mapM (Test.rowSpelled literal)) ++ ")"
  | .otherwise => return ":else"

end LazyMatch
