import LazyMatch.Pattern.Test
import LazyMatch.Plan

/-!
# Compiling rules

From a registry and a list of rules to a force plan and rows of tests. Rows must be equally wide,
their phrases are resolved in order, the demand of each column gives the plan, and every row gives
its test in textual order.

The actions are of any type here: compilation only carries them along.
-/

namespace LazyMatch

/-- What a rule list compiles to. -/
structure Compiled (α : Type) where
  plan : Plan
  rows : List (TestRow α)

/-- Locate a fault of rules on its way out; other faults pass. -/
def located {β : Type} (function : Option String) (row : Option Phrase) :
    Except Fault β → Except Fault β
  | .error (.rules e) => .error (.rules (e.locate function row))
  | result => result

variable {α : Type}

/-- Resolve the rows of rules in order. An error knows the function and the row it arose in. -/
def patternRows (resolve : Resolver) (name : String) :
    List (Rule α) → Except Fault (List PatternRow)
  | [] => .ok []
  | rule :: rest => do
    let row ← located (some name) (some rule.row.phrase) (PatternRow.ofRow resolve rule.row)
    return row :: (← patternRows resolve name rest)

/-- The resolved rows of rules, and what has to be forced. -/
def patternsAndDemand (resolve : Resolver) (name : String) (rules : List (Rule α)) :
    Except Fault (List PatternRow × List Bool) := do
  let arity ← ruleWidth rules
  requireWidth arity rules
  let rows ← patternRows resolve name rules
  return (rows, ← columnDemand (plainRows rows) arity)

/-- Compile the rules of a function. -/
def Compiled.ofRules (resolve : Resolver) (name : String) (rules : List (Rule α)) :
    Except Fault (Compiled α) := do
  let (rows, need) ← located (some name) none (patternsAndDemand resolve name rules)
  let plan ← Plan.ofDemand (standardNames need.length) need
  return ⟨plan, (rows.zip rules).map fun (row, rule) => ⟨row.test, rule.action⟩⟩

end LazyMatch
