import LazyMatch.Datum
import LazyMatch.Param

/-!
# Expressions

The language in which actions, delayed computations and the parts of rules are written. It has
constants and variables, construction of values, arithmetic, delaying and forcing, and a few effects
that make evaluation visible: a log, counters and deliberate failure.

Rules are written in it too: `PatternExpr`, `RowExpr` and `ActionExpr` describe patterns, rows and
actions whose parts are evaluated when the rule is made.
-/

namespace LazyMatch

/-- Operations on one value. -/
inductive UnaryOp where
  | force
  | forceOnce
  | complete
  | isDeferred
  | isResolved
  | tag
  | text
deriving DecidableEq, Repr

/-- Operations on two values. -/
inductive BinaryOp where
  | add
  | sub
  | mul
  | less
  | same
deriving DecidableEq, Repr

mutual

/-- An expression. -/
inductive Expr where
  | constant (d : Datum)
  | var (name : String)
  /-- A member, read off its datatype. -/
  | attribute (datatype name : String)
  | call (callee : Expr) (args : List Expr)
  | list (items : List Expr)
  | tuple (items : List Expr)
  | record (entries : List (String × Expr))
  | get (container : Expr) (key : Datum)
  /-- Evaluate all, answer the last. -/
  | sequence (steps : List Expr)
  | cond (test yes no : Expr)
  | unary (op : UnaryOp) (arg : Expr)
  | binary (op : BinaryOp) (left right : Expr)
  /-- Append a value to the log. -/
  | log (entry : Expr)
  /-- Add one to a counter and answer it. -/
  | count (counter : String)
  | fail (text : String)
  /-- Defer an expression in the current scope. -/
  | delay (label : Option String) (body : Expr)
  /-- Defer the call of a function of no arguments. -/
  | delayCall (callee : Expr)
  | phrase (p : PatternExpr)
  | action (a : ActionExpr)

/-- How a pattern is written. -/
inductive PatternExpr where
  | datum (d : Datum)
  | tuple (items : List PatternExpr)
  | name (text : String)
  | literal (d : Datum)
  /-- The escape; a text inside becomes an identifier. -/
  | escape (content : PatternExpr)
  /-- The escape around exactly this content. -/
  | defer (content : PatternExpr)
  | named (inner : PatternExpr) (name : String)
  | either (alternatives : List PatternExpr)
  | value (e : Expr)
  /-- A phrase that was stored under a name. -/
  | stored (name : String)
  | row (r : RowExpr)

/-- How the row of a rule is written. -/
inductive RowExpr where
  | list (cells : List PatternExpr)
  | tuple (cells : List PatternExpr)
  | row (cells : List PatternExpr)
  | group (rows : List RowExpr)
  | otherwise
  | pattern (p : PatternExpr)
  | datum (d : Datum)

/-- How an action is written. -/
inductive ActionExpr where
  | constant (d : Datum)
  | value (e : Expr)
  /-- Answer a record of all bindings. -/
  | collect
  | escape (a : ActionExpr)
  | lambda (params : List (Param Datum)) (body : Expr)

end

/-- How a rule is written: a row and one action, or more or fewer of them, which is refused. -/
structure RuleExpr where
  row : Option RowExpr
  actions : List ActionExpr

end LazyMatch
