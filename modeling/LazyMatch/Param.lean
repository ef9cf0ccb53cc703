import LazyMatch.Text.Compatible
import LazyMatch.Text.Identifier

/-!
# Parameters of actions

A parameter takes its argument by position, by name, or either way, and two kinds take whatever is
left. However they are written down, parameters stand in the order of their kinds. The body of an
action refers to a parameter as it is written, but an argument by name goes to the parameter whose
name has that compatible form.

* `Param.key` is the name by which a parameter is given an argument;
* `Param.arrange` puts parameters into order;
* `Param.wellFormed` says which lists of parameters an action can have.
-/

namespace LazyMatch

/-- How a parameter takes its argument. -/
inductive ParamKind where
  /-- By position or by name. -/
  | plain
  /-- By position only. -/
  | positional
  /-- By name only. -/
  | keyword
  /-- All further arguments by position, as a tuple. -/
  | restPositional
  /-- All further arguments by name, as a record. -/
  | restKeyword
deriving DecidableEq, Repr

/-- The kinds in the order in which parameters stand. -/
def ParamKind.inOrder : List ParamKind :=
  [.positional, .plain, .restPositional, .keyword, .restKeyword]

/-- A parameter of an action, with what it takes when nothing is supplied. -/
structure Param (α : Type) where
  name : String
  kind : ParamKind
  fallback : Option α

/-- Words that are no names. -/
def reservedWords : List String :=
  ["False", "None", "True", "and", "as", "assert", "async", "await", "break", "class", "continue",
    "def", "del", "elif", "else", "except", "finally", "for", "from", "global", "if", "import",
    "in", "is", "lambda", "nonlocal", "not", "or", "pass", "raise", "return", "try", "while",
    "with", "yield"]

namespace Param

variable {α : Type}

/-- The name by which a parameter is given its argument. -/
def key (p : Param α) : String := Text.compatible p.name

/-- Whether the name of a parameter can be one. -/
def isName (p : Param α) : Bool :=
  Text.isIdentifier p.name && !reservedWords.contains p.name && p.key ≠ "__debug__"

/-- Whether a parameter goes by a reserved word, which its own name is a variant of. -/
def isDisguised (p : Param α) : Bool := p.kind ≠ .positional && reservedWords.contains p.key

/-- Put parameters into the order of their kinds. -/
def arrange (params : List (Param α)) : List (Param α) :=
  ParamKind.inOrder.flatMap fun kind => params.filter (·.kind = kind)

/-- Whether no parameter without a fallback comes after one with a fallback. -/
def fallbacksLast : List (Param α) → Bool
  | [] => true
  | p :: rest => (p.fallback.isNone || rest.all (·.fallback.isSome)) && fallbacksLast rest

/-- Whether an action can have these parameters: they have different names, each kind that takes
what is left occurs once at most and has no fallback, and by position fallbacks come last. -/
def wellFormed (params : List (Param α)) : Bool :=
  let ofKind (kind : ParamKind) := params.filter (·.kind = kind)
  params.all isName && (params.map key).Nodup &&
    [ParamKind.restPositional, .restKeyword].all (fun kind =>
      (ofKind kind).length ≤ 1 && (ofKind kind).all (·.fallback.isNone)) &&
    fallbacksLast (ofKind .positional ++ ofKind .plain)

end Param

end LazyMatch
