import LazyMatch.Fault

/-!
# Patterns

A phrase means nothing until its identifiers are looked up. A pattern is a phrase whose identifiers
have been resolved, so that its kind says what it is: a wildcard, a constant, a structured form of a
factory, an escape, a named pattern, an alternation, or a phrase that goes through verbatim, which
is a variable to bind or a literal to compare.

* `Resolver` says how an identifier resolves, `Registry.resolver` that it does so in a registry;
* `Pattern.ofPhrase` resolves a phrase, `PatternRow.ofRow` the row of a rule;
* `Pattern.names?` are the names that a pattern binds; the alternatives of an alternation must agree
  on them (`agree`).
-/

namespace LazyMatch

/-- How an identifier resolves, if it does. -/
abbrev Resolver := String → Except Fault (Option Constructor)

/-- Resolve identifiers in a registry. -/
def Registry.resolver (r : Registry) : Resolver := fun tag => .ok (r.resolve? tag)

/-- A phrase whose identifiers have been resolved. -/
inductive Pattern where
  | wildcard (token : Phrase)
  | constant (token : Phrase) (c : Constructor)
  | factory (token : Phrase) (c : Constructor) (fields : List Pattern)
  | deferred (token : Phrase) (content : Value)
  | named (token : Phrase) (inner : Pattern) (name : String)
  | either (token : Phrase) (alternatives : List Pattern)
  /-- A variable to bind, or a literal to compare. -/
  | verbatim (token : Phrase)

namespace Pattern

/-- The phrase that was resolved. -/
def token : Pattern → Phrase
  | .wildcard t | .constant t _ | .factory t _ _ | .deferred t _ | .named t _ _ | .either t _
  | .verbatim t => t

/-- Whether a pattern is the bare wildcard. -/
def isWildcard : Pattern → Bool
  | .wildcard _ => true
  | _ => false

/-- The name that the content of an escape binds. -/
def contentNames : Value → Names
  | .phrase (.name _ text) => if text = "_" then [] else [text]
  | _ => []

mutual

/-- The names that a pattern binds. An alternation binds the names of its first alternative; without
any alternative there is no answer. -/
def names? : Pattern → Option Names
  | .wildcard _ | .constant _ _ => some []
  | .factory _ _ fields => namesAll? fields
  | .deferred _ content => some (contentNames content)
  | .named _ inner name => (names? inner).map (Names.insert name)
  | .either _ [] => none
  | .either _ (first :: _) => names? first
  | .verbatim (.name _ text) => some [text]
  | .verbatim _ => some []

/-- The names that patterns bind together. -/
def namesAll? : List Pattern → Option Names
  | [] => some []
  | p :: rest =>
    match names? p, namesAll? rest with
    | some a, some b => some (Names.union a b)
    | _, _ => none

end

end Pattern

/-- Each alternative must bind the same names. The guilty phrase is `token`. -/
def agree (token : Phrase) (alternatives : List Pattern) : Except Fault Unit :=
  match alternatives.mapM Pattern.names? with
  | none => .error .outOfRange
  | some names =>
    if names.all fun n => names.head? = some n then .ok ()
    else .error (.rules { cause := .differentNames names, guilty := some token })

mutual

/-- Resolve the identifiers of a phrase. The contents of escapes and literals stay closed. -/
def Pattern.ofPhrase (resolve : Resolver) : Phrase → Except Fault Pattern
  | .name stamp text => do
    if text = "_" then return .wildcard (.name stamp text)
    match ← resolve text with
    | none => return .verbatim (.name stamp text)
    | some c =>
      if c.isConstant then return .constant (.name stamp text) c
      else return .factory (.name stamp text) c []
  | .compound stamp head fields => do
    let token := .compound stamp head fields
    let unknown := Fault.rules { cause := .unknownTag head, guilty := some token }
    match ← resolve head with
    | none => throw unknown
    | some c =>
      if c.isConstant then
        if fields.isEmpty then return .constant token c else throw unknown
      else return .factory token c (← Pattern.ofPhrases resolve fields)
  | .defer stamp content => .ok (.deferred (.defer stamp content) content)
  | .named stamp inner name =>
    (Pattern.ofPhrase resolve inner).map fun p => .named (.named stamp inner name) p name
  | .either stamp alternatives => do
    let patterns ← Pattern.ofPhrases resolve alternatives
    agree (.either stamp alternatives) patterns
    return .either (.either stamp alternatives) patterns
  | token => .ok (.verbatim token)

/-- Resolve phrases in order. -/
def Pattern.ofPhrases (resolve : Resolver) : List Phrase → Except Fault (List Pattern)
  | [] => .ok []
  | p :: rest => do
    let pattern ← Pattern.ofPhrase resolve p
    return pattern :: (← Pattern.ofPhrases resolve rest)

end

/-- The row of a rule, resolved. -/
inductive PatternRow where
  | row (cells : List Pattern)
  /-- The rows of a group. -/
  | group (rows : List (List Pattern))
  | otherwise

namespace PatternRow

/-- The plain rows: one, all those of a group in order, or none. -/
def rows : PatternRow → List (List Pattern)
  | .row cells => [cells]
  | .group rows => rows
  | .otherwise => []

end PatternRow

/-- One column of a row list. -/
def column (rows : List (List Pattern)) (i : Nat) : Except Fault (List Pattern) :=
  match rows.mapM (·[i]?) with
  | some cells => .ok cells
  | none => .error .outOfRange

/-- Resolve the row of a rule. The rows of a group must agree, position by position, on the names
that they bind; the guilty phrase is the cell of the first one. -/
def PatternRow.ofRow (resolve : Resolver) : RuleRow → Except Fault PatternRow
  | .row plain => (Pattern.ofPhrases resolve plain.cells).map .row
  | .group _ first rest => do
    let rows ← (first :: rest).mapM fun plain => Pattern.ofPhrases resolve plain.cells
    first.cells.zipIdx.forM fun (token, i) => do agree token (← column rows i)
    return .group rows
  | .otherwise => .ok .otherwise

end LazyMatch
