import LazyMatch.Value

/-!
# Phrases from plain values

Rules are written with plain values: a text is an identifier, a tuple headed by a text a structured
form, a phrase is itself and anything else a literal. The row of a rule is a list or tuple of such
values, a row, a group of rows or the fallback.

* `Phrase.ofValue` makes a phrase of a value, `RuleRow.ofValue?` a row;
* `Rule` pairs a row with an action of any type, so that the passes over rules cannot look into
  actions.
-/

namespace LazyMatch

/-- A supply of stamps that have not been used. -/
abbrev Fresh := StateM Nat

/-- A stamp that has not been used. -/
def fresh : Fresh Nat := modifyGet fun n => (n, n + 1)

mutual

/-- Make a phrase of a value. -/
def Phrase.ofValue : Value → Fresh Phrase
  | .phrase p => pure p
  | .text s => return .name (← fresh) s
  | .tuple _ (.text head :: rest) =>
    return .compound (← fresh) ⟨← fresh, head⟩ (← Phrase.ofValues rest)
  | v => return .literal (← fresh) v

/-- Make phrases of values. -/
def Phrase.ofValues : List Value → Fresh (List Phrase)
  | [] => pure []
  | v :: rest => return (← Phrase.ofValue v) :: (← Phrase.ofValues rest)

end

/-- The row of a rule. -/
inductive RuleRow where
  | row (r : Row)
  | group (stamp : Nat) (first : Row) (rest : List Row)
  | otherwise
deriving DecidableEq

namespace RuleRow

/-- The row as a phrase. -/
def phrase : RuleRow → Phrase
  | .row r => .row r
  | .group stamp first rest => .group stamp first rest
  | .otherwise => .otherwise

/-- The plain rows: one, all those of a group in order, or none. -/
def rows : RuleRow → List Row
  | .row r => [r]
  | .group _ first rest => first :: rest
  | .otherwise => []

/-- Make a row of a value, if it is one. -/
def ofValue? : Value → Fresh (Option RuleRow)
  | .phrase (.row r) => return some (.row r)
  | .phrase (.group stamp first rest) => return some (.group stamp first rest)
  | .phrase .otherwise => return some .otherwise
  | .list _ items | .tuple _ items => return some (.row (.mk (← fresh) (← Phrase.ofValues items)))
  | _ => return none

/-- The plain row that this is. -/
def row? : RuleRow → Option Row
  | .row r => some r
  | _ => none

end RuleRow

/-- A row and what to do when it is the first to match. -/
structure Rule (α : Type) where
  row : RuleRow
  action : α

/-- The escape around a value: a text becomes an identifier, anything else stays as it is. -/
def Phrase.escape : Value → Fresh Phrase
  | .text s => return .defer (← fresh) (.phrase (.name (← fresh) s))
  | v => return .defer (← fresh) v

end LazyMatch
