import LazyMatch.Pattern

/-!
# Demand

Dispatch works on one value per argument position, so whether a position is forced is decided for a
whole column: it is forced when some row, or some row of a group, names a lazy constructor there, at
its top or behind names and alternations. Nothing else is ever forced before dispatch.

* `Pattern.demands` is the question for one pattern, `columnDemand` for the columns of rows;
* `ruleWidth` and `requireWidth` make the rows of a rule list equally wide.
-/

namespace LazyMatch

mutual

/-- Whether a pattern inspects a lazy constructor at its position. -/
def Pattern.demands : Pattern → Bool
  | .constant _ c | .factory _ c _ => c.lazy
  | .named _ inner _ => inner.demands
  | .either _ alternatives => Pattern.demandsAny alternatives
  | .deferred _ _ | .wildcard _ | .verbatim _ => false

/-- Whether one of several patterns does. -/
def Pattern.demandsAny : List Pattern → Bool
  | [] => false
  | p :: rest => p.demands || Pattern.demandsAny rest

end

theorem Pattern.demandsAny_eq (ps : List Pattern) : Pattern.demandsAny ps = ps.any demands := by
  induction ps with
  | nil => rfl
  | cons p rest ih => simp [Pattern.demandsAny, ih]

/-- Every plain row of a rule list, those of groups included, in order. -/
def plainRows (rows : List PatternRow) : List (List Pattern) := rows.flatMap PatternRow.rows

/-- The columns of equally wide rows, one per argument position. -/
def columnsOf (flat : List (List Pattern)) (arity : Nat) : Except Fault (List (List Pattern)) :=
  (List.range arity).mapM (column flat)

/-- For each argument position, whether it has to be forced. -/
def columnDemand (flat : List (List Pattern)) (arity : Nat) : Except Fault (List Bool) :=
  (columnsOf flat arity).map (·.map (·.any Pattern.demands))

/-! ### Widths -/

/-- The width of the first plain row or first row of a group; fallbacks alone have width zero. -/
def ruleWidth {α : Type} : List (Rule α) → Except Fault Nat
  | [] => .error (.rules { cause := .noRules })
  | rules => .ok (((rules.flatMap (·.row.rows)).head?.map Row.width).getD 0)

/-- Every plain row must have the given width. The first one that has not is guilty, and the picture
is that of the whole row of its rule. -/
def requireWidth {α : Type} (arity : Int) : List (Rule α) → Except Fault Unit
  | [] => .ok ()
  | rule :: rest =>
    match rule.row.rows.find? fun r => r.width ≠ arity with
    | none => requireWidth arity rest
    | some r =>
      .error (.rules
        { cause := .wrongWidth r.width arity
          guilty := some (.row r)
          row := some rule.row.phrase })

end LazyMatch
