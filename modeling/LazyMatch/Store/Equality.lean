import LazyMatch.Store

/-!
# Equality of values

Literal patterns compare by equality: numbers by value, texts, lists, tuples and records by their
contents, the order of a record's entries aside, and everything else by identity. Records can form
rings. A ring is equal to itself, but comparing two rings goes round and round unless a difference
turns up, so that equality may have no answer.

* `Store.equal?` is that equality.
-/

namespace LazyMatch.Store

/-- Equality of the first entries with those that the second have under the same keys, one by one up
to the first difference. One object is equal to itself here, whatever it is. -/
def equalEntries (equal? : Value → Value → Option Bool) : Entries → Entries → Option Bool
  | [], _ => some true
  | (key, v) :: rest, ys =>
    match ys.get? key with
    | none => some false
    | some w =>
      match if v.same w then some true else equal? v w with
      | some true => equalEntries equal? rest ys
      | other => other

/-- Equality of values inside the `outer` pairs of records that are being compared, at most `depth`
further pairs deep. A pair inside itself has no answer. -/
def equalTo (s : Store) : Nat → List (RecordRef × RecordRef) → Value → Value → Option Bool
  | 0, _ => Value.equalWith fun a b => if a = b then some true else none
  | depth + 1, outer => Value.equalWith fun a b =>
    if a = b then some true
    else if (a, b) ∈ outer then none
    else if (s.entries a).length ≠ (s.entries b).length then some false
    else equalEntries (equalTo s depth ((a, b) :: outer)) (s.entries a) (s.entries b)

/-- Equality of values, if it has an answer. No more pairs of records can lie inside one another
than there are pairs. -/
def equal? (s : Store) (a b : Value) : Option Bool :=
  s.equalTo (s.records.size * s.records.size) [] a b

end LazyMatch.Store
