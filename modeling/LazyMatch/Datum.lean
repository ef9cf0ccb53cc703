import LazyMatch.Numeral
import LazyMatch.Text.Quoted

/-!
# Plain data

A `Datum` is data as it is written down in a declaration or a constant: no identity, no deferred
parts. Evaluating a constant makes a fresh value of it.

* `Datum.quoted` writes a datum out;
* `Datum.isKey` says which data can be record keys, and `Datum.wellKeyed` that no record in a datum
  has any other key;
* `Datum.sameKey` is the equality of record keys, under which numbers compare by value;
* `Datum.ofEntries` builds a record, where a later entry under an equal key replaces the earlier one
  in place.
-/

namespace LazyMatch

/-- Data as written: scalars, lists, tuples and records. -/
inductive Datum where
  | null
  | bool (b : Bool)
  | int (i : Int)
  | float (decimal : String)
  | text (s : String)
  | list (items : List Datum)
  | tuple (items : List Datum)
  | record (entries : List (Datum × Datum))

namespace Datum

/-- How a truth value is written. -/
def boolText (b : Bool) : String := if b then "True" else "False"

mutual

/-- A datum, written out. -/
def quoted : Datum → String
  | .null => "None"
  | .bool b => boolText b
  | .int i => toString i
  | .float decimal => decimal
  | .text s => Text.quoted s
  | .list items => Text.bracketed (quotedAll items)
  | .tuple items => Text.parenthesised (quotedAll items)
  | .record entries => Text.braced (quotedEntries entries)

/-- The elements of a list or tuple, written out. -/
def quotedAll : List Datum → List String
  | [] => []
  | d :: rest => quoted d :: quotedAll rest

/-- The keys and entries of a record, written out. -/
def quotedEntries : List (Datum × Datum) → List (String × String)
  | [] => []
  | (k, d) :: rest => (quoted k, quoted d) :: quotedEntries rest

end

/-- The text of a datum in running words: a text is itself, anything else is written out. -/
def plain : Datum → String
  | .text s => s
  | d => quoted d

mutual

/-- Whether a datum can be the key of an entry: it holds no list and no record. -/
def isKey : Datum → Bool
  | .list _ | .record _ => false
  | .tuple items => areKeys items
  | _ => true

/-- Whether all of several data can be keys. -/
def areKeys : List Datum → Bool
  | [] => true
  | d :: rest => isKey d && areKeys rest

end

mutual

/-- Whether the keys of all records in a datum can be keys. Only such a datum can be made. -/
def wellKeyed : Datum → Bool
  | .list items | .tuple items => allWellKeyed items
  | .record entries => entriesWellKeyed entries
  | _ => true

/-- Whether the keys of all records in several data can be keys. -/
def allWellKeyed : List Datum → Bool
  | [] => true
  | d :: rest => wellKeyed d && allWellKeyed rest

/-- Whether the keys of entries, and of all records in the entries, can be keys. -/
def entriesWellKeyed : List (Datum × Datum) → Bool
  | [] => true
  | (k, d) :: rest => isKey k && wellKeyed d && entriesWellKeyed rest

end

/-- The exact value of a datum that is a number. -/
def numeral? : Datum → Option Numeral
  | .bool b => some (.ofInt (if b then 1 else 0))
  | .int i => some (.ofInt i)
  | .float decimal => some (.ofDecimal decimal)
  | _ => none

mutual

/-- Equality of record keys. Lists and records are never keys. -/
def sameKey : Datum → Datum → Bool
  | .null, .null => true
  | .text s, .text t => s == t
  | .tuple xs, .tuple ys => sameKeys xs ys
  | a, b => match numeral? a, numeral? b with
    | some x, some y => x.same y
    | _, _ => false

/-- Equality of tuples that are record keys. -/
def sameKeys : List Datum → List Datum → Bool
  | [], [] => true
  | a :: as, b :: bs => sameKey a b && sameKeys as bs
  | _, _ => false

end

/-- Write an entry into a record: in place when an equal key is there already. -/
def putEntry : List (Datum × Datum) → Datum → Datum → List (Datum × Datum)
  | [], key, d => [(key, d)]
  | (k, e) :: rest, key, d =>
    if sameKey k key then (k, d) :: rest else (k, e) :: putEntry rest key d

/-- The record of entries that are written one after the other. -/
def ofEntries (entries : List (Datum × Datum)) : Datum :=
  .record (entries.foldl (fun r e => putEntry r e.1 e.2) [])

end Datum

end LazyMatch
