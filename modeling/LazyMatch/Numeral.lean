/-!
# Exact numerals

Truth values, integers and binary floating-point numbers are compared by their exact values, across
the three kinds. A `Numeral` is such a value: an integer times a power of two, an infinity, or the
undefined number, which equals nothing.

* `Numeral.ofInt` and `Numeral.ofDecimal` give the value of an integer and of the double nearest to
  a decimal text;
* `Numeral.same` compares values.
-/

namespace LazyMatch

/-- The exact value of a number. -/
inductive Numeral where
  /-- `significand * 2 ^ exponent`. -/
  | finite (significand exponent : Int)
  | infinite (negative : Bool)
  | undefined
deriving DecidableEq, Repr

namespace Numeral

/-- The value of an integer. -/
def ofInt (i : Int) : Numeral := .finite i 0

/-- The value of a double, from its sign, exponent and fraction bits. -/
def ofBits (bits : Nat) : Numeral :=
  let negative := bits / 1 <<< 63 % 2 == 1
  let exponent : Nat := bits / 1 <<< 52 % 1 <<< 11
  let fraction : Nat := bits % 1 <<< 52
  if exponent == 1 <<< 11 - 1 then
    if fraction == 0 then .infinite negative else .undefined
  else
    let magnitude : Nat := if exponent == 0 then fraction else fraction + 1 <<< 52
    .finite (if negative then -(magnitude : Int) else magnitude) (max exponent 1 - 1075)

/-- A run of decimal digits at the head of a text, and what follows it. -/
def digits (cs : List Char) : List Char × List Char :=
  (cs.takeWhile Char.isDigit, cs.dropWhile Char.isDigit)

/-- The number that decimal digits spell. -/
def ofDigits (ds : List Char) : Nat :=
  ds.foldl (fun n d => 10 * n + (d.toNat - '0'.toNat)) 0

/-- The exponent part of a decimal text: a letter, a sign if any, and digits. -/
def scale : List Char → Int
  | _ :: '-' :: ds => -(ofDigits (digits ds).1 : Int)
  | _ :: '+' :: ds => ofDigits (digits ds).1
  | _ :: ds => ofDigits (digits ds).1
  | [] => 0

/-- The value of the double nearest to `coefficient * 10 ^ power`. -/
def nearest (coefficient : Nat) (power : Int) : Numeral :=
  ofBits (Float.ofScientific coefficient (power < 0) power.natAbs).toBits.toNat

/-- Change the sign. -/
def negate : Numeral → Numeral
  | .finite m e => .finite (-m) e
  | .infinite negative => .infinite (!negative)
  | .undefined => .undefined

/-- The value of an unsigned decimal text such as `2.5`, `1e+22` or `inf`. -/
def ofUnsigned (cs : List Char) : Numeral :=
  if cs = "inf".toList then .infinite false
  else if cs = "nan".toList then .undefined
  else
    let (whole, rest) := digits cs
    let (fraction, rest) := match rest with
      | '.' :: ds => digits ds
      | _ => ([], rest)
    nearest (ofDigits (whole ++ fraction)) (scale rest - fraction.length)

/-- The value of the double that a decimal text stands for. -/
def ofDecimal (s : String) : Numeral :=
  match s.toList with
  | '-' :: cs => negate (ofUnsigned cs)
  | cs => ofUnsigned cs

/-- Equality of values: exact, with an undefined number equal to nothing. -/
def same : Numeral → Numeral → Bool
  | .finite m p, .finite n q =>
    if p ≤ q then decide (m = n * Int.pow 2 (q - p).toNat)
    else decide (m * Int.pow 2 (p - q).toNat = n)
  | .infinite a, .infinite b => decide (a = b)
  | _, _ => false

@[simp] theorem same_ofInt (a b : Int) : same (ofInt a) (ofInt b) = decide (a = b) := by
  simp [same, ofInt, Int.pow]

end Numeral

end LazyMatch
