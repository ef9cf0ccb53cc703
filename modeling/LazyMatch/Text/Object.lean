import LazyMatch.Text.Quoted

/-!
# Objects without a written form

What cannot be written out is shown by its kind and a number of its own, in twelve hexadecimal
digits, so that two of them can be told apart. Nothing should depend on such a number, so it can be
hidden.

* `Text.object` shows an object, `Text.anonymous` hides the numbers of the objects in a text.
-/

namespace LazyMatch.Text

/-- The number by which an object is shown. -/
def number (id : Nat) : Nat := 0x7F0000000000 + 16 * id

/-- An object: its kind and its number. -/
def object (kind : String) (id : Nat) : String :=
  "<" ++ kind ++ " at 0x" ++ hex 12 (number id) ++ ">"

/-- Whether a character is a digit of such a number. -/
def isHexDigit (c : Char) : Bool := c.isDigit || ('a' ≤ c && c ≤ 'f')

/-- What stands before the number of an object. -/
def mark : List Char := " at 0x".toList

/-- How many digits a text has after the mark of a number with which it starts; none without the
mark. -/
def markedDigits (cs : List Char) : Nat :=
  if mark.isPrefixOf cs then ((cs.drop mark.length).takeWhile isHexDigit).length else 0

/-- A text with the numbers of objects hidden, the first `skip` characters being left out. -/
def hideNumbers : Nat → List Char → List Char
  | _, [] => []
  | skip + 1, _ :: rest => hideNumbers skip rest
  | 0, c :: rest =>
    match markedDigits (c :: rest) with
    | 0 => c :: hideNumbers 0 rest
    | digits + 1 => mark ++ '?' :: hideNumbers (mark.length + digits) rest

/-- A text with the numbers of objects hidden. -/
def anonymous (s : String) : String := String.ofList (hideNumbers 0 s.toList)

end LazyMatch.Text
