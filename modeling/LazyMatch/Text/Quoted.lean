import LazyMatch.Text.Printable

/-!
# Quoted text

How values are written out. A text stands in single quotes, or in double quotes when it holds a
single quote and no double one; the quote in use and the backslash get a backslash, line feed,
carriage return and tab have their short escapes, and every other unprintable character is written
by its code point. Lists, tuples and records enclose their written elements.

* `Text.quoted` writes a text; `Text.bracketed`, `Text.parenthesised` and `Text.braced` enclose
  elements that are already written.
-/

namespace LazyMatch.Text

/-- A number in lower-case hexadecimal, with zeros in front up to the given width. -/
def hex (width n : Nat) : String :=
  let digits := Nat.toDigits 16 n
  String.ofList (List.replicate (width - digits.length) '0' ++ digits)

/-- The quote to put around a text: single, unless only the double one avoids an escape. -/
def quoteFor (s : List Char) : Char :=
  if s.contains '\x27' && !s.contains '\x22' then '\x22' else '\x27'

/-- One character inside quotes. -/
def escaped (quote c : Char) : String :=
  if c = quote || c = '\x5c' then String.ofList ['\x5c', c]
  else if c = '\n' then "\\n"
  else if c = '\r' then "\\r"
  else if c = '\t' then "\\t"
  else if isPrintable c then String.ofList [c]
  else if c.toNat < 0x100 then "\\x" ++ hex 2 c.toNat
  else if c.toNat < 0x10000 then "\\u" ++ hex 4 c.toNat
  else "\\U" ++ hex 8 c.toNat

/-- A text in quotes. -/
def quoted (s : String) : String :=
  let quote := quoteFor s.toList
  let mark := String.ofList [quote]
  mark ++ String.join (s.toList.map (escaped quote)) ++ mark

/-- A list of written elements. -/
def bracketed (items : List String) : String := "[" ++ ", ".intercalate items ++ "]"

/-- A tuple of written elements; a comma follows the only one. -/
def parenthesised : List String → String
  | [item] => "(" ++ item ++ ",)"
  | items => "(" ++ ", ".intercalate items ++ ")"

/-- A record of written keys and entries. -/
def braced (entries : List (String × String)) : String :=
  "\x7b" ++ ", ".intercalate (entries.map fun e => e.1 ++ ": " ++ e.2) ++ "\x7d"

end LazyMatch.Text
