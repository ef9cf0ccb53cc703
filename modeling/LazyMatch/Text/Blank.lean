/-!
# White space

The characters that count as white space at the end of a line: the ASCII blanks, the information
separators, next line, and the separators of Unicode.
-/

namespace LazyMatch.Text

/-- Code points of white space, as closed ranges in ascending order. -/
def blankRanges : List (Nat × Nat) :=
  [(0x09, 0x0D), (0x1C, 0x20), (0x85, 0x85), (0xA0, 0xA0), (0x1680, 0x1680), (0x2000, 0x200A),
    (0x2028, 0x2029), (0x202F, 0x202F), (0x205F, 0x205F), (0x3000, 0x3000)]

/-- Whether a character is white space. -/
def isBlank (c : Char) : Bool :=
  blankRanges.any fun r => r.1 ≤ c.toNat && c.toNat ≤ r.2

/-- A line without the white space at its end. -/
def trimEnd (line : List Char) : List Char :=
  (line.reverse.dropWhile isBlank).reverse

end LazyMatch.Text
