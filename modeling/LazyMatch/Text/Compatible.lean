import LazyMatch.Text.Mark
import LazyMatch.Text.Parts

/-!
# Compatible forms

Two identifiers that differ only in variants of characters, or in whether marks stand on their own,
are the same name. Its compatible form has the simplest characters, with marks in order and joined
to the characters before them where that is possible. It is the normalization form KC of Unicode,
for the characters of identifiers.

* `Text.compatible` is that form.
-/

namespace LazyMatch.Text

/-- What a character is made of in the end, taken apart at most `depth` times. -/
def decomposed : Nat → Char → List Char
  | 0, c => [c]
  | depth + 1, c =>
    match parts? c, simpler? c with
    | some (base, mark), _ => decomposed depth base ++ [mark]
    | none, some others => others.flatMap (decomposed depth)
    | none, none => [c]

/-- Join marks in order to a character, `apart` being those so far that cannot be joined. Of one
class only the first mark can be joined. -/
def composedFrom (c : Char) (apart : List Char) : List Char → List Char
  | [] => c :: apart
  | d :: rest =>
    let free := apart.all fun mark => markClass mark < markClass d
    match if free then whole? c d else none with
    | some whole => composedFrom whole apart rest
    | none =>
      if markClass d = 0 then c :: apart ++ composedFrom d [] rest
      else composedFrom c (apart ++ [d]) rest

/-- Join marks in order to the characters before them. -/
def composed : List Char → List Char
  | [] => []
  | c :: rest => if markClass c = 0 then composedFrom c [] rest else c :: composed rest

/-- The compatible form of an identifier. Nothing is taken apart more than four times. -/
def compatible (s : String) : String :=
  if s.toList.all (·.toNat < 128) then s
  else String.ofList (composed (ordered (s.toList.flatMap (decomposed 4))))

end LazyMatch.Text
