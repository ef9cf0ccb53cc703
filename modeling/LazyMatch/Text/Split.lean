/-!
# Stretches of a text

A text falls into the stretches between the occurrences of a separator. There is always at least
one stretch, and putting the separator back between the stretches gives the text again.

* `Text.split` and `Text.join`;
* `Text.hasPart` says whether a text occurs in another.
-/

namespace LazyMatch.Text

/-- The stretches of a text between separators. -/
def split (sep : Char) : List Char → List (List Char)
  | [] => [[]]
  | c :: rest =>
    if c = sep then [] :: split sep rest
    else match split sep rest with
      | [] => [[c]]
      | first :: others => (c :: first) :: others

/-- Stretches with a separator between them. -/
def join (sep : Char) : List (List Char) → List Char
  | [] => []
  | [last] => last
  | first :: rest => first ++ sep :: join sep rest

/-- Whether a text occurs somewhere in another. -/
def hasPart (part : List Char) : List Char → Bool
  | [] => part.isEmpty
  | c :: rest => part.isPrefixOf (c :: rest) || hasPart part rest

end LazyMatch.Text
